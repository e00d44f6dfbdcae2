import Mathlib.Tactic
import ComputeRelay.RunnerPlan.Build

/-!
# What is checked before dispatch and what the runner checks again

The runner repeats the limits of the schema, of admission and of `runnerCompatible` in its own
words. Each section takes one group of its checks and derives it from the checks made before.
-/

namespace ComputeRelay
namespace RunnerPlan

open Text Paths Admission Provider Domain

/-! ### Paths -/

theorem pathChar_of_ascii {c : Char} (h : ascii Packaging.pathByte c = true) :
    Runner.pathChar c = true := by
  have hexcluded : (['\\', ':', '*', '?', '"', '<', '>', '|'].all fun d =>
      !Packaging.pathByte (byte d)) = true := by decide
  simp only [ascii, Bool.and_eq_true, decide_eq_true_eq] at h
  obtain ⟨hascii, hbyte⟩ := h
  have hval := toNat_byte hascii
  have hrange : 32 ≤ (byte c).toNat ∧ (byte c).toNat < 127 := by
    simp only [Packaging.pathByte, Bool.and_eq_true, decide_eq_true_eq] at hbyte
    exact hbyte.1.1.1.1.1.1.1.1
  simp only [Runner.pathChar, Bool.and_eq_true, decide_eq_true_eq, ← hval]
  refine ⟨hrange, fun hmem => ?_⟩
  have hnot := List.all_eq_true.mp hexcluded c hmem
  rw [hbyte] at hnot
  cases hnot

theorem pathChar_ne_nul {c : Char} (h : Runner.pathChar c = true) : c ≠ '\x00' := by
  rintro rfl
  cases h

theorem relative_of_pathChar {p : String} (hne : 0 < p.utf8ByteSize) (hsize : p.utf8ByteSize ≤ 240)
    (hchars : ∀ c ∈ p.toList, Runner.pathChar c = true) (hdepth : (components p).length ≤ 32)
    (hparts : ∀ part ∈ components p, portable part = true)
    (hfree : ∀ part ∈ components p, lowercase part ∉ Runner.protectedNames) :
    Runner.relative p false = true := by
  have hnul : '\x00' ∉ p.toList := fun hmem => pathChar_ne_nul (hchars _ hmem) rfl
  simp only [Runner.relative, Runner.text, noNul, Bool.and_eq_true, Bool.or_eq_true,
    decide_eq_true_eq, List.all_eq_true]
  exact ⟨⟨⟨hne, hsize⟩, hnul⟩, .inr ⟨⟨hchars, hdepth⟩, fun part hmem =>
    ⟨hparts part hmem, hfree part hmem⟩⟩⟩

theorem relative_of_validPath {p : String} (hdot : p ≠ ".") (hsize : p.utf8ByteSize ≤ 240)
    (hvalid : Packaging.validPath p = true) (hdepth : (components p).length ≤ 32)
    (hfree : ∀ part ∈ components p, lowercase part ∉ Runner.protectedNames) :
    Runner.relative p false = true := by
  simp only [Packaging.validPath, hdot, decide_false, Bool.false_or, Bool.and_eq_true,
    decide_eq_true_eq, allBytes_eq fun b => Packaging.pathByte_lt, List.all_eq_true] at hvalid
  obtain ⟨⟨⟨hne, -⟩, hchars⟩, hparts⟩ := hvalid
  exact relative_of_pathChar hne hsize (fun c hc => pathChar_of_ascii (hchars c hc)) hdepth hparts
    hfree

theorem relative_of_runnerPath {p : String} (h : runnerPath p = true) :
    Runner.relative p false = true := by
  simp only [runnerPath, Bool.and_eq_true, decide_eq_true_eq, List.all_eq_true] at h
  obtain ⟨⟨⟨⟨hdot, hsize⟩, hdepth⟩, hvalid⟩, hfree⟩ := h
  exact relative_of_validPath hdot hsize hvalid hdepth hfree

theorem not_protected_of_not_excluded {p : String} (hdot : p ≠ ".")
    (hvalid : Packaging.validPath p = true)
    (h : Packaging.defaultExcluded p = false) {part : Component} (hmem : part ∈ components p) :
    lowercase part ∉ Runner.protectedNames := by
  have hlowered : part.map Packaging.lowered = lowercase part := List.map_congr_left fun c hc =>
    Packaging.lowered_eq
      (Packaging.ascii_of_validPath hdot hvalid c (mem_of_mem_components hmem hc))
  have hpart := List.any_eq_false.mp h part hmem
  dsimp only at hpart
  rw [hlowered] at hpart
  have hcases : ∀ name ∈ Runner.protectedNames,
      (Packaging.excludedParts.map String.toList).contains name ||
        ".env".toList.isPrefixOf name := by decide
  intro hprotected
  have hexcluded := hcases _ hprotected
  simp only [Bool.or_eq_true] at hexcluded hpart
  tauto

theorem relative_of_addPath {seen seen' : PathSet} {p : String}
    (h : Packaging.addPath seen p = some seen') (hdepth : (components p).length ≤ 32) :
    Runner.relative p false = true := by
  simp only [Packaging.addPath, Option.ite_none_left_eq_some, Bool.or_eq_true, not_or,
    decide_eq_true_eq, not_lt, Bool.not_eq_true, Bool.not_eq_false'] at h
  obtain ⟨⟨⟨⟨hdot, hsize⟩, hvalid⟩, hexcluded⟩, -⟩ := h
  exact relative_of_validPath hdot hsize hvalid hdepth fun part hmem =>
    not_protected_of_not_excluded hdot hvalid hexcluded hmem

theorem relative_of_filesValid {seen : PathSet} {total : ℤ} {last : String}
    {files : List Packaging.File}
    (h : Packaging.filesValid Packaging.defaultLimits seen total last files = true) :
    ∀ f ∈ files, Runner.relative f.path false = true := by
  induction files generalizing seen total last with
  | nil => simp
  | cons f rest ih =>
    rw [Packaging.filesValid] at h
    cases hadd : Packaging.addPath seen f.path with
    | none => simp [hadd] at h
    | some seen' =>
      simp only [hadd, Bool.and_eq_true, decide_eq_true_eq] at h
      obtain ⟨⟨⟨⟨⟨hdepth, -⟩, -⟩, -⟩, -⟩, hrest⟩ := h
      rintro g (_ | ⟨_, hg⟩)
      · exact relative_of_addPath hadd hdepth
      · exact ih hrest g hg

theorem relative_of_bundle {m : Packaging.Manifest}
    (h : m.valid Packaging.defaultLimits = true) :
    ∀ f ∈ m.files, Runner.relative f.path false = true := by
  simp only [Packaging.Manifest.valid, Bool.and_eq_true] at h
  exact relative_of_filesValid h.2

/-! ### Staged names -/

theorem pathChar_of_isDigit {c : Char} (h : c.isDigit = true) : Runner.pathChar c = true := by
  have hrange : 48 ≤ c.toNat ∧ c.toNat ≤ 57 := by
    simpa [Char.isDigit, UInt32.le_iff_toNat_le] using h
  have hexcluded : (['\\', ':', '*', '?', '"', '<', '>', '|'].all fun d =>
      !d.isDigit) = true := by decide
  simp only [Runner.pathChar, Bool.and_eq_true, decide_eq_true_eq]
  refine ⟨⟨by omega, by omega⟩, fun hmem => ?_⟩
  have hnot := List.all_eq_true.mp hexcluded c hmem
  rw [h] at hnot
  cases hnot

theorem pathChar_ascii {c : Char} (h : Runner.pathChar c = true) : c.toNat < 128 := by
  simp only [Runner.pathChar, Bool.and_eq_true, decide_eq_true_eq] at h
  omega

theorem toList_inputPath {n : ℕ} (h : n < 1000) :
    ∃ a b c : Char, a.isDigit = true ∧ b.isDigit = true ∧ c.isDigit = true ∧
      (inputPath n).toList = ['i', 'n', 'p', 'u', 't', '-', a, b, c, '.', 'b', 'i', 'n'] := by
  obtain ⟨ds, hds, hdigits, hlen⟩ : ∃ ds : List Char,
      List.replicate (3 - (Nat.toDigits 10 n).length) '0' ++ Nat.toDigits 10 n = ds ∧
        (∀ d ∈ ds, d.isDigit = true) ∧ ds.length = 3 := by
    have hle : (Nat.toDigits 10 n).length ≤ 3 :=
      (Nat.length_toDigits_le_iff (by norm_num) (by norm_num)).mpr h
    refine ⟨_, rfl, fun d hd => ?_, ?_⟩
    · rcases List.mem_append.mp hd with hd | hd
      · rw [List.eq_of_mem_replicate hd]
        rfl
      · exact Nat.isDigit_of_mem_toDigits (by norm_num) (by norm_num) hd
    · rw [List.length_append, List.length_replicate]
      omega
  obtain ⟨a, b, c, rfl⟩ := List.length_eq_three.mp hlen
  refine ⟨a, b, c, hdigits a (by simp), hdigits b (by simp), hdigits c (by simp), ?_⟩
  rw [inputPath, hds, String.toList_ofList]
  rfl

theorem relative_inputPath {n : ℕ} (h : n < 1000) : Runner.relative (inputPath n) false = true := by
  obtain ⟨a, b, c, ha, hb, hc, htoList⟩ := toList_inputPath h
  have hchars : ∀ x ∈ ['i', 'n', 'p', 'u', 't', '-', a, b, c, '.', 'b', 'i', 'n'],
      Runner.pathChar x = true := by
    simp only [List.mem_cons, List.not_mem_nil, or_false, forall_eq_or_imp, forall_eq,
      pathChar_of_isDigit ha, pathChar_of_isDigit hb, pathChar_of_isDigit hc]
    decide
  have hslash : '/' ∉ ['i', 'n', 'p', 'u', 't', '-', a, b, c, '.', 'b', 'i', 'n'] := by
    have hdigit : ¬ '/'.isDigit = true := by decide
    simp only [List.mem_cons, List.not_mem_nil, or_false, not_or]
    refine ⟨by decide, by decide, by decide, by decide, by decide, by decide, ?_, ?_, ?_,
      by decide, by decide, by decide, by decide⟩ <;>
      · rintro rfl
        contradiction
  have hcomponents : components (inputPath n) =
      [['i', 'n', 'p', 'u', 't', '-', a, b, c, '.', 'b', 'i', 'n']] := by
    rw [components, htoList, List.splitOn_eq_singleton hslash]
  have hsize : (inputPath n).utf8ByteSize = 13 := by
    rw [utf8ByteSize_of_ascii (by rw [htoList]; exact fun x hx => pathChar_ascii (hchars x hx)),
      htoList]
    rfl
  refine relative_of_pathChar (by omega) (by omega) (by rwa [htoList]) (by rw [hcomponents]; simp)
    ?_ ?_
  · have hdot : ∀ x : Char, x.isDigit = true → x ≠ '.' := by
      rintro x hx rfl
      cases hx
    have htrim : trimBlanks ['i', 'n', 'p', 'u', 't', '-', a, b, c, '.', 'b', 'i', 'n'] =
        ['i', 'n', 'p', 'u', 't', '-', a, b, c, '.', 'b', 'i', 'n'] :=
      List.rdropWhile_eq_self_iff.mpr fun _ => by simp
    have hdevice : deviceName ['i', 'n', 'p', 'u', 't', '-', a, b, c, '.', 'b', 'i', 'n'] =
        false := by
      simp [deviceName, uppercase, hdot a ha, hdot b hb, hdot c hc, numberedDevice]
    rw [hcomponents]
    simp [portable, htrim, hdevice]
  · rw [hcomponents]
    simp [lowercase, Runner.protectedNames]

/-! ### Identifiers and digests -/

theorem letter_lt {b : UInt8} (h : letter b = true) : b < 128 := by
  simp only [letter, Bool.or_eq_true, Bool.and_eq_true, decide_eq_true_eq,
    UInt8.le_iff_toNat_le] at h
  exact UInt8.lt_iff_toNat_lt.mpr (by simp at h ⊢; omega)

theorem digit_lt {b : UInt8} (h : digit b = true) : b < 128 := by
  simp only [digit, Bool.and_eq_true, decide_eq_true_eq, UInt8.le_iff_toNat_le] at h
  exact UInt8.lt_iff_toNat_lt.mpr (by simp at h ⊢; omega)

theorem alphanumeric_lt {b : UInt8} (h : alphanumeric b = true) : b < 128 := by
  rcases Bool.or_eq_true_iff.mp h with h | h
  · exact letter_lt h
  · exact digit_lt h

/-- A byte pattern over ASCII is the same pattern over characters. -/
theorem pattern_of_bytes {first rest : UInt8 → Bool} (hfirst : ∀ b, first b → b < 128)
    (hrest : ∀ b, rest b → b < 128) {high : ℕ} {s : String} {b : UInt8} {bs : List UInt8}
    (hbytes : bytes s = b :: bs) (hb : first b = true) (hbs : ∀ x ∈ bs, rest x = true)
    (hsize : s.utf8ByteSize ≤ high) : pattern first rest high s = true := by
  have hascii : ∀ c ∈ s.toList, c.toNat < 128 := toNat_lt_of_bytes (by
    rw [hbytes]
    rintro x (_ | ⟨_, hx⟩)
    · exact hfirst _ hb
    · exact hrest _ (hbs _ hx))
  rw [bytes_eq_map hascii] at hbytes
  rw [utf8ByteSize_of_ascii hascii] at hsize
  rw [pattern]
  cases hs : s.toList with
  | nil => simp [hs] at hbytes
  | cons c cs =>
    rw [hs] at hbytes hascii hsize
    obtain ⟨rfl, rfl⟩ := List.cons_eq_cons.mp hbytes
    simp only [ascii, Bool.and_eq_true, decide_eq_true_eq, List.all_eq_true]
    exact ⟨⟨⟨hascii c (List.mem_cons_self ..), hb⟩, fun d hd =>
      ⟨hascii d (List.mem_cons_of_mem _ hd), hbs _ (List.mem_map_of_mem hd)⟩⟩, hsize⟩

theorem idByte_lt {b : UInt8}
    (h : (alphanumeric b || b = 46 || b = 95 || b = 58 || b = 45) = true) : b < 128 := by
  simp only [Bool.or_eq_true, decide_eq_true_eq] at h
  rcases h with (((h | rfl) | rfl) | rfl) | rfl
  · exact alphanumeric_lt h
  all_goals decide

theorem idPattern_of_validOpaqueID {s : String} (h : validOpaqueID s = true) :
    Runner.idPattern s = true := by
  unfold validOpaqueID at h
  cases hs : bytes s with
  | nil => simp [hs] at h
  | cons b bs =>
    simp only [hs, Bool.and_eq_true, decide_eq_true_eq, List.all_eq_true] at h
    obtain ⟨⟨hsize, hb⟩, hbs⟩ := h
    refine pattern_of_bytes (fun b => alphanumeric_lt) (fun b => idByte_lt) hs hb (fun x hx => ?_)
      hsize
    have := hbs x hx
    simp only [alphanumeric, Bool.or_eq_true, decide_eq_true_eq] at this ⊢
    tauto

theorem noncePattern_of_validOpaqueID {s : String} (h : validOpaqueID s = true)
    (hsize : 16 ≤ s.utf8ByteSize) : Runner.noncePattern s = true := by
  have hid := idPattern_of_validOpaqueID h
  unfold Runner.idPattern pattern at hid
  unfold Runner.noncePattern
  cases hs : s.toList with
  | nil => simp [hs] at hid
  | cons c cs =>
    simp only [hs, ascii, Bool.and_eq_true, decide_eq_true_eq, List.all_eq_true] at hid
    obtain ⟨⟨⟨hc, hfirst⟩, hcs⟩, hlen⟩ := hid
    have hascii : ∀ x ∈ s.toList, x.toNat < 128 := by
      rw [hs]
      rintro x (_ | ⟨_, hx⟩)
      · exact hc
      · exact (hcs x hx).1
    rw [utf8ByteSize_of_ascii hascii, hs] at hsize
    simp only [Bool.and_eq_true, decide_eq_true_eq, List.all_eq_true, ascii]
    refine ⟨⟨hsize, by omega⟩, ?_⟩
    rintro x (_ | ⟨_, hx⟩)
    · exact ⟨hc, by simp [hfirst]⟩
    · exact hcs x hx

theorem digestPattern_of_valid {s : String} (h : validSHA256Digest s = true) :
    Runner.digestPattern s = true := by
  have hlt : ∀ b : UInt8, (digit b || (97 ≤ b && b ≤ 102)) = true → b < 128 := by
    intro b hb
    simp only [Bool.or_eq_true, Bool.and_eq_true, decide_eq_true_eq] at hb
    rcases hb with hb | hb
    · exact digit_lt hb
    · exact UInt8.lt_of_le_of_lt hb.2 (by decide)
  simp only [validSHA256Digest, Bool.and_eq_true, decide_eq_true_eq, allBytes_eq hlt] at h
  obtain ⟨hsize, hall⟩ := h
  have hascii : ∀ c ∈ s.toList, c.toNat < 128 := by
    intro c hc
    have := List.all_eq_true.mp hall c hc
    simp only [ascii, Bool.and_eq_true, decide_eq_true_eq] at this
    exact this.1
  rw [utf8ByteSize_of_ascii hascii] at hsize
  simp only [Runner.digestPattern, hsize, hall, decide_true, Bool.and_self]

/-! ### Environments -/

/-- What the runner refuses as an environment name was refused before dispatch. -/
theorem not_refused_of_compatible {key : String} (h : incompatibleVariable key = false) :
    Runner.refusedVariable key = false := by
  simp only [incompatibleVariable, Bool.or_eq_false_iff] at h
  obtain ⟨⟨hlead, hword⟩, hname⟩ := h
  have hsub : ["CC_", "PYTHON", "PIP_", "LD_", "CUDA_", "NVIDIA_", "AWS_", "KAGGLE_"].any
      (fun lead => lead.toList.isPrefixOf (uppercase key.toList)) = false := by
    rw [List.any_eq_false] at hlead ⊢
    exact fun lead hmem => hlead lead (by
      simp only [List.mem_cons, List.not_mem_nil, or_false] at hmem ⊢
      tauto)
  simp only [Runner.refusedVariable, hsub, hname, hword, Bool.or_self]

/-! ### Inputs -/

/-- The entry of a frozen input with index `n`. -/
def frozenEntry (f : FrozenInput) (n : ℕ) : Runner.InputEntry :=
  ⟨f.name, f.target, inputPath n, f.object.bytes, f.object.sha256⟩

/-- The entries are those of the frozen inputs, which have the names and targets of the request. -/
theorem buildInputs_eq {n : ℕ} {is : List Input} {fs : List FrozenInput}
    {es : List Runner.InputEntry} (h : buildInputs n is fs = some es)
    (hlen : is.length = fs.length) :
    es = (fs.zipIdx n).map (fun p => frozenEntry p.1 p.2) ∧
      is.map (·.name) = fs.map (·.name) ∧ is.map (·.target) = fs.map (·.target) := by
  induction is generalizing n fs es with
  | nil =>
    cases fs with
    | nil => simpa [buildInputs, eq_comm] using h
    | cons f fs => simp at hlen
  | cons i is ih =>
    cases fs with
    | nil => simp at hlen
    | cons f fs =>
      simp only [buildInputs, Option.ite_none_right_eq_some, Option.map_eq_some_iff] at h
      obtain ⟨hmatch, es', hrest, rfl⟩ := h
      obtain ⟨hes, hnames, htargets⟩ := ih hrest (by simpa using hlen)
      have hsame : i.name = f.name ∧ i.target = f.target := by
        unfold matches_ at hmatch
        cases hs : i.source with
        | object id expected =>
          simp only [hs, Bool.and_eq_true, decide_eq_true_eq] at hmatch
          exact ⟨hmatch.1.2, hmatch.2⟩
        | https url expected => simp [hs] at hmatch
      refine ⟨?_, ?_, ?_⟩
      · rw [List.zipIdx_cons, List.map_cons, ← hes]
        simp only [inputEntry, frozenEntry, hsame]
      · rw [List.map_cons, List.map_cons, hnames, hsame.1]
      · rw [List.map_cons, List.map_cons, htargets, hsame.2]

/-- Each frozen input is valid and within the size of one input, and together they are within the
size of all. -/
theorem inputsValid_bounds {w : String} {names paths : List String} {total : ℤ}
    {fs : List FrozenInput} (h : Provider.inputsValid w names paths total fs = true)
    (htotal : total ≤ 4 * 2 ^ 30) :
    (∀ f ∈ fs, f.object.valid = true ∧ f.object.bytes ≤ 2 * 2 ^ 30) ∧
      total + (fs.map (·.object.bytes)).sum ≤ 4 * 2 ^ 30 := by
  induction fs generalizing names paths total with
  | nil => simpa using htotal
  | cons f fs ih =>
    simp only [Provider.inputsValid, FrozenInput.accepts, Bool.and_eq_true, decide_eq_true_eq] at h
    obtain ⟨⟨⟨⟨⟨⟨⟨⟨⟨⟨⟨hvalid, -⟩, hone⟩, hrest⟩, -⟩, -⟩, -⟩, -⟩, -⟩, -⟩, -⟩, htail⟩ := h
    obtain ⟨hall, hsum⟩ := ih htail (by omega)
    refine ⟨?_, ?_⟩
    · rintro g (_ | ⟨_, hg⟩)
      · exact ⟨hvalid, hone⟩
      · exact hall g hg
    · rw [List.map_cons, List.sum_cons]
      omega

/-- The names of the inputs of a request differ, even without regard to case. -/
theorem semanticInputs_nodup {names targets : List String} {is : List Input}
    (h : semanticInputs names targets is = true) :
    (is.map (·.name)).Nodup ∧ ∀ i ∈ is, i.name.toLower ∉ names := by
  induction is generalizing names targets with
  | nil => simp
  | cons i is ih =>
    simp only [semanticInputs, Bool.and_eq_true, decide_eq_true_eq] at h
    obtain ⟨⟨⟨-, hfresh⟩, -⟩, hrest⟩ := h
    obtain ⟨hnodup, hlater⟩ := ih hrest
    refine ⟨?_, ?_⟩
    · rw [List.map_cons, List.nodup_cons]
      refine ⟨fun hmem => ?_, hnodup⟩
      obtain ⟨j, hj, hname⟩ := List.mem_map.mp hmem
      exact hlater j hj (by rw [hname]; exact List.mem_cons_self ..)
    · rintro j (_ | ⟨_, hj⟩)
      · exact hfresh
      · exact fun hmem => hlater j hj (List.mem_cons_of_mem _ hmem)

theorem entry_valid {path : String} {object : ObjectMetadata} {maximum : ℤ}
    (hpath : Runner.relative path false = true) (hvalid : object.valid = true)
    (hmax : object.bytes ≤ maximum) :
    Runner.Entry.valid ⟨path, object.bytes, object.sha256⟩ maximum = true := by
  simp only [ObjectMetadata.valid, Bool.and_eq_true, decide_eq_true_eq] at hvalid
  obtain ⟨⟨-, hzero⟩, hdigest⟩ := hvalid
  simp only [Runner.Entry.valid, within, hpath, digestPattern_of_valid hdigest, hzero, hmax,
    decide_true, Bool.and_self]

/-- The runner takes the inputs of a frozen plan whose targets are paths of the runner. -/
theorem inputsValid_of_frozen {w : String} {snapshot : InputSnapshot}
    (hsnapshot : snapshot.validate w = true)
    (hnames : ∀ f ∈ snapshot.inputs, inputNamePattern f.name = true)
    (hnodup : (snapshot.inputs.map (·.name)).Nodup)
    (htargets : Runner.disjoint (snapshot.inputs.map (·.target)) = true) :
    Runner.inputsValid ((snapshot.inputs.zipIdx 0).map fun p => frozenEntry p.1 p.2)
      Runner.defaultLimits.inputBytes = true := by
  simp only [InputSnapshot.validate, Bool.and_eq_true, decide_eq_true_eq] at hsnapshot
  obtain ⟨⟨⟨-, hcount⟩, -⟩, hinputs⟩ := hsnapshot
  obtain ⟨hall, hsum⟩ := inputsValid_bounds hinputs (by norm_num)
  have hfst : ∀ {β : Type} (g : FrozenInput → β),
      ((snapshot.inputs.zipIdx 0).map fun p => g p.1) = snapshot.inputs.map g := by
    intro β g
    rw [show (fun p : FrozenInput × ℕ => g p.1) = g ∘ Prod.fst from rfl, ← List.map_map,
      List.zipIdx_map_fst]
  have hbytes := hfst (·.object.bytes)
  simp only [Runner.inputsValid, Bool.and_eq_true, decide_eq_true_eq, List.length_map,
    List.length_zipIdx, List.map_map, Function.comp_def, frozenEntry, hfst (·.name),
    hfst (·.target), hbytes, List.all_eq_true, List.mem_map, forall_exists_index, and_imp]
  refine ⟨⟨⟨⟨hcount, hnodup⟩, ?_⟩, by simpa [Runner.defaultLimits] using hsum⟩, htargets⟩
  rintro e ⟨f, n⟩ hmem rfl
  have hf := List.fst_mem_of_mem_zipIdx hmem
  have hn := List.snd_lt_of_mem_zipIdx hmem
  exact ⟨hnames f hf, entry_valid (relative_inputPath (by omega)) (hall f hf).1 (hall f hf).2⟩

/-! ### Commands, environments and budgets -/

/-- The arguments and environment values that the runner measures take at most 4096 bytes each. -/
def withinBytes (e : Execution) : Bool :=
  e.command.all (·.utf8ByteSize ≤ 4096) &&
  (e.environment.getD []).all (·.2.utf8ByteSize ≤ 4096) &&
  ((e.dependencies.bind (·.shellSetup)).getD []).all (·.all (·.utf8ByteSize ≤ 4096))

theorem utf8ByteSize_pos {s : String} (h : 1 ≤ s.toList.length) : 0 < s.utf8ByteSize := by
  rw [utf8ByteSize_eq]
  cases hs : s.toList with
  | nil => simp [hs] at h
  | cons c cs =>
    have := Char.utf8Size_pos c
    rw [size_cons]
    omega

/-- Of an argument list that passed the schema, only the bytes are left to check. -/
theorem argv_iff {args : List String} {maximum : ℕ} (hone : 1 ≤ args.length)
    (hmax : args.length ≤ maximum) (hpoints : args.all argument = true)
    (hnul : args.all noNul = true) :
    Runner.argv args maximum = true ↔ args.all (·.utf8ByteSize ≤ 4096) = true := by
  simp only [List.all_eq_true, argument, points, Bool.and_eq_true,
    decide_eq_true_eq] at hpoints hnul
  simp only [Runner.argv, hone, hmax, decide_true, Bool.true_and, List.all_eq_true, Runner.text,
    Bool.and_eq_true, decide_eq_true_eq]
  exact forall₂_congr fun arg hmem =>
    ⟨fun h => h.1.2, fun h => ⟨⟨utf8ByteSize_pos (hpoints arg hmem).1, h⟩, hnul arg hmem⟩⟩

theorem environmentValid_iff {env : List (String × String)} (hcount : env.length ≤ 64)
    (hnames : ∀ entry ∈ env, environmentName entry.1 = true)
    (hcompatible : ∀ entry ∈ env, incompatibleVariable entry.1 = false)
    (hnul : ∀ entry ∈ env, noNul entry.2 = true) :
    Runner.environmentValid env = true ↔ env.all (·.2.utf8ByteSize ≤ 4096) = true := by
  simp only [Runner.environmentValid, hcount, decide_true, Bool.true_and, List.all_eq_true,
    Bool.and_eq_true, decide_eq_true_eq, Bool.not_eq_true']
  exact forall₂_congr fun entry hmem =>
    ⟨fun h => h.1.2, fun h => ⟨⟨⟨hnames entry hmem,
      not_refused_of_compatible (hcompatible entry hmem)⟩, h⟩, hnul entry hmem⟩⟩

theorem timeoutsValid_of_parsed {s : Spec} (hschema : s.timeouts.schema = true)
    (hdeadline : (s.timeouts.executionDeadline.all fun raw =>
      2 ≤ Rfc3339.year s.deadline && Rfc3339.format s.deadline = raw) = true)
    (hwall : s.timeouts.setupSeconds + s.timeouts.finalizationGraceSeconds <
      s.timeouts.remoteWallSeconds) :
    Runner.timeoutsValid s.timeouts = true := by
  simp only [Timeouts.schema, Bool.and_eq_true] at hschema
  obtain ⟨⟨⟨hpattern, hremote⟩, hsetup⟩, hgrace⟩ := hschema
  have hutc : (s.timeouts.executionDeadline.all fun raw => (Runner.utcTime raw).isSome) = true := by
    cases hraw : s.timeouts.executionDeadline with
    | none => rfl
    | some raw =>
      simp only [hraw, Option.all_some, Bool.and_eq_true, decide_eq_true_eq] at hpattern hdeadline ⊢
      have hyear := hdeadline.1
      simp only [Spec.deadline, hraw, Option.getD_some] at hyear
      cases hparse : Rfc3339.parse raw with
      | none =>
        rw [hparse] at hyear
        exact absurd hyear (by decide)
      | some t =>
        rw [hparse, Option.getD_some] at hyear
        simp [Runner.utcTime, hpattern, hparse, show 1 < Rfc3339.year t by omega]
  simp only [Runner.timeoutsValid, hutc, hremote, hsetup, hgrace, hwall, decide_true, Bool.and_self]

theorem resourcesValid_of_schema {r : Resources} (h : r.schema = true) :
    Runner.resourcesValid r = true := by
  simp only [Resources.schema, Bool.and_eq_true] at h
  obtain ⟨⟨hcount, hmemory⟩, haccelerator⟩ := h
  unfold Runner.resourcesValid
  cases hr : r.accelerator with
  | cpu => simpa [hr] using haccelerator
  | gpu =>
    simp only [hr] at haccelerator
    obtain ⟨count, hsome⟩ := Option.isSome_iff_exists.mp haccelerator
    rw [hsome] at hcount ⊢
    simpa [hmemory] using hcount

theorem outputsValid_of_compatible {outputs : List Output} (hone : 1 ≤ outputs.length)
    (hmax : outputs.length ≤ 64) (hschema : outputs.all Output.schema = true)
    (hpaths : outputs.all (fun o => runnerPath o.path) = true)
    (hdisjoint : disjointRunnerPaths (outputs.map (·.path)) = true) :
    Runner.outputsValid outputs Runner.defaultLimits.artifactBytes = true := by
  simp only [List.all_eq_true, Output.schema, Bool.and_eq_true] at hschema hpaths
  have hrelative : ∀ o ∈ outputs, Runner.relative o.path false = true := fun o hmem =>
    relative_of_runnerPath (hpaths o hmem)
  simp only [Runner.outputsValid, hone, hmax, decide_true, Bool.true_and, Runner.disjoint,
    Bool.and_eq_true, List.all_eq_true, List.mem_map, forall_exists_index, and_imp,
    forall_apply_eq_imp_iff₂]
  exact ⟨fun o hmem => ⟨hrelative o hmem, (hschema o hmem).2⟩, hrelative, hdisjoint⟩

theorem slotsValid_of_parsed {slots : List Slot} (hone : 1 ≤ slots.length) (hmax : slots.length ≤ 8)
    (hschema : slots.all slotSchema = true) (hvalid : validSlots slots = true) :
    Runner.slotsValid slots = true := by
  simp only [validSlots, Bool.and_eq_true, decide_eq_true_eq] at hvalid
  simp only [Runner.slotsValid, hone, hmax, hvalid.1.2, decide_true, Bool.true_and]
  exact hschema

theorem head_of_command {command : List String} {kind : Kind}
    (h : (match command, kind with
      | [], _ => false
      | cmd :: _, .python => cmd = "python" || cmd = "python3"
      | cmd :: _, .shell => cmd = "bash" || cmd = "sh") = true) :
    command.head?.any (· ∈ Runner.interpreters kind) = true := by
  cases command with
  | nil => cases h
  | cons cmd rest =>
    cases kind <;> simpa [Runner.interpreters] using h

/-- Of an execution that passed admission and `runnerCompatible`, only the bytes of its arguments
and of its environment values are left to check. -/
theorem executionValid_iff {s : Spec} {m : Packaging.Manifest}
    (hschema : s.execution.schema = true) (hsemantic : semantic s = true)
    (hbundle : m.valid Packaging.defaultLimits = true)
    (hcompatible : runnerCompatible s m = true) :
    Runner.executionValid s.execution = true ↔ withinBytes s.execution = true := by
  simp only [semantic, Bool.and_eq_true] at hsemantic
  obtain ⟨⟨⟨⟨⟨-, hsenv⟩, hscommand⟩, hsshell⟩, -⟩, -⟩ := hsemantic
  simp only [runnerCompatible, Bool.and_eq_true] at hcompatible
  obtain ⟨⟨⟨⟨⟨⟨⟨⟨⟨-, hhead⟩, hwd⟩, -⟩, hrequirements⟩, -⟩, -⟩, -⟩, -⟩, hcenv⟩ := hcompatible
  simp only [Execution.schema, Bool.and_eq_true, decide_eq_true_eq] at hschema
  obtain ⟨⟨⟨⟨⟨hone, hmax⟩, hcommand⟩, -⟩, henv⟩, hdeps⟩ := hschema
  have hcwd : Runner.relative (s.execution.workingDirectory.getD ".") true = true := by
    rw [Bool.or_eq_true] at hwd
    rcases hwd with hwd | hwd
    · rw [show s.execution.workingDirectory.getD "." = "." from of_decide_eq_true hwd]
      decide
    · have hrelative := relative_of_runnerPath hwd
      simp only [Runner.relative, workingDirectory, Bool.and_false, Bool.false_or] at hrelative
      simp only [Runner.relative, Bool.and_eq_true, Bool.or_eq_true] at hrelative ⊢
      exact ⟨hrelative.1, .inr hrelative.2⟩
  have hreq :
      ((s.execution.dependencies.getD {}).pythonRequirements.all (Runner.relative · false)) =
      true := by
    cases hd : s.execution.dependencies with
    | none => rfl
    | some d =>
      cases hp : d.pythonRequirements with
      | none => simp [hp]
      | some req =>
        simp only [hd, hp, Option.bind_some, Option.all_some, List.any_eq_true,
          decide_eq_true_eq] at hrequirements
        obtain ⟨f, hf, rfl⟩ := hrequirements
        simpa [hp] using relative_of_bundle hbundle f hf
  have hcommands := argv_iff hone hmax hcommand hscommand
  have henvironment : Runner.environmentValid (s.execution.environment.getD []) = true ↔
      (s.execution.environment.getD []).all (·.2.utf8ByteSize ≤ 4096) = true := by
    cases he : s.execution.environment with
    | none => simp [Runner.environmentValid]
    | some env =>
      simp only [he, Option.all_some, Option.getD_some, Bool.and_eq_true, decide_eq_true_eq,
        List.all_eq_true, Bool.not_eq_true'] at henv hcenv hsenv ⊢
      simpa only [List.all_eq_true, decide_eq_true_eq] using
        environmentValid_iff henv.1.2 (fun entry hmem => (henv.2 entry hmem).1)
          (fun entry hmem => (hcenv entry hmem).1) (fun entry hmem => (hcenv entry hmem).2)
  have hshell : ((s.execution.dependencies.getD {}).shellSetup.all fun commands =>
      s.execution.kind = .shell && commands.length ≤ 32 && commands.all (Runner.argv · 32)) = true ↔
      ((s.execution.dependencies.bind (·.shellSetup)).getD []).all
        (·.all (·.utf8ByteSize ≤ 4096)) = true := by
    cases hd : s.execution.dependencies with
    | none => simp
    | some d =>
      cases hc : d.shellSetup with
      | none => simp [hc]
      | some commands =>
        simp only [hd, hc, Option.all_some, Dependencies.schema, Bool.and_eq_true, Bool.or_eq_true,
          decide_eq_true_eq, ne_eq, Option.isNone_some, Bool.false_eq_true, or_false,
          Option.bind_some, Option.getD_some, List.all_eq_true] at hdeps hsshell ⊢
        obtain ⟨⟨-, hcount, hargs⟩, hkind⟩ := hdeps
        have hkind' : s.execution.kind = .shell := by
          cases hk : s.execution.kind with
          | python => exact absurd hk hkind
          | shell => rfl
        simp only [hkind', hcount, true_and]
        refine forall₂_congr fun cmd hmem => ?_
        rw [argv_iff (hargs cmd hmem).1.1 (hargs cmd hmem).1.2
          (List.all_eq_true.mpr (hargs cmd hmem).2) (List.all_eq_true.mpr (hsshell cmd hmem))]
        simp only [List.all_eq_true, decide_eq_true_eq]
  simp only [Runner.executionValid, withinBytes, Bool.and_eq_true, hcommands, henvironment, hshell,
    head_of_command hhead, hcwd, hreq, true_and, and_true, and_assoc]

end RunnerPlan
end ComputeRelay
