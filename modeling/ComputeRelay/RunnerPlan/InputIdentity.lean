import Mathlib.Tactic
import ComputeRelay.Lib.JsonValue
import ComputeRelay.RunnerPlan.Load

/-!
# The identity of the inputs

The relay and the runner both hash a JSON text of the inputs: `InputSnapshot.InputDigest` of
`internal/provider/preparation.go` and `input_digest` of `relay_runner/contract.py`. The two
encoders escape different characters, list the members in a different order and sort in their own
way. On accepted inputs none of this shows (`input_identity`): names, digests and targets are
printable ASCII, the targets differ, and the relay's member order is the sorted one.
-/

namespace ComputeRelay

open Text Domain Admission Provider

namespace Provider

/-- The fields of `entry` in `InputDigest`, in their order. -/
def InputEntry.toJson (e : InputEntry) : Json :=
  .obj [("bytes", .int e.bytes), ("name", .str e.name), ("sha256", .str e.sha256),
    ("target", .str e.target)]

/-- The encoder without HTML escaping; its newline is trimmed. -/
def encodeEntries (es : List InputEntry) : String :=
  Json.marshal Json.escapePlain (.arr (es.map InputEntry.toJson))

def InputSnapshot.entries (s : InputSnapshot) : List InputEntry :=
  s.inputs.map fun i => ⟨i.object.bytes, i.name, i.object.sha256, i.target⟩

/-- The text that `InputDigest` hashes. -/
def InputSnapshot.hashed (s : InputSnapshot) : String :=
  encodeEntries (KeySort.sortBy InputEntry.target s.entries)

theorem InputSnapshot.inputDigest_eq {c : Codec}
    (hc : ∀ es, c.encodeEntries es = some (encodeEntries es)) (s : InputSnapshot) :
    s.inputDigest c = c.digest s.hashed := by
  rw [inputDigest, hc]
  rfl

end Provider

namespace Runner

/-- The four members of an input that `input_digest` keeps. -/
def frozen (x : InputEntry) : Provider.InputEntry := ⟨x.file.bytes, x.name, x.file.sha256, x.target⟩

/-- The members in the order of the comprehension. -/
def frozenJson (e : Provider.InputEntry) : Json :=
  .obj [("name", .str e.name), ("target", .str e.target), ("bytes", .int e.bytes),
    ("sha256", .str e.sha256)]

/-- The text that `input_digest` hashes. -/
def hashed (inputs : List InputEntry) : String :=
  Json.marshal Json.escapeASCII
    (.sorted (.arr
      ((KeySort.sortBy Provider.InputEntry.target (inputs.map frozen)).map frozenJson)))

def inputDigest (sha256 : String → String) (inputs : List InputEntry) : String :=
  sha256 (hashed inputs)

/-- Sorted keys are the order of the relay's fields. -/
theorem sorted_frozenJson (e : Provider.InputEntry) : (frozenJson e).sorted = e.toJson := by
  have hdistinct : (frozenJson e).distinct = true := by
    rw [frozenJson, Json.distinct, Bool.and_eq_true, decide_eq_true_eq]
    exact ⟨by simp, rfl⟩
  have hordered : e.toJson.ordered := by
    refine ⟨?_, trivial, trivial, trivial, trivial, trivial⟩
    show ["bytes", "name", "sha256", "target"].Pairwise (· < ·)
    decide
  refine Json.value_injOn_ordered (Json.ordered_sorted hdistinct) hordered ?_
  rw [Json.value_sorted hdistinct, frozenJson, InputEntry.toJson, Json.value, Json.value]
  refine congrArg Json.Value.obj (Json.valueMembers_perm ?_ (by simp))
  -- name and target move behind bytes, then target behind sha256
  refine .trans (.cons _ (.swap _ _ _)) (.trans (.swap _ _ _) (.cons _ (.cons _ (.swap _ _ _))))

theorem sorted_frozen (es : List Provider.InputEntry) :
    (Json.arr (es.map frozenJson)).sorted = .arr (es.map Provider.InputEntry.toJson) := by
  rw [Json.sorted]
  congr 1
  induction es with
  | nil => rfl
  | cons e es ih => rw [List.map_cons, Json.sortedItems, sorted_frozenJson, ih, List.map_cons]

end Runner

namespace RunnerPlan

/-! ### Characters -/

/-- Printable ASCII. -/
def visible (b : UInt8) : Bool := 32 ≤ b && b < 127

theorem visible_lt {b : UInt8} (h : visible b = true) : b < 128 := by
  simp only [visible, Bool.and_eq_true, decide_eq_true_eq] at h
  exact UInt8.lt_trans h.2 (by decide)

theorem allBytes_mono {p q : UInt8 → Bool} (h : ∀ b, p b = true → q b = true) {s : String}
    (hs : allBytes p s = true) : allBytes q s = true :=
  List.all_eq_true.mpr fun b hb => h b (List.all_eq_true.mp hs b hb)

/-- Both encoders write printable ASCII in the same way. -/
theorem escapePlain_eq_escapeASCII {c : Char} (h : ascii visible c = true) :
    Json.escapePlain c = Json.escapeASCII c := by
  simp only [ascii, visible, Bool.and_eq_true, decide_eq_true_eq, UInt8.le_iff_toNat_le,
    UInt8.lt_iff_toNat_lt] at h
  obtain ⟨hlt, hlow, hhigh⟩ := h
  rw [toNat_byte hlt] at hlow hhigh
  have h32 : 32 ≤ c.toNat := hlow
  have h127 : c.toNat < 127 := hhigh
  have hplain : (decide (c.toNat < 32) || decide (c.toNat = 0x2028) || decide (c.toNat = 0x2029)) =
      false := by
    simp only [Bool.or_eq_false_iff, decide_eq_false_iff_not]
    omega
  have hascii : (decide (32 ≤ c.toNat) && decide (c.toNat < 127)) = true := by
    simp only [Bool.and_eq_true, decide_eq_true_eq]
    exact ⟨h32, h127⟩
  rw [Json.escapePlain, Json.escapeASCII, hplain, hascii]
  rfl

theorem quote_eq {s : String} (h : allBytes visible s = true) :
    Json.quote Json.escapePlain s = Json.quote Json.escapeASCII s := by
  rw [allBytes_eq (fun _ => visible_lt), List.all_eq_true] at h
  rw [Json.quote, Json.quote, List.flatMap_congr fun c hc => escapePlain_eq_escapeASCII (h c hc)]

/-- An entry of printable ASCII. -/
def Visible (e : InputEntry) : Prop :=
  allBytes visible e.name = true ∧ allBytes visible e.sha256 = true ∧
    allBytes visible e.target = true

theorem write_entries {es : List InputEntry} (h : ∀ e ∈ es, Visible e) :
    Json.write Json.escapePlain (.arr (es.map InputEntry.toJson)) =
      Json.write Json.escapeASCII (.arr (es.map InputEntry.toJson)) := by
  have hentry : ∀ e ∈ es, Json.write Json.escapePlain e.toJson =
      Json.write Json.escapeASCII e.toJson := by
    intro e he
    obtain ⟨hname, hsha, htarget⟩ := h e he
    have hkeys : allBytes visible "bytes" = true ∧ allBytes visible "name" = true ∧
        allBytes visible "sha256" = true ∧ allBytes visible "target" = true := by decide
    simp only [InputEntry.toJson, Json.write, Json.writeMembers, quote_eq hname, quote_eq hsha,
      quote_eq htarget, quote_eq hkeys.1, quote_eq hkeys.2.1, quote_eq hkeys.2.2.1,
      quote_eq hkeys.2.2.2]
  have hitems : es.map (Json.write Json.escapePlain ∘ InputEntry.toJson) =
      es.map (Json.write Json.escapeASCII ∘ InputEntry.toJson) := List.map_congr_left hentry
  rw [Json.write, Json.write, Json.writeItems_eq, Json.writeItems_eq, List.map_map, List.map_map,
    hitems]

/-! ### Accepted inputs -/

theorem visible_of_digest {s : String} (h : validSHA256Digest s = true) :
    allBytes visible s = true := by
  rw [validSHA256Digest, Bool.and_eq_true] at h
  refine allBytes_mono (fun b hb => ?_) h.2
  simp only [digit, Bool.or_eq_true, Bool.and_eq_true, decide_eq_true_eq, UInt8.le_iff_toNat_le]
    at hb
  simp only [visible, Bool.and_eq_true, decide_eq_true_eq, UInt8.le_iff_toNat_le,
    UInt8.lt_iff_toNat_lt]
  simp at hb ⊢
  omega

theorem visible_of_inputName {name : String} (h : inputName name = true) :
    allBytes visible name = true := by
  unfold inputName at h
  unfold allBytes
  have hbyte : ∀ b : UInt8, (letter b || digit b || b = 46 || b = 95 || b = 45) = true →
      visible b = true := by
    intro b hb
    simp only [letter, digit, Bool.or_eq_true, Bool.and_eq_true, decide_eq_true_eq,
      UInt8.le_iff_toNat_le, ← UInt8.toNat_inj] at hb
    simp only [visible, Bool.and_eq_true, decide_eq_true_eq, UInt8.le_iff_toNat_le,
      UInt8.lt_iff_toNat_lt]
    simp at hb ⊢
    omega
  split at h
  · rename_i hb
    rw [hb]
    rfl
  · rename_i b bs hb
    rw [Bool.and_eq_true, List.all_eq_true] at h
    rw [hb, List.all_cons, Bool.and_eq_true, List.all_eq_true]
    exact ⟨hbyte b (by simp [h.1]), fun x hx => hbyte x (h.2 x hx)⟩

/-- The loop over the inputs: every accepted input is printable and its target is new. -/
theorem inputsValid_entries {w : String} {names paths : List String} {total : ℤ}
    {fs : List FrozenInput} (h : Provider.inputsValid w names paths total fs = true) :
    (∀ f ∈ fs, Visible ⟨f.object.bytes, f.name, f.object.sha256, f.target⟩) ∧
      (∀ f ∈ fs, f.target.toLower ∉ paths) ∧ (fs.map (·.target)).Nodup := by
  induction fs generalizing names paths total with
  | nil => simp
  | cons f fs ih =>
    simp only [Provider.inputsValid, FrozenInput.accepts, Bool.and_eq_true] at h
    obtain ⟨⟨⟨⟨⟨⟨⟨⟨⟨⟨⟨hvalid, -⟩, -⟩, -⟩, -⟩, -⟩, -⟩, -⟩, hname⟩, htarget⟩, hfresh⟩, htail⟩ := h
    obtain ⟨hvisible, hlater, hnodup⟩ := ih htail
    rw [ObjectMetadata.valid, Bool.and_eq_true] at hvalid
    refine ⟨?_, ?_, ?_⟩
    · rintro g (_ | ⟨_, hg⟩)
      · exact ⟨visible_of_inputName hname, visible_of_digest hvalid.2, htarget⟩
      · exact hvisible g hg
    · rintro g (_ | ⟨_, hg⟩)
      · intro hmem
        have := List.all_eq_true.mp hfresh _ hmem
        simp [overlap] at this
      · exact fun hmem => hlater g hg (List.mem_append_left _ hmem)
    · rw [List.map_cons, List.nodup_cons]
      refine ⟨fun hmem => ?_, hnodup⟩
      obtain ⟨g, hg, heq⟩ := List.mem_map.mp hmem
      exact hlater g hg (List.mem_append_right _ (by rw [heq]; exact List.mem_singleton_self _))

/-- The entries of an accepted snapshot: printable, with different targets. -/
theorem entries_of_validate {w : String} {s : InputSnapshot} (h : s.validate w = true) :
    (∀ e ∈ s.entries, Visible e) ∧ (s.entries.map InputEntry.target).Nodup := by
  rw [InputSnapshot.validate, Bool.and_eq_true] at h
  obtain ⟨hvisible, -, hnodup⟩ := inputsValid_entries h.2
  refine ⟨fun e he => ?_, ?_⟩
  · obtain ⟨f, hf, rfl⟩ := List.mem_map.mp he
    exact hvisible f hf
  · rwa [InputSnapshot.entries, List.map_map]

theorem encodeEntries_injective : Function.Injective encodeEntries := by
  intro es es' h
  have hwrite := Json.write_injective Json.plainSpelling (String.ofList_injective h)
  rw [Json.arr.injEq] at hwrite
  refine List.map_injective_iff.mpr ?_ hwrite
  rintro ⟨b, n, d, t⟩ ⟨b', n', d', t'⟩ heq
  simpa [InputEntry.toJson] using heq

/-- The runner hashes the text of the relay, in whatever order it reads the inputs. -/
theorem hashed_of_perm {w : String} {s : InputSnapshot} (h : s.validate w = true)
    {inputs : List Runner.InputEntry} (hperm : (inputs.map Runner.frozen).Perm s.entries) :
    Runner.hashed inputs = s.hashed := by
  obtain ⟨hvisible, hnodup⟩ := entries_of_validate h
  have hsorted : ∀ e ∈ KeySort.sortBy InputEntry.target s.entries, Visible e :=
    fun e he => hvisible e ((KeySort.sortBy_perm _ _).mem_iff.mp he)
  rw [Runner.hashed, KeySort.sortBy_congr _ hnodup hperm, Runner.sorted_frozen, Json.marshal,
    ← write_entries hsorted]
  rfl

/-- Equal texts are equal sets of entries. -/
theorem hashed_inj {w w' : String} {s t : InputSnapshot} (hs : s.validate w = true)
    (ht : t.validate w' = true) : s.hashed = t.hashed ↔ ∀ e, e ∈ s.entries ↔ e ∈ t.entries := by
  have hsnodup := (entries_of_validate hs).2
  have htnodup := (entries_of_validate ht).2
  constructor
  · intro h e
    have hsort := encodeEntries_injective h
    rw [← (KeySort.sortBy_perm InputEntry.target s.entries).mem_iff, hsort,
      (KeySort.sortBy_perm InputEntry.target t.entries).mem_iff]
  · intro h
    have hperm : s.entries.Perm t.entries :=
      (List.perm_ext_iff_of_nodup hsnodup.of_map htnodup.of_map).mpr h
    rw [InputSnapshot.hashed, InputSnapshot.hashed, KeySort.sortBy_congr _ htnodup hperm]

theorem frozen_manifestOf (id : Identity) (s : InputSnapshot) (spec : Spec) :
    (manifestOf id s spec).inputs.map Runner.frozen = s.entries := by
  rw [manifestOf, List.map_map, InputSnapshot.entries]
  conv_rhs => rw [← List.zipIdx_map_fst 0 s.inputs, List.map_map]
  rfl

/-! ### The identity -/

/-- **Relay and runner hash the same text.** For an accepted snapshot, `hashed` is the text whatever
order `sort.Slice` leaves equal targets in, and whatever order the runner reads the inputs in; and
two accepted snapshots share it exactly when they have the same entries. -/
theorem input_identity {c : Codec} (hc : ∀ es, c.encodeEntries es = some (encodeEntries es))
    {w : String} {s : InputSnapshot} (hs : s.validate w = true) :
    s.inputDigest c = c.digest s.hashed ∧
    (∀ values : List InputEntry, values.Perm s.entries →
      (values.Pairwise fun a b => a.target ≤ b.target) → encodeEntries values = s.hashed) ∧
    (∀ inputs : List Runner.InputEntry, (inputs.map Runner.frozen).Perm s.entries →
      Runner.hashed inputs = s.hashed) ∧
    (∀ id spec inputs, inputs.Perm (manifestOf id s spec).inputs →
      Runner.inputDigest c.digest inputs = s.inputDigest c) ∧
    ∀ (w' : String) (t : InputSnapshot), t.validate w' = true →
      (s.hashed = t.hashed ↔ ∀ e : InputEntry, e ∈ s.entries ↔ e ∈ t.entries) := by
  refine ⟨s.inputDigest_eq hc, ?_, fun inputs => hashed_of_perm hs, ?_, fun w' t => hashed_inj hs⟩
  · intro values hperm hsorted
    rw [KeySort.eq_sortBy _ (entries_of_validate hs).2 hperm hsorted]
    rfl
  · intro id spec inputs hperm
    have hentries := hperm.map Runner.frozen
    rw [frozen_manifestOf] at hentries
    rw [Runner.inputDigest, hashed_of_perm hs hentries, s.inputDigest_eq hc]

/-- Two inputs, listed against the order of their targets. -/
def twoInputs : InputSnapshot :=
  ⟨⟨"bundle", "workspace", 100, sampleDigest⟩,
    [⟨"weights", "model/<w>&.bin", ⟨"object-1", "workspace", 7, sampleDigest⟩⟩,
      ⟨"data", "data.csv", ⟨"object-2", "workspace", 12, sampleDigest⟩⟩], none⟩

/-- A codec with the relay's encoder; the other parts are stand-ins. -/
def inputCodec : Codec := { sampleCodec with encodeEntries := fun es => some (encodeEntries es) }

theorem twoInputs_identity :
    twoInputs.validate "workspace" = true ∧
      Runner.hashed (twoInputs.entries.map fun e =>
        ⟨e.name, e.target, "input", e.bytes, e.sha256⟩) =
        twoInputs.hashed :=
  have hvalid : twoInputs.validate "workspace" = true := by decide +kernel
  ⟨hvalid, (input_identity (c := inputCodec) (fun _ => rfl) hvalid).2.2.1 _ (by
    rw [List.map_map]
    exact .of_eq (List.map_id _))⟩

end RunnerPlan
end ComputeRelay
