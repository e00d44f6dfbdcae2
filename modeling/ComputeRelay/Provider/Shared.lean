import Mathlib.Tactic
import ComputeRelay.Provider.Contract

/-!
# Contents that several attempts share

`SharedResourceKey` and `SelectSharedInputs` of `internal/provider/resource_bounds.go`. The key of a
content is a text; for valid objects it tells contents apart (`sharedResourceKey_inj`). The selected
objects are the first ones with distinct contents (`map_content_selectSharedInputs`).
-/

namespace ComputeRelay
namespace Provider

open Domain Text

/-- `DefaultSharedInputLimit` -/
def defaultSharedInputLimit : ℕ := 7

/-- `strconv.FormatInt` of a number that is not negative. -/
def decimal (n : ℤ) : List Char := Nat.toDigits 10 n.toNat

def sharedResourceKey (sha256 : String) (size : ℤ) : String :=
  if !validSHA256Digest sha256 || size < 0 then ""
  else String.ofList (sha256.toList ++ '_' :: decimal size)

/-- The loop of `SelectSharedInputs`. -/
def selectLoop (minBytes : ℤ) (limit : ℕ) (seen : List String) (selected : List ObjectMetadata) :
    List FrozenInput → List ObjectMetadata
  | [] => selected
  | input :: rest =>
    let object := input.object
    if object.bytes < minBytes then selectLoop minBytes limit seen selected rest
    else
      let key := sharedResourceKey object.sha256 object.bytes
      if key = "" || key ∈ seen then selectLoop minBytes limit seen selected rest
      else if limit ≤ selected.length then selected
      else selectLoop minBytes limit (key :: seen) (selected ++ [object]) rest

def selectSharedInputs (inputs : List FrozenInput) (minBytes : ℤ) (limit : ℕ) :
    List ObjectMetadata :=
  if minBytes ≤ 0 || limit = 0 then [] else selectLoop minBytes limit [] [] inputs

/-! ### Keys -/

/-- What the bytes of an object are known by. -/
def ObjectMetadata.content (o : ObjectMetadata) : String × ℤ := (o.sha256, o.bytes)

def ObjectMetadata.key (o : ObjectMetadata) : String := sharedResourceKey o.sha256 o.bytes

/-- The digest and the size are well formed. -/
def ObjectMetadata.Identified (o : ObjectMetadata) : Prop :=
  validSHA256Digest o.sha256 = true ∧ 0 ≤ o.bytes

theorem decimal_inj {m n : ℤ} (hm : 0 ≤ m) (hn : 0 ≤ n) (h : decimal m = decimal n) : m = n := by
  have hvalue (k : ℕ) : Nat.ofDigitChars 10 (Nat.toDigits 10 k) 0 = k :=
    Nat.ofDigitChars_toDigits (by norm_num) (by norm_num)
  have hnat : m.toNat = n.toNat := by
    rw [← hvalue m.toNat, ← hvalue n.toNat]
    exact congrArg (Nat.ofDigitChars 10 · 0) h
  omega

variable {o o' : ObjectMetadata}

theorem ObjectMetadata.Identified.key_eq (h : o.Identified) :
    o.key = String.ofList (o.sha256.toList ++ '_' :: decimal o.bytes) := by
  have hbytes : ¬ o.bytes < 0 := not_lt.mpr h.2
  rw [key, sharedResourceKey, if_neg (by simp [h.1, hbytes])]

theorem ObjectMetadata.Identified.key_ne (h : o.Identified) : o.key ≠ "" := by
  rw [h.key_eq, ne_eq, ← String.toList_inj]
  simp

theorem length_of_validSHA256Digest {s : String} (h : validSHA256Digest s = true) :
    s.toList.length = 64 := by
  have hlt : ∀ b : UInt8, (digit b || (97 ≤ b && b ≤ 102)) = true → b < 128 := by
    intro b hb
    simp only [digit, Bool.or_eq_true, Bool.and_eq_true, decide_eq_true_eq,
      UInt8.le_iff_toNat_le] at hb
    exact UInt8.lt_iff_toNat_lt.mpr (by simp at hb ⊢; omega)
  simp only [validSHA256Digest, Bool.and_eq_true, decide_eq_true_eq, allBytes_eq hlt,
    List.all_eq_true, ascii] at h
  rw [← utf8ByteSize_of_ascii fun c hc => (h.2 c hc).1, h.1]

theorem sharedResourceKey_inj (h : o.Identified) (h' : o'.Identified) :
    o.key = o'.key ↔ o.content = o'.content := by
  rw [h.key_eq, h'.key_eq, ← String.toList_inj, String.toList_ofList, String.toList_ofList]
  constructor
  · intro heq
    have hlength := (length_of_validSHA256Digest h.1).trans (length_of_validSHA256Digest h'.1).symm
    obtain ⟨hsha, htail⟩ := List.append_inj heq hlength
    have hsize := decimal_inj h.2 h'.2 (List.cons.inj htail).2
    exact Prod.ext (String.toList_inj.mp hsha) hsize
  · intro heq
    rw [show o.sha256 = o'.sha256 from congrArg Prod.fst heq,
      show o.bytes = o'.bytes from congrArg Prod.snd heq]

/-! ### Selection -/

/-- The contents of at least the size. -/
def largeContents (minBytes : ℤ) (inputs : List FrozenInput) : List (String × ℤ) :=
  ((inputs.map (·.object)).filter fun o => minBytes ≤ o.bytes).map ObjectMetadata.content

/-- The contents that are not among the old ones, each once. -/
def beyond (old contents : List (String × ℤ)) : List (String × ℤ) :=
  (contents.filter fun c => c ∉ old).eraseDups

theorem beyond_of_mem {old contents : List (String × ℤ)} {c : String × ℤ} (h : c ∈ old) :
    beyond old (c :: contents) = beyond old contents := by
  rw [beyond, List.filter_cons_of_neg (by simpa using h), beyond]

theorem beyond_of_not_mem {old contents : List (String × ℤ)} {c : String × ℤ} (h : c ∉ old) :
    beyond old (c :: contents) = c :: beyond (old ++ [c]) contents := by
  rw [beyond, List.filter_cons_of_pos (by simpa using h), List.eraseDups_cons,
    List.filter_filter, beyond]
  congr 2
  refine List.filter_congr fun d _ => ?_
  rw [Bool.eq_iff_iff]
  simp [and_comm]

variable {minBytes : ℤ} {limit : ℕ} {inputs : List FrozenInput}

theorem largeContents_cons_of_lt {input : FrozenInput} (h : input.object.bytes < minBytes) :
    largeContents minBytes (input :: inputs) = largeContents minBytes inputs := by
  simp [largeContents, not_le.mpr h]

theorem largeContents_cons_of_le {input : FrozenInput} (h : minBytes ≤ input.object.bytes) :
    largeContents minBytes (input :: inputs) =
      input.object.content :: largeContents minBytes inputs := by
  simp [largeContents, h]

/-- The loop takes contents that it has not seen, until there are enough. -/
theorem map_content_selectLoop {seen : List String} {selected : List ObjectMetadata}
    (hinputs : ∀ i ∈ inputs, i.object.Identified) (hselected : ∀ o ∈ selected, o.Identified)
    (hseen : ∀ k, k ∈ seen ↔ k ∈ selected.map ObjectMetadata.key) :
    (selectLoop minBytes limit seen selected inputs).map ObjectMetadata.content =
      selected.map ObjectMetadata.content ++
        (beyond (selected.map ObjectMetadata.content) (largeContents minBytes inputs)).take
          (limit - selected.length) := by
  induction inputs generalizing seen selected with
  | nil => simp [selectLoop, largeContents, beyond]
  | cons input rest ih =>
    have hinput := hinputs input List.mem_cons_self
    have hrest := fun i hi => hinputs i (List.mem_cons_of_mem _ hi)
    rw [selectLoop]
    dsimp only
    by_cases hsmall : input.object.bytes < minBytes
    · rw [if_pos hsmall, ih hrest hselected hseen, largeContents_cons_of_lt hsmall]
    rw [if_neg hsmall, largeContents_cons_of_le (not_lt.mp hsmall)]
    have hkey : sharedResourceKey input.object.sha256 input.object.bytes ∈ seen ↔
        input.object.content ∈ selected.map ObjectMetadata.content := by
      rw [hseen, List.mem_map, List.mem_map]
      refine exists_congr fun o => and_congr_right fun ho => ?_
      exact sharedResourceKey_inj (hselected o ho) hinput
    have hne : sharedResourceKey input.object.sha256 input.object.bytes ≠ "" := hinput.key_ne
    by_cases hold : input.object.content ∈ selected.map ObjectMetadata.content
    · rw [if_pos (by simp [hkey.mpr hold]), ih hrest hselected hseen, beyond_of_mem hold]
    rw [if_neg (by simp [hne, mt hkey.mp hold]), beyond_of_not_mem hold]
    by_cases hfull : limit ≤ selected.length
    · rw [if_pos hfull, Nat.sub_eq_zero_of_le hfull, List.take_zero, List.append_nil]
    rw [if_neg hfull, ih hrest]
    · obtain ⟨k, hk⟩ : ∃ k, limit - selected.length = k + 1 :=
        ⟨limit - selected.length - 1, by omega⟩
      have hk' : limit - (selected ++ [input.object]).length = k := by
        rw [List.length_append, List.length_singleton]
        omega
      rw [hk, hk', List.take_succ_cons, List.map_append, List.map_singleton, List.append_assoc,
        List.singleton_append]
    · intro o ho
      rcases List.mem_append.mp ho with ho | ho
      · exact hselected o ho
      · rw [List.mem_singleton.mp ho]
        exact hinput
    · intro k
      rw [List.mem_cons, hseen, List.map_append, List.mem_append, List.map_singleton,
        List.mem_singleton]
      exact or_comm

/-- **The first distinct contents of at least the size, up to the limit**; without a threshold there
are none. -/
theorem map_content_selectSharedInputs (hinputs : ∀ i ∈ inputs, i.object.Identified)
    (hlimit : limit ≠ 0) : (selectSharedInputs inputs minBytes limit).map ObjectMetadata.content =
      if 0 < minBytes then (largeContents minBytes inputs).eraseDups.take limit else [] := by
  unfold selectSharedInputs
  by_cases hmin : 0 < minBytes
  · rw [if_neg (by simp [not_le.mpr hmin, hlimit]), if_pos hmin,
      map_content_selectLoop hinputs (by simp) (by simp)]
    simp [beyond]
  · rw [if_pos (by simp [not_lt.mp hmin]), if_neg hmin, List.map_nil]

theorem nodup_eraseDups {α : Type} [BEq α] [LawfulBEq α] : ∀ l : List α, l.eraseDups.Nodup
  | [] => List.nodup_nil
  | a :: l => by
    rw [List.eraseDups_cons, List.nodup_cons, List.mem_eraseDups]
    exact ⟨by simp, nodup_eraseDups _⟩
termination_by l => l.length
decreasing_by
  have := List.length_filter_le (fun b => !b == a) l
  simp only [List.length_cons]
  omega

theorem nodup_selectSharedInputs (hinputs : ∀ i ∈ inputs, i.object.Identified)
    (hlimit : limit ≠ 0) :
    ((selectSharedInputs inputs minBytes limit).map ObjectMetadata.content).Nodup := by
  rw [map_content_selectSharedInputs hinputs hlimit]
  split
  · exact (nodup_eraseDups _).sublist (List.take_sublist _ _)
  · exact List.nodup_nil

theorem mem_selectLoop {seen : List String} {selected : List ObjectMetadata} {o : ObjectMetadata}
    (h : o ∈ selectLoop minBytes limit seen selected inputs) :
    o ∈ selected ∨ ∃ i ∈ inputs, i.object = o := by
  induction inputs generalizing seen selected with
  | nil => exact .inl h
  | cons input rest ih =>
    have hlater {P : Prop} (h : P ∨ ∃ i ∈ rest, i.object = o) : P ∨
        ∃ i ∈ input :: rest, i.object = o :=
      h.imp_right fun ⟨i, hi, ho⟩ => ⟨i, List.mem_cons_of_mem _ hi, ho⟩
    rw [selectLoop] at h
    dsimp only at h
    by_cases hsmall : input.object.bytes < minBytes
    · rw [if_pos hsmall] at h
      exact hlater (ih h)
    rw [if_neg hsmall] at h
    split at h
    · exact hlater (ih h)
    split at h
    · exact .inl h
    · rcases ih h with h | h
      · rcases List.mem_append.mp h with h | h
        · exact .inl h
        · exact .inr ⟨input, List.mem_cons_self, (List.mem_singleton.mp h).symm⟩
      · exact hlater (.inr h)

theorem identified_of_mem_selectSharedInputs (hinputs : ∀ i ∈ inputs, i.object.Identified)
    {o : ObjectMetadata} (h : o ∈ selectSharedInputs inputs minBytes limit) : o.Identified := by
  unfold selectSharedInputs at h
  split at h
  · cases h
  · rcases mem_selectLoop h with h | ⟨i, hi, rfl⟩
    · cases h
    · exact hinputs i hi

end Provider
end ComputeRelay
