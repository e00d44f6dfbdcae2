import Mathlib.Tactic
import ComputeRelay.Lib.Text
import ComputeRelay.Lib.Json
import ComputeRelay.Lib.Scan

/-!
# Workload secrets

`Redactor` of `runner/python/relay_runner/secrets.py`. The redactor of an attempt looks for its
secret values as they are, percent-encoded and as JSON strings spell them, and `redact` replaces
them in a text.
-/

namespace ComputeRelay
namespace Runner
namespace Secrets

open Scan

abbrev Bytes := List UInt8

def maxSlot : ℕ := 8 <<< 10

/-! ### Spellings of a value -/

/-- The bytes that percent-encoding always leaves alone: letters, digits and `_.-~`. -/
def alwaysSafe (b : UInt8) : Bool := Text.letter b || Text.digit b || [95, 46, 45, 126].contains b

def upperHex (n : ℕ) : UInt8 := (if n < 10 then 48 + n else 55 + n).toUInt8

/-- `urllib.parse.quote_from_bytes` -/
def quoteFromBytes (safe value : Bytes) : Bytes :=
  value.flatMap fun b =>
    if alwaysSafe b || safe.contains b then [b]
    else [37, upperHex (b.toNat / 16), upperHex (b.toNat % 16)]

/-- `urllib.parse.quote_plus`: spaces become plus signs. -/
def quotePlus (value : Bytes) : Bytes :=
  (quoteFromBytes [32] value).map fun b => if b = 32 then 43 else b

/-- The escapes of `json.dumps` with `ensure_ascii=False`: quotes, backslashes and control
characters. -/
def escapeControl (c : Char) : List Char :=
  match Json.shortEscape c with
  | some text => text
  | none => if c.toNat < 32 then Json.escapeUnit c.toNat else [c]

/-- `json.dumps(text)[1:-1].encode()` -/
def dumps (esc : Char → List Char) (text : String) : Bytes :=
  Text.bytes (String.ofList (text.toList.flatMap esc))

def variants (value : Bytes) : List Bytes :=
  [value, quoteFromBytes [] value, quoteFromBytes [47] value, quotePlus value] ++
    match String.fromUTF8? ⟨value.toArray⟩ with
    | some text => [dumps escapeControl text, dumps Json.escapeASCII text]
    | none => []

theorem flatMap_ne_nil {α β : Type} {l : List α} {f : α → List β} (hl : l ≠ [])
    (hf : ∀ a, f a ≠ []) : l.flatMap f ≠ [] := by
  obtain ⟨a, l, rfl⟩ := List.exists_cons_of_ne_nil hl
  rw [List.flatMap_cons]
  exact List.append_ne_nil_of_left_ne_nil (hf a) _

theorem quoteFromBytes_ne_nil {safe value : Bytes} (h : value ≠ []) :
    quoteFromBytes safe value ≠ [] := by
  refine flatMap_ne_nil h fun b => ?_
  split_ifs <;> simp

theorem bytes_eq_nil {text : String} : Text.bytes text = [] ↔ text.toList = [] := by
  rw [← List.length_eq_zero_iff, Text.length_bytes, String.utf8ByteSize_eq_zero_iff,
    String.toList_eq_nil_iff]

theorem dumps_ne_nil {esc : Char → List Char} {text : String} (hesc : ∀ c, esc c ≠ [])
    (h : Text.bytes text ≠ []) : dumps esc text ≠ [] := by
  rw [Ne, bytes_eq_nil] at h
  rw [dumps, Ne, bytes_eq_nil, String.toList_ofList]
  exact flatMap_ne_nil h hesc

theorem shortEscape_ne_nil {c : Char} {text : List Char} (h : Json.shortEscape c = some text) :
    text ≠ [] := by
  unfold Json.shortEscape at h
  split at h <;> simp at h <;> simp [← h]

theorem escapeControl_ne_nil (c : Char) : escapeControl c ≠ [] := by
  unfold escapeControl
  split
  · next text h => exact shortEscape_ne_nil h
  · split_ifs <;> simp [Json.escapeUnit]

theorem escapeASCII_ne_nil (c : Char) : Json.escapeASCII c ≠ [] := by
  unfold Json.escapeASCII
  split
  · next text h => exact shortEscape_ne_nil h
  · split_ifs <;> simp [Json.escapeUnit]

theorem variants_ne_nil {value x : Bytes} (h : value ≠ []) (hx : x ∈ variants value) : x ≠ [] := by
  rw [variants, List.mem_append] at hx
  rcases hx with hx | hx
  · simp only [List.mem_cons, List.not_mem_nil, or_false] at hx
    rcases hx with rfl | rfl | rfl | rfl
    · exact h
    · exact quoteFromBytes_ne_nil h
    · exact quoteFromBytes_ne_nil h
    · rw [quotePlus, Ne, List.map_eq_nil_iff]
      exact quoteFromBytes_ne_nil h
  · cases htext : String.fromUTF8? ⟨value.toArray⟩ with
    | none => simp [htext] at hx
    | some text =>
      have hbytes : Text.bytes text = value := by
        unfold String.fromUTF8? at htext
        split_ifs at htext
        obtain rfl := Option.some.inj htext
        rfl
      simp only [htext, List.mem_cons, List.not_mem_nil, or_false] at hx
      rcases hx with rfl | rfl
      · exact dumps_ne_nil escapeControl_ne_nil (hbytes ▸ h)
      · exact dumps_ne_nil escapeASCII_ne_nil (hbytes ▸ h)

/-! ### The redactor -/

def redacted : Bytes := Text.bytes "[REDACTED]"

/-- The texts that are looked for. None of them is empty. -/
structure Redactor where
  needles : List Bytes
  nonempty : ∀ x ∈ needles, x ≠ []

/-- The longest come first, and those of one length in the order of their bytes. -/
def before (a b : Bytes) : Prop := b.length < a.length ∨ a.length = b.length ∧ a ≤ b

instance : DecidableRel before := fun a b =>
  inferInstanceAs (Decidable (b.length < a.length ∨ a.length = b.length ∧ a ≤ b))

namespace Redactor

/-- `Redactor(values)`. No answer means that `require` raised. -/
def ofValues (values : List Bytes) : Option Redactor :=
  if h : ∀ v ∈ values, 0 < v.length ∧ v.length ≤ maxSlot then
    some ⟨(values.flatMap variants).dedup.insertionSort before, by
      intro x hx
      rw [List.mem_insertionSort, List.mem_dedup, List.mem_flatMap] at hx
      obtain ⟨v, hv, hx⟩ := hx
      exact variants_ne_nil (List.length_pos_iff.mp (h v hv).1) hx⟩
  else none

theorem mem_needles {values : List Bytes} {R : Redactor}
    (h : ofValues values = some R) {x : Bytes} : x ∈ R.needles ↔ ∃ v ∈ values, x ∈ variants v := by
  unfold ofValues at h
  split_ifs at h
  obtain rfl := Option.some.inj h
  rw [List.mem_insertionSort, List.mem_dedup, List.mem_flatMap]

variable (R : Redactor)

def pattern : Matcher UInt8 := anyOf R.needles

/-- One less than the length of the longest needle. -/
def hold : ℕ := (R.needles.map fun x => x.length - 1).foldr max 0

def multiline : Bool := R.needles.any (·.contains 10)

def contains (data : Bytes) : Bool := found R.pattern data

def marker : Bytes := if R.contains redacted then [] else redacted

/-- The loop of `redact`; after its last round nothing is published. -/
def redactLoop : ℕ → Bytes → Bytes
  | 0, _ => []
  | n + 1, data =>
    let data := sub R.pattern R.marker 0 data
    if R.contains data then redactLoop n data else data

def redact (data : Bytes) : Bytes := if R.needles.isEmpty then data else R.redactLoop 3 data

variable {R}

theorem pattern_local : Local R.pattern := anyOf_local R.nonempty

theorem contains_iff {data : Bytes} : R.contains data = true ↔ ∃ x ∈ R.needles, x <:+: data :=
  found_anyOf

theorem length_le_hold {x : Bytes} (hx : x ∈ R.needles) : x.length ≤ R.hold + 1 := by
  have hmem : x.length - 1 ∈ R.needles.map fun x => x.length - 1 := List.mem_map.mpr ⟨x, hx, rfl⟩
  have hle : x.length - 1 ≤ R.hold := List.le_max_of_le hmem le_rfl
  omega

theorem not_mem_newline (h : R.multiline = false) {x : Bytes} (hx : x ∈ R.needles) : 10 ∉ x := by
  rw [multiline, List.any_eq_false] at h
  simpa using h x hx

/-- No needle has a byte of the text that replaces it. -/
def Foreign (R : Redactor) : Prop := ∀ x ∈ R.needles, ∀ b ∈ x, b ∉ redacted

instance : Decidable R.Foreign :=
  inferInstanceAs (Decidable (∀ x ∈ R.needles, ∀ b ∈ x, b ∉ redacted))

theorem marker_eq (h : R.Foreign) : R.marker = redacted := by
  rw [marker, if_neg]
  rw [contains_iff]
  rintro ⟨x, hx, hin⟩
  obtain ⟨b, r, rfl⟩ := List.exists_cons_of_ne_nil (R.nonempty x hx)
  exact h _ hx b List.mem_cons_self (hin.subset List.mem_cons_self)

/-- The first round of `redact` is its last. -/
theorem redact_eq (h : R.Foreign) (data : Bytes) :
    R.redact data = sub R.pattern redacted 0 data := by
  have hclean : R.contains (sub R.pattern redacted 0 data) = false := by
    rw [← Bool.not_eq_true, contains_iff]
    rintro ⟨x, hx, hin⟩
    exact not_infix_sub R.nonempty (by decide) hx (h x hx) hin
  unfold redact
  split_ifs with hempty
  · rw [List.isEmpty_iff] at hempty
    refine (sub_of_not_found ?_).symm
    rw [← Bool.not_eq_true, pattern, found_anyOf, hempty]
    simp
  · rw [redactLoop, marker_eq h]
    simp only [hclean, Bool.false_eq_true, if_false]

end Redactor

end Secrets
end Runner
end ComputeRelay
