import Mathlib.Tactic
import ComputeRelay.Lib.Json

/-!
# Layouts of JSON texts

`dump` is the text with a space after every comma and colon. A `Layout` is a writer together with
the laws that its sizes obey, so that the bytes of a document are added up once for all writers;
`compact` and `spaced` are two of them.
-/

namespace Json

section Spaced

variable (esc : Char → List Char)

/-- A space before every text but the first. -/
def lead : List (List Char) → List (List Char)
  | [] => []
  | t :: rest => t :: rest.map (' ' :: ·)

mutual

/-- The text with a space after every comma and colon. -/
def dump : Json → List Char
  | arr items => '[' :: (commas (lead (dumpItems items)) ++ [']'])
  | obj members => '{' :: (commas (lead (dumpMembers members)) ++ ['}'])
  | null => write esc null
  | bool b => write esc (bool b)
  | int n => write esc (int n)
  | str s => write esc (str s)

def dumpItems : List Json → List (List Char)
  | [] => []
  | j :: rest => dump j :: dumpItems rest

def dumpMembers : List (String × Json) → List (List Char)
  | [] => []
  | (k, j) :: rest => (quote esc k ++ ':' :: ' ' :: dump j) :: dumpMembers rest

end

theorem dumpItems_eq (items : List Json) : dumpItems esc items = items.map (dump esc) := by
  induction items with
  | nil => rfl
  | cons j rest ih => rw [dumpItems, ih, List.map_cons]

theorem dumpMembers_eq (members : List (String × Json)) :
    dumpMembers esc members = members.map fun m => quote esc m.1 ++ ':' :: ' ' :: dump esc m.2 := by
  induction members with
  | nil => rfl
  | cons m rest ih => rw [dumpMembers, ih, List.map_cons]

theorem size_lead (ts : List (List Char)) :
    Text.size (commas (lead ts)) = (ts.map Text.size).sum + (ts.length - 1) * 2 := by
  rw [size_commas]
  cases ts with
  | nil => rfl
  | cons t rest =>
    have hsum : ((rest.map (' ' :: ·)).map Text.size).sum = (rest.map Text.size).sum +
        rest.length := by
      induction rest with
      | nil => rfl
      | cons u rest ih =>
        simp only [List.map_cons, List.sum_cons, List.length_cons, ih, Text.size_cons,
          show Char.utf8Size ' ' = 1 from rfl]
        omega
    simp only [lead, List.map_cons, List.sum_cons, List.length_cons, List.length_map, hsum]
    omega

end Spaced

/-! ### Layouts -/

/-- Printable ASCII that no writer escapes. -/
def plainChar (c : Char) : Bool :=
  32 ≤ c.toNat && c.toNat < 127 && !(['"', '\\', '<', '>', '&'].contains c)

/-- What the size of a text depends on: how characters are escaped, and how many bytes of white
space follow a comma or a colon. -/
structure Layout where
  escape : Char → List Char
  gap : ℕ
  text : Json → List Char
  escape_plain : ∀ c, plainChar c = true → escape c = [c]
  text_str : ∀ s, text (str s) = quote escape s
  size_arr : ∀ items, Text.size (text (arr items)) =
    2 + (items.map fun j => Text.size (text j)).sum + (items.length - 1) * (1 + gap)
  size_obj : ∀ members, Text.size (text (obj members)) =
    2 + (members.map fun m => Text.size (quote escape m.1) + (1 + gap) + Text.size (text m.2)).sum +
      (members.length - 1) * (1 + gap)

theorem shortEscape_plain {c : Char} (h : plainChar c = true) : shortEscape c = none := by
  unfold shortEscape
  split <;> first | rfl | cases h

/-- Without white space, for a reader of HTML. -/
def Layout.compact : Layout where
  escape := escapeHTML
  gap := 0
  text := write escapeHTML
  escape_plain c h := by
    have hshort := shortEscape_plain h
    simp only [plainChar, Bool.and_eq_true, decide_eq_true_eq, Bool.not_eq_true',
      List.contains_eq_mem,
      decide_eq_false_iff_not, List.mem_cons, List.not_mem_nil, or_false, not_or] at h
    obtain ⟨⟨hlow, hhigh⟩, -, -, hlt, hgt, hamp⟩ := h
    rw [escapeHTML, hshort]
    simp only [hlt, hgt, hamp, decide_false, Bool.or_false]
    rw [if_neg]
    simp only [Bool.or_eq_true, decide_eq_true_eq]
    omega
  text_str _ := by rw [write]
  size_arr items := by
    rw [add_zero, mul_one]
    exact Json.size_arr escapeHTML items
  size_obj members := by
    rw [add_zero, mul_one]
    exact Json.size_obj escapeHTML members

/-- With white space, in ASCII. -/
def Layout.spaced : Layout where
  escape := escapeASCII
  gap := 1
  text := dump escapeASCII
  escape_plain c h := by
    have hshort := shortEscape_plain h
    rw [plainChar, Bool.and_eq_true] at h
    rw [escapeASCII, hshort]
    exact if_pos h.1
  text_str _ := by rw [dump, write]
  size_arr items := by
    rw [dump, Text.size_cons, Text.size_append, size_lead, dumpItems_eq, List.map_map,
      List.length_map]
    change 1 + ((items.map fun j => Text.size (dump escapeASCII j)).sum +
      (items.length - 1) * 2 + 1) = _
    omega
  size_obj members := by
    have hmember : ∀ m : String × Json,
        Text.size (quote escapeASCII m.1 ++ ':' :: ' ' :: dump escapeASCII m.2) =
          Text.size (quote escapeASCII m.1) + (1 + 1) + Text.size (dump escapeASCII m.2) := by
      intro m
      rw [Text.size_append, Text.size_cons, Text.size_cons, add_assoc, add_assoc]
      rfl
    rw [dump, Text.size_cons, Text.size_append, size_lead, dumpMembers_eq, List.map_map,
      List.length_map]
    simp only [Function.comp_def, hmember, show Char.utf8Size '\x7b' = 1 from rfl,
      show Text.size ['\x7d'] = 1 from rfl]
    omega

namespace Layout

variable (L : Layout)

/-- The bytes of a document. -/
def size (j : Json) : ℕ := Text.size (L.text j)

/-- The bytes of a quoted text. -/
def quoted (s : String) : ℕ := Text.size (quote L.escape s)

theorem size_str (s : String) : L.size (str s) = L.quoted s := by rw [size, text_str, quoted]

theorem size_items (items : List Json) :
    L.size (arr items) = 2 + (items.map L.size).sum + (items.length - 1) * (1 + L.gap) :=
  L.size_arr items

theorem size_members (members : List (String × Json)) :
    L.size (obj members) = 2 + (members.map fun m => L.quoted m.1 + (1 + L.gap) + L.size m.2).sum +
      (members.length - 1) * (1 + L.gap) :=
  L.size_obj members

/-- A text that no writer escapes takes its length and the quotation marks. -/
theorem quoted_plain {s : String} {n : ℕ} (h : s.toList.all plainChar = true)
    (hn : s.toList.length + 2 = n) : L.quoted s = n := by
  have hsize : Text.size (s.toList.flatMap L.escape) = s.toList.length := by
    generalize s.toList = cs at h
    induction cs with
    | nil => rfl
    | cons c cs ih =>
      rw [List.all_cons, Bool.and_eq_true] at h
      have hone : c.utf8Size = 1 := by
        have hc := h.1
        simp only [plainChar, Bool.and_eq_true, decide_eq_true_eq] at hc
        exact Char.utf8Size_eq_one_iff.mpr (UInt32.le_iff_toNat_le.mpr (by
          change c.toNat ≤ 127
          omega))
      rw [List.flatMap_cons, L.escape_plain c h.1, Text.size_append, ih h.2, List.length_cons,
        Text.size_cons, Text.size_nil, hone]
      omega
  rw [quoted, quote, Text.size_cons, Text.size_append, hsize, ← hn]
  change 1 + (s.toList.length + 1) = _
  omega

end Layout

end Json
