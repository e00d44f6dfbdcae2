import Mathlib.Tactic
import ComputeRelay.Lib.Text

/-!
# JSON documents and their compact texts

A document is a tree of integers, texts, arrays and objects. `write` is its text without white
space, for an encoder that writes each character of a string as `esc` says; `escapeHTML`,
`escapePlain` and `escapeASCII` are such choices. `values` and `depth` are what a reader with a
budget counts.
-/

inductive Json
  | null
  | bool (b : Bool)
  | int (n : ℤ)
  | str (s : String)
  | arr (items : List Json)
  | obj (members : List (String × Json))

namespace Json

/-! ### Texts -/

def hexDigit (n : ℕ) : Char := Nat.digitChar (n % 16)

/-- `\uXXXX` for a number below `2 ^ 16`. -/
def escapeUnit (n : ℕ) : List Char :=
  ['\\', 'u', hexDigit (n / 4096), hexDigit (n / 256), hexDigit (n / 16), hexDigit n]

/-- The two-character escapes that both encoders share. -/
def shortEscape : Char → Option (List Char)
  | '"' => some ['\\', '"']
  | '\\' => some ['\\', '\\']
  | '\x08' => some ['\\', 'b']
  | '\x0c' => some ['\\', 'f']
  | '\n' => some ['\\', 'n']
  | '\r' => some ['\\', 'r']
  | '\t' => some ['\\', 't']
  | _ => none

/-- Control characters, the characters of HTML tags and the two line separators are escaped. -/
def escapeHTML (c : Char) : List Char :=
  match shortEscape c with
  | some text => text
  | none =>
    if c.toNat < 32 || c = '<' || c = '>' || c = '&' || c.toNat = 0x2028 || c.toNat = 0x2029 then
      escapeUnit c.toNat
    else [c]

/-- Control characters and the two line separators are escaped. -/
def escapePlain (c : Char) : List Char :=
  match shortEscape c with
  | some text => text
  | none =>
    if c.toNat < 32 || c.toNat = 0x2028 || c.toNat = 0x2029 then escapeUnit c.toNat else [c]

/-- Everything but printable ASCII is escaped, characters beyond the basic plane as a surrogate
pair. -/
def escapeASCII (c : Char) : List Char :=
  match shortEscape c with
  | some text => text
  | none =>
    if 32 ≤ c.toNat && c.toNat < 127 then [c]
    else if c.toNat < 65536 then escapeUnit c.toNat
    else escapeUnit (0xD800 + (c.toNat - 65536) / 1024) ++
      escapeUnit (0xDC00 + (c.toNat - 65536) % 1024)

variable (esc : Char → List Char)

def quote (s : String) : List Char := '"' :: (s.toList.flatMap esc ++ ['"'])

/-- The texts with commas between them. -/
def commas : List (List Char) → List Char
  | [] => []
  | [t] => t
  | t :: u :: rest => t ++ ',' :: commas (u :: rest)

mutual

def write : Json → List Char
  | null => ['n', 'u', 'l', 'l']
  | bool true => ['t', 'r', 'u', 'e']
  | bool false => ['f', 'a', 'l', 's', 'e']
  | int n => (toString n).toList
  | str s => quote esc s
  | arr items => '[' :: (commas (writeItems items) ++ [']'])
  | obj members => '{' :: (commas (writeMembers members) ++ ['}'])

def writeItems : List Json → List (List Char)
  | [] => []
  | j :: rest => write j :: writeItems rest

def writeMembers : List (String × Json) → List (List Char)
  | [] => []
  | (k, j) :: rest => (quote esc k ++ ':' :: write j) :: writeMembers rest

end

/-- The text in UTF-8. -/
def marshal (j : Json) : String := String.ofList (write esc j)

theorem writeItems_eq (items : List Json) : writeItems esc items = items.map (write esc) := by
  induction items with
  | nil => rfl
  | cons j rest ih => rw [writeItems, ih, List.map_cons]

theorem writeMembers_eq (members : List (String × Json)) :
    writeMembers esc members = members.map fun m => quote esc m.1 ++ ':' :: write esc m.2 := by
  induction members with
  | nil => rfl
  | cons m rest ih => rw [writeMembers, ih, List.map_cons]

/-! ### Sizes -/

/-- The bytes of a document's text. -/
def size (j : Json) : ℕ := Text.size (write esc j)

theorem utf8ByteSize_marshal (j : Json) : (marshal esc j).utf8ByteSize = size esc j :=
  Text.utf8ByteSize_ofList _

theorem size_commas (ts : List (List Char)) :
    Text.size (commas ts) = (ts.map Text.size).sum + (ts.length - 1) := by
  induction ts with
  | nil => rfl
  | cons t ts ih =>
    cases ts with
    | nil => simp [commas]
    | cons u rest =>
      rw [commas, Text.size_append, Text.size_cons, ih]
      simp only [List.map_cons, List.sum_cons, List.length_cons,
        show Char.utf8Size ',' = 1 from rfl]
      omega

theorem size_arr (items : List Json) :
    size esc (arr items) = 2 + (items.map (size esc)).sum + (items.length - 1) := by
  rw [size, write, Text.size_cons, Text.size_append, size_commas, writeItems_eq, List.map_map,
    List.length_map]
  change 1 + ((items.map (size esc)).sum + (items.length - 1) + 1) = _
  omega

theorem size_obj (members : List (String × Json)) :
    size esc (obj members) =
      2 + (members.map fun m => Text.size (quote esc m.1) + 1 + size esc m.2).sum +
        (members.length - 1) := by
  have hmember : ∀ m : String × Json,
      Text.size (quote esc m.1 ++ ':' :: write esc m.2) =
        Text.size (quote esc m.1) + 1 + size esc m.2 := by
    intro m
    rw [Text.size_append, Text.size_cons, ← add_assoc]
    rfl
  rw [size, write, Text.size_cons, Text.size_append, size_commas, writeMembers_eq, List.map_map,
    List.length_map]
  simp only [Function.comp_def, hmember, show Char.utf8Size '\x7b' = 1 from rfl,
    show Text.size ['\x7d'] = 1 from rfl]
  omega

/-! ### Budgets -/

mutual

/-- How many values a document holds, itself included. Member names are not values. -/
def values : Json → ℕ
  | null => 1
  | bool _ => 1
  | int _ => 1
  | str _ => 1
  | arr items => 1 + valuesItems items
  | obj members => 1 + valuesMembers members

def valuesItems : List Json → ℕ
  | [] => 0
  | j :: rest => values j + valuesItems rest

def valuesMembers : List (String × Json) → ℕ
  | [] => 0
  | (_, j) :: rest => values j + valuesMembers rest

end

mutual

/-- How deep the values of a document are nested; a document without a parent has depth 0. -/
def depth : Json → ℕ
  | null => 0
  | bool _ => 0
  | int _ => 0
  | str _ => 0
  | arr items => depthItems items
  | obj members => depthMembers members

/-- The depth of the items, seen from the array that holds them. -/
def depthItems : List Json → ℕ
  | [] => 0
  | j :: rest => max (depth j + 1) (depthItems rest)

def depthMembers : List (String × Json) → ℕ
  | [] => 0
  | (_, j) :: rest => max (depth j + 1) (depthMembers rest)

end

theorem valuesMembers_le {ms ns : List (String × Json)} (h : ms.Sublist ns) :
    valuesMembers ms ≤ valuesMembers ns := by
  induction h with
  | slnil => exact le_refl _
  | cons m _ ih => exact ih.trans (Nat.le_add_left _ _)
  | cons_cons m _ ih => exact Nat.add_le_add_left ih _

theorem depthMembers_le {ms ns : List (String × Json)} (h : ms.Sublist ns) :
    depthMembers ms ≤ depthMembers ns := by
  induction h with
  | slnil => exact le_refl _
  | cons m _ ih => exact ih.trans (le_max_right _ _)
  | cons_cons m _ ih => exact max_le_max_left _ ih

theorem depthItems_le {items : List Json} {n : ℕ} (h : ∀ j ∈ items, depth j ≤ n) :
    depthItems items ≤ n + 1 := by
  induction items with
  | nil => exact Nat.zero_le _
  | cons j rest ih =>
    rw [depthItems]
    exact max_le (Nat.succ_le_succ (h j (List.mem_cons_self ..)))
      (ih fun i hi => h i (List.mem_cons_of_mem _ hi))

/-! ### Members and texts -/

def asBool : Json → Option Bool
  | bool b => some b
  | _ => none

def asInt : Json → Option ℤ
  | int n => some n
  | _ => none

def asStr : Json → Option String
  | str s => some s
  | _ => none

def asArr : Json → Option (List Json)
  | arr items => some items
  | _ => none

/-- The value of a member. -/
def field (name : String) : Json → Option Json
  | obj members => members.lookup name
  | _ => none

/-- The members of a dictionary: of several under one name, the last. -/
def merge {β : Type*} : List (String × β) → List (String × β)
  | [] => []
  | m :: rest => if rest.any (fun n => n.1 = m.1) then merge rest else m :: merge rest

section Merge

variable {β γ : Type*}

theorem merge_sublist (l : List (String × β)) : (merge l).Sublist l := by
  induction l with
  | nil => exact .slnil
  | cons m rest ih =>
    rw [merge]
    split_ifs
    · exact ih.cons m
    · exact ih.cons_cons m

theorem merge_of_nodup {l : List (String × β)} (h : (l.map (·.1)).Nodup) : merge l = l := by
  induction l with
  | nil => rfl
  | cons m rest ih =>
    rw [List.map_cons, List.nodup_cons] at h
    have hnone : (rest.any fun n => n.1 = m.1) = false := by
      rw [List.any_eq_false]
      intro n hn heq
      exact h.1 (List.mem_map.mpr ⟨n, hn, of_decide_eq_true heq⟩)
    rw [merge, hnone, ih h.2]
    rfl

theorem merge_map (g : β → γ) (l : List (String × β)) :
    merge (l.map fun m => (m.1, g m.2)) = (merge l).map fun m => (m.1, g m.2) := by
  induction l with
  | nil => rfl
  | cons m rest ih =>
    have hany : ((rest.map fun m => (m.1, g m.2)).any fun n => n.1 = m.1) =
        rest.any fun n => n.1 = m.1 := by
      rw [List.any_map]
      rfl
    rw [List.map_cons, merge, merge, hany, ih]
    split_ifs <;> rfl

end Merge

mutual

/-- Change every text of a document. Members whose names become the same become one. -/
def mapText (f : String → String) : Json → Json
  | null => null
  | bool b => bool b
  | int n => int n
  | str s => str (f s)
  | arr items => arr (mapItems f items)
  | obj members => obj (merge (mapMembers f members))

def mapItems (f : String → String) : List Json → List Json
  | [] => []
  | j :: rest => mapText f j :: mapItems f rest

def mapMembers (f : String → String) : List (String × Json) → List (String × Json)
  | [] => []
  | (k, j) :: rest => (f k, mapText f j) :: mapMembers f rest

end

mutual

theorem values_mapText (f : String → String) : ∀ j, values (mapText f j) ≤ values j
  | null => le_rfl
  | bool _ => le_rfl
  | int _ => le_rfl
  | str _ => le_rfl
  | arr items => by
    rw [mapText, values, values]
    exact Nat.add_le_add_left (valuesItems_mapItems f items) 1
  | obj members => by
    rw [mapText, values, values]
    exact Nat.add_le_add_left
      ((valuesMembers_le (merge_sublist _)).trans (valuesMembers_mapMembers f members)) 1

theorem valuesItems_mapItems (f : String → String) :
    ∀ items, valuesItems (mapItems f items) ≤ valuesItems items
  | [] => le_rfl
  | j :: rest => by
    rw [mapItems, valuesItems, valuesItems]
    exact Nat.add_le_add (values_mapText f j) (valuesItems_mapItems f rest)

theorem valuesMembers_mapMembers (f : String → String) :
    ∀ members, valuesMembers (mapMembers f members) ≤ valuesMembers members
  | [] => le_rfl
  | (_, j) :: rest => by
    rw [mapMembers, valuesMembers, valuesMembers]
    exact Nat.add_le_add (values_mapText f j) (valuesMembers_mapMembers f rest)

end

mutual

theorem depth_mapText (f : String → String) : ∀ j, depth (mapText f j) ≤ depth j
  | null => le_rfl
  | bool _ => le_rfl
  | int _ => le_rfl
  | str _ => le_rfl
  | arr items => by
    rw [mapText, depth, depth]
    exact depthItems_mapItems f items
  | obj members => by
    rw [mapText, depth, depth]
    exact (depthMembers_le (merge_sublist _)).trans (depthMembers_mapMembers f members)

theorem depthItems_mapItems (f : String → String) :
    ∀ items, depthItems (mapItems f items) ≤ depthItems items
  | [] => le_rfl
  | j :: rest => by
    rw [mapItems, depthItems, depthItems]
    exact max_le_max (Nat.succ_le_succ (depth_mapText f j)) (depthItems_mapItems f rest)

theorem depthMembers_mapMembers (f : String → String) :
    ∀ members, depthMembers (mapMembers f members) ≤ depthMembers members
  | [] => le_rfl
  | (_, j) :: rest => by
    rw [mapMembers, depthMembers, depthMembers]
    exact max_le_max (Nat.succ_le_succ (depth_mapText f j)) (depthMembers_mapMembers f rest)

end

theorem mapItems_eq (f : String → String) (items : List Json) :
    mapItems f items = items.map (mapText f) := by
  induction items with
  | nil => rfl
  | cons j rest ih => rw [mapItems, ih, List.map_cons]

theorem mapMembers_eq (f : String → String) (members : List (String × Json)) :
    mapMembers f members = members.map fun m => (f m.1, mapText f m.2) := by
  induction members with
  | nil => rfl
  | cons m rest ih => rw [mapMembers, ih, List.map_cons]

/-- Where the member names stay as they are, members are found as before. -/
theorem field_mapText {f : String → String} {members : List (String × Json)}
    (h : ∀ m ∈ members, f m.1 = m.1) (hnodup : (members.map (·.1)).Nodup) (name : String) :
    (mapText f (obj members)).field name = ((obj members).field name).map (mapText f) := by
  have hnames : (mapMembers f members).map (·.1) = members.map (·.1) := by
    rw [mapMembers_eq, List.map_map]
    exact List.map_congr_left h
  rw [mapText, field, field, merge_of_nodup (hnames ▸ hnodup)]
  clear hnames hnodup
  induction members with
  | nil => rfl
  | cons m rest ih =>
    obtain ⟨k, j⟩ := m
    have hk : f k = k := h (k, j) (List.mem_cons_self ..)
    rw [mapMembers, hk, List.lookup_cons, List.lookup_cons]
    split
    · rfl
    · exact ih fun m hm => h m (List.mem_cons_of_mem _ hm)

/-- The bytes of an array, from those of its items. -/
def arraySize (items : List ℕ) : ℕ := 2 + items.sum + (items.length - 1)

/-- The bytes of an object, from the names and the bytes of its members: of several under one name,
the last one is written. -/
def objectSize (members : List (String × ℕ)) : ℕ :=
  2 + ((merge members).map fun m => Text.size (quote esc m.1) + 1 + m.2).sum +
    ((merge members).length - 1)

theorem objectSize_of_nodup {members : List (String × ℕ)} (h : (members.map (·.1)).Nodup) :
    objectSize esc members = 2 +
      (members.map fun m => Text.size (quote esc m.1) + 1 + m.2).sum + (members.length - 1) := by
  rw [objectSize, merge_of_nodup h]

theorem size_mapText_arr (f : String → String) (items : List Json) :
    size esc (mapText f (arr items)) =
      arraySize (items.map fun j => size esc (mapText f j)) := by
  rw [mapText, mapItems_eq, size_arr, arraySize, List.map_map, List.length_map, List.length_map]
  rfl

theorem size_mapText_obj (f : String → String) (members : List (String × Json)) :
    size esc (mapText f (obj members)) =
      objectSize esc (members.map fun m => (f m.1, size esc (mapText f m.2))) := by
  have hmerge : merge (members.map fun m => (f m.1, size esc (mapText f m.2))) =
      (merge (mapMembers f members)).map fun m => (m.1, size esc m.2) := by
    rw [← merge_map, mapMembers_eq, List.map_map]
    rfl
  rw [mapText, size_obj, objectSize, hmerge, List.map_map, List.length_map]
  rfl

end Json
