import Mathlib.Tactic
import ComputeRelay.Lib.Json

/-!
# Reading JSON texts

`read` turns a text into a document, with the members of objects in the order of the text. Numbers
that are no integers and halves of surrogate pairs have no place in a document and are refused.

`read_write`: what an encoder writes is read back, for every encoder whose escapes can be undone
(`Spelling`). Its corollary `write_injective` says that such a text determines its document.
-/

namespace Json

/-! ### White space and hexadecimal digits -/

def space (c : Char) : Bool := c = ' ' || c = '\t' || c = '\n' || c = '\r'

def skip (cs : List Char) : List Char := cs.dropWhile space

theorem skip_of_not_space {c : Char} (h : space c = false) (cs : List Char) :
    skip (c :: cs) = c :: cs := by
  simp [skip, h]

/-- The value of a hexadecimal digit, given by its code. -/
def hexVal (n : ℕ) : Option ℕ :=
  if 48 ≤ n ∧ n ≤ 57 then some (n - 48)
  else if 97 ≤ n ∧ n ≤ 102 then some (n - 87)
  else if 65 ≤ n ∧ n ≤ 70 then some (n - 55)
  else none

/-- Four hexadecimal digits. -/
def hex4 (a b c d : ℕ) : Option ℕ :=
  match hexVal a, hexVal b, hexVal c, hexVal d with
  | some i, some j, some k, some l => some (i * 4096 + j * 256 + k * 16 + l)
  | _, _, _, _ => none

theorem hexVal_hexDigit (n : ℕ) : hexVal (hexDigit n).toNat = some (n % 16) := by
  have hlt : n % 16 < 16 := Nat.mod_lt _ (by norm_num)
  unfold hexDigit
  generalize n % 16 = d at hlt
  interval_cases d <;> rfl

/-! ### Strings -/

/-- A piece of a string: a character, or a unit of UTF-16 spelled `\uXXXX`. -/
inductive Piece
  | char (c : Char)
  | unit (n : ℕ)
  deriving DecidableEq

/-- The character behind a backslash, other than `u`. -/
def simpleEscape (c : Char) : Option Char :=
  if c = '"' then some '"'
  else if c = '\\' then some '\\'
  else if c = '/' then some '/'
  else if c = 'b' then some '\x08'
  else if c = 'f' then some '\x0c'
  else if c = 'n' then some '\n'
  else if c = 'r' then some '\r'
  else if c = 't' then some '\t'
  else none

/-- The pieces of a string, behind its opening quote, and the rest of the text. -/
def pieces : List Char → Option (List Piece × List Char)
  | [] => none
  | c :: rest =>
    if c = '"' then some ([], rest)
    else if c = '\\' then
      match rest with
      | [] => none
      | e :: rest =>
        if e = 'u' then
          match rest with
          | h₁ :: h₂ :: h₃ :: h₄ :: rest =>
            (hex4 h₁.toNat h₂.toNat h₃.toNat h₄.toNat).bind fun n =>
              (pieces rest).map fun p => (.unit n :: p.1, p.2)
          | _ => none
        else (simpleEscape e).bind fun c => (pieces rest).map fun p => (.char c :: p.1, p.2)
    else if c.toNat < 32 then none
    else (pieces rest).map fun p => (.char c :: p.1, p.2)

theorem pieces_quote (rest : List Char) : pieces ('"' :: rest) = some ([], rest) := by
  unfold pieces
  rfl

theorem pieces_unit {h₁ h₂ h₃ h₄ : Char} {n : ℕ} {rest : List Char} {p : List Piece × List Char}
    (h : hex4 h₁.toNat h₂.toNat h₃.toNat h₄.toNat = some n) (hp : pieces rest = some p) :
    pieces ('\\' :: 'u' :: h₁ :: h₂ :: h₃ :: h₄ :: rest) = some (.unit n :: p.1, p.2) := by
  unfold pieces
  simp [h, hp]

theorem pieces_escape {e c : Char} {rest : List Char} {p : List Piece × List Char}
    (h : simpleEscape e = some c) (hp : pieces rest = some p) :
    pieces ('\\' :: e :: rest) = some (.char c :: p.1, p.2) := by
  have hu : e ≠ 'u' := by
    rintro rfl
    cases h
  unfold pieces
  simp [h, hp, hu]

theorem pieces_char {c : Char} {rest : List Char} {p : List Piece × List Char} (hquote : c ≠ '"')
    (hslash : c ≠ '\\') (hctl : 32 ≤ c.toNat) (hp : pieces rest = some p) :
    pieces (c :: rest) = some (.char c :: p.1, p.2) := by
  conv_lhs => unfold pieces
  simp [hquote, hslash, not_lt.mpr hctl, hp]

/-- The first half of a surrogate pair. -/
def high (n : ℕ) : Bool := 0xD800 ≤ n && n ≤ 0xDBFF

/-- The second half of a surrogate pair. -/
def low (n : ℕ) : Bool := 0xDC00 ≤ n && n ≤ 0xDFFF

/-- The character of a surrogate pair. -/
def ofPair (n m : ℕ) : Char := Char.ofNat (0x10000 + (n - 0xD800) * 1024 + (m - 0xDC00))

/-- The characters that pieces spell; half a surrogate pair spells none. -/
def characters : List Piece → Option (List Char)
  | [] => some []
  | .char c :: rest => (characters rest).map (c :: ·)
  | .unit n :: rest =>
    if high n then
      match rest with
      | .unit m :: rest => if low m then (characters rest).map (ofPair n m :: ·) else none
      | _ => none
    else if low n then none
    else (characters rest).map (Char.ofNat n :: ·)

/-- A string, behind its opening quote, and the rest of the text. -/
def string (cs : List Char) : Option (String × List Char) :=
  (pieces cs).bind fun p => (characters p.1).map fun t => (String.ofList t, p.2)

/-! ### Numbers -/

/-- Digits, at least one; only the number 0 starts with the digit 0. What follows must not make the
number a fraction. -/
def natural (cs : List Char) : Option (ℕ × List Char) :=
  let digits := cs.takeWhile Char.isDigit
  let rest := cs.dropWhile Char.isDigit
  if digits = [] || (digits.head? = some '0' && 1 < digits.length) ||
      rest.head?.any (· ∈ ['.', 'e', 'E']) then none
  else some (Nat.ofDigitChars 10 digits 0, rest)

def number : List Char → Option (ℤ × List Char)
  | '-' :: rest => (natural rest).map fun p => (-p.1, p.2)
  | cs => (natural cs).map fun p => (p.1, p.2)

/-! ### Documents -/

/-- A character is at the start of a text, perhaps behind white space; the text behind it. -/
def punctuation (c : Char) (cs : List Char) : Option (List Char) :=
  match skip cs with
  | d :: rest => if d = c then some rest else none
  | [] => none

/-- A word and the text behind it. -/
def word (w : List Char) (j : Json) (cs : List Char) : Option (Json × List Char) :=
  if w.isPrefixOf cs then some (j, cs.drop w.length) else none

mutual

/-- One value, and the text behind it. -/
def readValue : ℕ → List Char → Option (Json × List Char)
  | 0, _ => none
  | n + 1, cs =>
    match skip cs with
    | [] => none
    | c :: rest =>
      if c = '"' then (string rest).map fun p => (.str p.1, p.2)
      else if c = '[' then
        match punctuation ']' rest with
        | some rest => some (.arr [], rest)
        | none => (readItems n rest).map fun p => (.arr p.1, p.2)
      else if c = '\x7b' then
        match punctuation '\x7d' rest with
        | some rest => some (.obj [], rest)
        | none => (readMembers n rest).map fun p => (.obj p.1, p.2)
      else if c = 'n' then word ['n', 'u', 'l', 'l'] .null (c :: rest)
      else if c = 't' then word ['t', 'r', 'u', 'e'] (.bool true) (c :: rest)
      else if c = 'f' then word ['f', 'a', 'l', 's', 'e'] (.bool false) (c :: rest)
      else (number (c :: rest)).map fun p => (.int p.1, p.2)

/-- The items of an array, at least one, and the text behind its bracket. -/
def readItems : ℕ → List Char → Option (List Json × List Char)
  | 0, _ => none
  | n + 1, cs =>
    (readValue n cs).bind fun v =>
      match punctuation ',' v.2, punctuation ']' v.2 with
      | some rest, _ => (readItems n rest).map fun p => (v.1 :: p.1, p.2)
      | none, some rest => some ([v.1], rest)
      | none, none => none

/-- The members of an object, at least one, and the text behind its brace. -/
def readMembers : ℕ → List Char → Option (List (String × Json) × List Char)
  | 0, _ => none
  | n + 1, cs =>
    (punctuation '"' cs).bind fun rest => (string rest).bind fun k =>
      (punctuation ':' k.2).bind fun rest => (readValue n rest).bind fun v =>
        match punctuation ',' v.2, punctuation '\x7d' v.2 with
        | some rest, _ => (readMembers n rest).map fun p => ((k.1, v.1) :: p.1, p.2)
        | none, some rest => some ([(k.1, v.1)], rest)
        | none, none => none

end

/-- A text that holds one value and white space. -/
def read (cs : List Char) : Option Json :=
  (readValue (2 * cs.length) cs).bind fun p => if skip p.2 = [] then some p.1 else none

/-! ### What an encoder writes -/

/-- How the escapes of an encoder are read back: each character is written as pieces that spell
it. -/
structure Spelling (esc : Char → List Char) where
  spell : Char → List Piece
  pieces_esc : ∀ c rest p, pieces rest = some p →
    pieces (esc c ++ rest) = some (spell c ++ p.1, p.2)
  characters_spell : ∀ c qs, characters (spell c ++ qs) = (characters qs).map (c :: ·)

theorem Spelling.string_quote {esc : Char → List Char} (S : Spelling esc) (s : String)
    (rest : List Char) : string (s.toList.flatMap esc ++ '"' :: rest) = some (s, rest) := by
  have hpieces : pieces (s.toList.flatMap esc ++ '"' :: rest) =
      some (s.toList.flatMap S.spell, rest) := by
    induction s.toList with
    | nil => exact pieces_quote rest
    | cons c cs ih => rw [List.flatMap_cons, List.append_assoc, S.pieces_esc _ _ _ ih,
        List.flatMap_cons]
  have hchars : characters (s.toList.flatMap S.spell) = some s.toList := by
    induction s.toList with
    | nil => rfl
    | cons c cs ih => rw [List.flatMap_cons, S.characters_spell, ih, Option.map_some]
  rw [string, hpieces, Option.bind_some, hchars, Option.map_some, String.ofList_toList]

/-- The mark behind a value: the end of the text, a comma or a closing bracket. -/
def Ends (rest : List Char) : Prop := rest.head?.all (· ∈ [',', ']', '\x7d']) = true

theorem toDigits_head {n : ℕ} (h : n ≠ 0) : (Nat.toDigits 10 n).head? ≠ some '0' := by
  induction n using Nat.strong_induction_on with
  | _ n ih =>
    by_cases hlt : n < 10
    · rw [Nat.toDigits_of_lt_base hlt]
      interval_cases n <;> simp_all
    · rw [Nat.toDigits_of_base_le (by norm_num) (by omega)]
      have hdiv : n / 10 ≠ 0 := by omega
      have := ih (n / 10) (by omega) hdiv
      cases hd : Nat.toDigits 10 (n / 10) with
      | nil => simp at hd
      | cons c cs => simpa [hd] using this

theorem natural_toDigits (k : ℕ) {rest : List Char} (h : Ends rest) :
    natural (Nat.toDigits 10 k ++ rest) = some (k, rest) := by
  have hend : rest.takeWhile Char.isDigit = [] ∧ rest.dropWhile Char.isDigit = rest ∧
      rest.head?.any (· ∈ ['.', 'e', 'E']) = false := by
    cases rest with
    | nil => exact ⟨rfl, rfl, rfl⟩
    | cons c cs =>
      simp only [Ends, List.head?_cons, Option.all_some, List.mem_cons, List.not_mem_nil, or_false,
        decide_eq_true_eq] at h
      rcases h with rfl | rfl | rfl <;> exact ⟨rfl, rfl, rfl⟩
  obtain ⟨htake, hdrop, hrest⟩ := hend
  have hall : ∀ c ∈ Nat.toDigits 10 k, c.isDigit = true := fun c hc =>
    Nat.isDigit_of_mem_toDigits (by norm_num) (by norm_num) hc
  have hzero : (Nat.toDigits 10 k).head? = some '0' → (Nat.toDigits 10 k).length ≤ 1 := by
    by_cases hk : k = 0
    · subst hk
      exact fun _ => le_rfl
    · exact fun h => absurd h (toDigits_head hk)
  have hvalue : Nat.ofDigitChars 10 (Nat.toDigits 10 k) 0 = k :=
    Nat.ofDigitChars_toDigits (by norm_num) (by norm_num)
  simp only [natural, List.takeWhile_append_of_pos hall, List.dropWhile_append_of_pos hall, htake,
    hdrop, hrest, List.append_nil, hvalue]
  simpa using hzero

/-- A digit, or the sign in front of one. -/
def Signed (c : Char) : Prop := c = '-' ∨ c.isDigit = true

theorem number_int (n : ℤ) : ∃ c cs, (toString n).toList = c :: cs ∧ Signed c ∧
    ∀ {rest : List Char}, Ends rest → number (c :: cs ++ rest) = some (n, rest) := by
  have hrepr : ∀ k : ℕ, (Nat.repr k).toList = Nat.toDigits 10 k := fun k => by
    rw [Nat.repr, String.toList_ofList]
  cases n with
  | ofNat k =>
    have htext : (toString (Int.ofNat k)).toList = Nat.toDigits 10 k := hrepr k
    cases hd : Nat.toDigits 10 k with
    | nil => simp at hd
    | cons c cs =>
      have hdigit : c.isDigit = true :=
        Nat.isDigit_of_mem_toDigits (b := 10) (n := k) (by norm_num) (by norm_num) (by simp [hd])
      refine ⟨c, cs, htext.trans hd, .inr hdigit, fun {rest} h => ?_⟩
      have hnumber : number (c :: cs ++ rest) =
          (natural (c :: cs ++ rest)).map fun p => (((p.1 : ℕ) : ℤ), p.2) := by
        rw [List.cons_append]
        unfold number
        split
        · rename_i heq
          rw [(List.cons_eq_cons.mp heq).1] at hdigit
          cases hdigit
        · rfl
      rw [hnumber, ← hd, natural_toDigits k h]
      rfl
  | negSucc k =>
    have htext : (toString (Int.negSucc k)).toList = '-' :: Nat.toDigits 10 (k + 1) := by
      show ("-" ++ Nat.repr (k + 1)).toList = _
      rw [String.toList_append, hrepr]
      rfl
    refine ⟨'-', _, htext, .inl rfl, fun {rest} h => ?_⟩
    show (natural (Nat.toDigits 10 (k + 1) ++ rest)).map _ = _
    rw [natural_toDigits (k + 1) h]
    rfl

/-! ### Reading what was written -/

theorem punctuation_cons {c : Char} (h : space c = false) (cs : List Char) :
    punctuation c (c :: cs) = some cs := by
  rw [punctuation, skip_of_not_space h]
  simp

theorem punctuation_cons_ne {c d : Char} (hd : space d = false) (hne : d ≠ c) (cs : List Char) :
    punctuation c (d :: cs) = none := by
  rw [punctuation, skip_of_not_space hd]
  simp [hne]

theorem punctuation_ne {c d : Char} {cs r : List Char} (hne : c ≠ d)
    (h : punctuation c cs = some r) : punctuation d cs = none := by
  unfold punctuation at h ⊢
  split at h
  · simp only [Option.ite_none_right_eq_some] at h
    rw [if_neg (h.1 ▸ hne)]
  · cases h

/-- A sign or digit starts nothing but a number. -/
theorem Signed.ne {c : Char} (h : Signed c) : space c = false ∧
    ∀ d ∈ ['"', '[', '\x7b', 'n', 't', 'f', ']', '\x7d'], c ≠ d := by
  constructor
  · simp only [space, Bool.or_eq_false_iff, decide_eq_false_iff_not]
    refine ⟨⟨⟨?_, ?_⟩, ?_⟩, ?_⟩ <;> rintro rfl <;> revert h <;> unfold Signed <;> decide
  · rintro d hd rfl
    simp only [List.mem_cons, List.not_mem_nil, or_false] at hd
    rcases hd with rfl | rfl | rfl | rfl | rfl | rfl | rfl | rfl <;> revert h <;> unfold Signed <;>
      decide

section Writing

variable {esc : Char → List Char}

/-- A text starts with a character that is neither white space nor a closing bracket. -/
def Starts (cs : List Char) : Prop :=
  ∃ c rest, cs = c :: rest ∧ space c = false ∧ c ≠ ']' ∧ c ≠ '\x7d'

theorem Starts.open {cs : List Char} (h : Starts cs) (ds : List Char) :
    punctuation ']' (cs ++ ds) = none := by
  obtain ⟨c, rest, rfl, hc, hne, -⟩ := h
  exact punctuation_cons_ne hc hne _

theorem starts_write (esc : Char → List Char) (j : Json) : Starts (write esc j) := by
  cases j with
  | null => exact ⟨'n', _, rfl, rfl, by decide, by decide⟩
  | bool b => cases b <;> exact ⟨_, _, rfl, rfl, by decide, by decide⟩
  | int n =>
    obtain ⟨c, cs, hcs, hc, -⟩ := number_int n
    exact ⟨c, cs, hcs, hc.ne.1, hc.ne.2 _ (by simp), hc.ne.2 _ (by simp)⟩
  | str s => exact ⟨'"', _, by rw [write]; rfl, rfl, by decide, by decide⟩
  | arr items => exact ⟨'[', _, by rw [write], rfl, by decide, by decide⟩
  | obj members => exact ⟨'\x7b', _, by rw [write], rfl, by decide, by decide⟩

theorem length_write_pos (esc : Char → List Char) (j : Json) : 0 < (write esc j).length := by
  obtain ⟨c, rest, hc, -⟩ := starts_write esc j
  rw [hc, List.length_cons]
  omega

mutual

/-- Twice the length of a text is enough fuel to read it. -/
theorem readValue_write (S : Spelling esc) : ∀ (j : Json) {rest : List Char} {n : ℕ}, Ends rest →
    2 * (write esc j).length ≤ n → readValue n (write esc j ++ rest) = some (j, rest)
  | null, rest, n + 1, _, _ => by
    simp [write, readValue, skip_of_not_space (show space 'n' = false from rfl), word]
  | bool true, rest, n + 1, _, _ => by
    simp [write, readValue, skip_of_not_space (show space 't' = false from rfl), word]
  | bool false, rest, n + 1, _, _ => by
    simp [write, readValue, skip_of_not_space (show space 'f' = false from rfl), word]
  | int k, rest, n + 1, h, _ => by
    obtain ⟨c, cs, hcs, hc, hread⟩ := number_int k
    -- the first character of a number starts nothing else
    have hne := hc.ne.2
    simp only [List.mem_cons, List.not_mem_nil, or_false, forall_eq_or_imp, forall_eq] at hne
    obtain ⟨h1, h2, h3, h4, h5, h6, -, -⟩ := hne
    have hnumber := hread h
    rw [List.cons_append] at hnumber
    simp only [write, hcs, List.cons_append, readValue, skip_of_not_space hc.ne.1, h1, h2, h3, h4,
      h5, h6, if_false, hnumber, Option.map_some]
  | str s, rest, n + 1, _, _ => by
    simp [write, quote, readValue, skip_of_not_space (show space '"' = false from rfl),
      S.string_quote]
  | arr [], rest, n + 1, _, _ => by
    simp [write, writeItems, commas, readValue, skip_of_not_space (show space '[' = false from rfl),
      punctuation_cons (show space ']' = false from rfl)]
  | arr (i :: is), rest, n + 1, _, hn => by
    rw [write, List.length_cons, List.length_append] at hn
    have hitems := readItems_write S (i :: is) (List.cons_ne_nil _ _) rest (n := n) (by omega)
    -- the list does not end where it begins
    have hopen : punctuation ']' (commas (writeItems esc (i :: is)) ++ ']' :: rest) = none := by
      cases is with
      | nil => exact (starts_write esc i).open _
      | cons i' is =>
        rw [writeItems, writeItems, commas, List.append_assoc]
        exact (starts_write esc i).open _
    simp [write, readValue, skip_of_not_space (show space '[' = false from rfl), hopen, hitems]
  | obj [], rest, n + 1, _, _ => by
    simp [write, writeMembers, commas, readValue,
      skip_of_not_space (show space '\x7b' = false from rfl),
      punctuation_cons (show space '\x7d' = false from rfl)]
  | obj ((k, j) :: ms), rest, n + 1, _, hn => by
    rw [write, List.length_cons, List.length_append] at hn
    have hmembers := readMembers_write S ((k, j) :: ms) (List.cons_ne_nil _ _) rest (n := n)
      (by omega)
    have hopen : punctuation '\x7d' (commas (writeMembers esc ((k, j) :: ms)) ++ '\x7d' :: rest) =
        none := by
      cases ms with
      | nil => exact punctuation_cons_ne rfl (by decide) _
      | cons m ms => exact punctuation_cons_ne rfl (by decide) _
    simp [write, readValue, skip_of_not_space (show space '\x7b' = false from rfl), hopen, hmembers]
  | j, _, 0, _, hn => by
    have := length_write_pos esc j
    omega

theorem readItems_write (S : Spelling esc) :
    ∀ (is : List Json), is ≠ [] → ∀ (rest : List Char) {n : ℕ},
    2 * (commas (writeItems esc is)).length + 1 ≤ n →
    readItems n (commas (writeItems esc is) ++ ']' :: rest) = some (is, rest)
  | [], h, _, _, _ => absurd rfl h
  | [i], _, rest, n + 1, hn => by
    have hv := readValue_write S i (show Ends (']' :: rest) from rfl) (n := n)
      (by simpa [writeItems, commas] using hn)
    have hclose := punctuation_cons (show space ']' = false from rfl) rest
    simp [writeItems, commas, readItems, hv, hclose,
      punctuation_ne (show ']' ≠ ',' by decide) hclose]
  | i :: i' :: is, _, rest, n + 1, hn => by
    have htext : commas (writeItems esc (i :: i' :: is)) =
        write esc i ++ ',' :: commas (writeItems esc (i' :: is)) := by
      rw [writeItems, writeItems, commas]
    have hpos := length_write_pos esc i
    rw [htext, List.length_append, List.length_cons] at hn
    have hv := readValue_write S i
      (show Ends (',' :: (commas (writeItems esc (i' :: is)) ++ ']' :: rest)) from rfl) (n := n)
      (by omega)
    have hi := readItems_write S (i' :: is) (List.cons_ne_nil _ _) rest (n := n) (by omega)
    rw [htext, List.append_assoc, List.cons_append, readItems, hv]
    simp [punctuation_cons (show space ',' = false from rfl), hi]

theorem readMembers_write (S : Spelling esc) : ∀ (ms : List (String × Json)), ms ≠ [] →
    ∀ (rest : List Char) {n : ℕ},
    2 * (commas (writeMembers esc ms)).length + 1 ≤ n →
    readMembers n (commas (writeMembers esc ms) ++ '\x7d' :: rest) = some (ms, rest)
  | [], h, _, _, _ => absurd rfl h
  | [(k, j)], _, rest, n + 1, hn => by
    have hv := readValue_write S j (show Ends ('\x7d' :: rest) from rfl) (n := n) (by
      simp only [writeMembers, commas, List.length_append, List.length_cons] at hn
      omega)
    have hclose := punctuation_cons (show space '\x7d' = false from rfl) rest
    simp [writeMembers, commas, quote, readMembers,
      punctuation_cons (show space '"' = false from rfl),
      punctuation_cons (show space ':' = false from rfl), S.string_quote, hv, hclose,
      punctuation_ne (show '\x7d' ≠ ',' by decide) hclose]
  | (k, j) :: (k', j') :: ms, _, rest, n + 1, hn => by
    have htext : commas (writeMembers esc ((k, j) :: (k', j') :: ms)) =
        quote esc k ++ ':' ::
          (write esc j ++ ',' :: commas (writeMembers esc ((k', j') :: ms))) := by
      rw [writeMembers, writeMembers, commas, List.append_assoc, List.cons_append]
    rw [htext, List.length_append, List.length_cons, List.length_append, List.length_cons] at hn
    have hv := readValue_write S j
      (show Ends (',' :: (commas (writeMembers esc ((k', j') :: ms)) ++ '\x7d' :: rest)) from rfl)
      (n := n) (by omega)
    have hm := readMembers_write S ((k', j') :: ms) (List.cons_ne_nil _ _) rest (n := n) (by omega)
    rw [htext]
    simp [quote, readMembers, punctuation_cons (show space '"' = false from rfl),
      punctuation_cons (show space ':' = false from rfl), S.string_quote, hv,
      punctuation_cons (show space ',' = false from rfl), hm]

end

/-- **What an encoder writes is read back.** -/
theorem read_write (S : Spelling esc) (j : Json) : read (write esc j) = some j := by
  have hread := readValue_write S j (show Ends [] from rfl) le_rfl
  rw [List.append_nil] at hread
  rw [read, hread]
  rfl

/-- **The text of a document determines it.** -/
theorem write_injective (S : Spelling esc) : Function.Injective (write esc) := by
  intro i j h
  have hi := read_write S i
  rw [h, read_write S j] at hi
  exact (Option.some.inj hi).symm

end Writing

/-! ### Encoders -/

theorem hex4_escapeUnit {n : ℕ} (h : n < 65536) :
    hex4 (hexDigit (n / 4096)).toNat (hexDigit (n / 256)).toNat (hexDigit (n / 16)).toNat
      (hexDigit n).toNat = some n := by
  simp only [hex4, hexVal_hexDigit]
  congr 1
  omega

theorem pieces_escapeUnit {n : ℕ} (h : n < 65536) {rest : List Char} {p : List Piece × List Char}
    (hp : pieces rest = some p) :
    pieces (escapeUnit n ++ rest) = some (.unit n :: p.1, p.2) :=
  pieces_unit (hex4_escapeUnit h) hp

theorem pieces_shortEscape {c : Char} {t rest : List Char} {p : List Piece × List Char}
    (h : shortEscape c = some t) (hp : pieces rest = some p) :
    pieces (t ++ rest) = some (.char c :: p.1, p.2) := by
  unfold shortEscape at h
  split at h <;> cases h
  all_goals exact pieces_escape rfl hp

/-- A character that is none of the short escapes is not a quote or a backslash. -/
theorem shortEscape_eq_none {c : Char} (h : shortEscape c = none) : c ≠ '"' ∧ c ≠ '\\' := by
  constructor <;> rintro rfl <;> cases h

/-- An ordinary unit of UTF-16 spells its character. -/
theorem unit_spells {c : Char} (h : c.toNat < 0xD800) (qs : List Piece) :
    characters (.unit c.toNat :: qs) = (characters qs).map (c :: ·) := by
  have hhigh : high c.toNat = false := by simp [high]; omega
  have hlow : low c.toNat = false := by simp [low]; omega
  conv_lhs => unfold characters
  simp [hhigh, hlow, Char.ofNat_toNat]

/-- An encoder that escapes some characters below the surrogates as units and writes the others as
they are. -/
def unitSpelling (escaped : Char → Bool) (hctl : ∀ c, escaped c = false → 32 ≤ c.toNat)
    (hunit : ∀ c, escaped c = true → c.toNat < 0xD800) (esc : Char → List Char)
    (hesc : ∀ c, esc c = match shortEscape c with
      | some t => t
      | none => if escaped c then escapeUnit c.toNat else [c]) : Spelling esc where
  spell c :=
    match shortEscape c with
    | some _ => [.char c]
    | none => if escaped c then [.unit c.toNat] else [.char c]
  pieces_esc c rest p hp := by
    rw [hesc]
    cases hs : shortEscape c with
    | some t => exact pieces_shortEscape hs hp
    | none =>
      cases he : escaped c with
      | true =>
        have := hunit c he
        exact pieces_escapeUnit (by omega) hp
      | false =>
        obtain ⟨hquote, hslash⟩ := shortEscape_eq_none hs
        exact pieces_char hquote hslash (hctl c he) hp
  characters_spell c qs := by
    cases hs : shortEscape c with
    | some t => rfl
    | none =>
      cases he : escaped c with
      | true => exact unit_spells (hunit c he) qs
      | false => rfl

def htmlEscaped (c : Char) : Bool :=
  c.toNat < 32 || c = '<' || c = '>' || c = '&' || c.toNat = 0x2028 || c.toNat = 0x2029

theorem htmlEscaped_eq_false {c : Char} (h : htmlEscaped c = false) : 32 ≤ c.toNat := by
  simp only [htmlEscaped, Bool.or_eq_false_iff, decide_eq_false_iff_not] at h
  omega

theorem htmlEscaped_eq_true {c : Char} (h : htmlEscaped c = true) : c.toNat < 0xD800 := by
  simp only [htmlEscaped, Bool.or_eq_true, decide_eq_true_eq] at h
  rcases h with ((((h | rfl) | rfl) | rfl) | h) | h
  · omega
  · decide
  · decide
  · decide
  · omega
  · omega

def htmlSpelling : Spelling escapeHTML :=
  unitSpelling htmlEscaped (fun _ => htmlEscaped_eq_false) (fun _ => htmlEscaped_eq_true) escapeHTML
    fun _ => rfl

def plainEscaped (c : Char) : Bool :=
  c.toNat < 32 || c.toNat = 0x2028 || c.toNat = 0x2029

theorem plainEscaped_eq_false {c : Char} (h : plainEscaped c = false) : 32 ≤ c.toNat := by
  simp only [plainEscaped, Bool.or_eq_false_iff, decide_eq_false_iff_not] at h
  omega

theorem plainEscaped_eq_true {c : Char} (h : plainEscaped c = true) : c.toNat < 0xD800 := by
  simp only [plainEscaped, Bool.or_eq_true, decide_eq_true_eq] at h
  omega

def plainSpelling : Spelling escapePlain :=
  unitSpelling plainEscaped (fun _ => plainEscaped_eq_false) (fun _ => plainEscaped_eq_true)
    escapePlain fun _ => rfl

end Json
