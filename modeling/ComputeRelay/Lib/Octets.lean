import Mathlib.Tactic
import ComputeRelay.Lib.Text

/-!
# Texts of any bytes

A text that came from elsewhere may be no UTF-8. `Octets.runes` reads its characters, with U+FFFD
for each byte that belongs to none, and `Octets.reread` is what is left of a text that goes through
an encoding of characters: the text itself exactly when it is UTF-8 (`Octets.utf8`), as all texts of
characters are (`utf8_ofString`).
-/

structure Octets where
  data : List UInt8
  deriving DecidableEq

namespace Octets

open Text

def ofString (s : String) : Octets := ⟨bytes s⟩

instance instCoeString : Coe String Octets := ⟨ofString⟩

def length (t : Octets) : ℕ := t.data.length

/-- The first character, when the bytes start with one. -/
def rune : List UInt8 → Option Char
  | [] => none
  | b :: rest =>
    if b < 128 then some (Char.ofNat b.toNat) else (b :: rest).toByteArray.utf8DecodeChar? 0

/-- The characters of that many bytes. -/
def runesOf : ℕ → List UInt8 → List Char
  | 0, _ => []
  | _, [] => []
  | n + 1, b :: rest =>
    match rune (b :: rest) with
    | some c => c :: runesOf n ((b :: rest).drop c.utf8Size)
    | none => '�' :: runesOf n rest

def runes (t : Octets) : List Char := runesOf t.length t.data

def text (t : Octets) : String := String.ofList t.runes

def reread (t : Octets) : Octets := ofString t.text

def utf8 (t : Octets) : Bool := t.reread = t

theorem utf8_iff {t : Octets} : t.utf8 = true ↔ t.reread = t := decide_eq_true_iff

theorem rune_utf8EncodeChar (c : Char) (rest : List UInt8) :
    rune (String.utf8EncodeChar c ++ rest) = some c := by
  rcases lt_or_ge c.toNat 128 with hc | hc
  · have hlt : byte c < 128 := by
      rw [UInt8.lt_iff_toNat_lt, toNat_byte hc]
      exact hc
    rw [utf8EncodeChar_of_lt hc, List.singleton_append, rune, if_pos hlt, toNat_byte hc,
      Char.ofNat_toNat]
  · obtain ⟨b, tail, htail⟩ := List.exists_cons_of_ne_nil (String.utf8EncodeChar_ne_nil (c := c))
    have hb : ¬ b < 128 := by
      have hn : c.val.toNat = c.toNat := rfl
      simp only [String.utf8EncodeChar, hn] at htail
      split_ifs at htail with h1
      · omega
      all_goals
        rw [List.cons.injEq] at htail
        rw [← htail.1, UInt8.lt_iff_toNat_lt, UInt8.toNat_ofNat]
        simp
        omega
    rw [htail, List.cons_append, rune, if_neg hb, ← List.cons_append, ← htail,
      List.toByteArray_append]
    exact ByteArray.utf8DecodeChar?_utf8EncodeChar_append

theorem runesOf_bytes : ∀ (cs : List Char) (n : ℕ), (bytes (String.ofList cs)).length ≤ n →
    runesOf n (bytes (String.ofList cs)) = cs
  | [], 0, _ => rfl
  | [], _ + 1, _ => rfl
  | c :: cs, n, h => by
    obtain ⟨b, tail, htail⟩ := List.exists_cons_of_ne_nil (String.utf8EncodeChar_ne_nil (c := c))
    have hlen : (String.utf8EncodeChar c).length = c.utf8Size := String.length_utf8EncodeChar c
    rw [bytes_ofList_cons] at h ⊢
    rw [List.length_append, htail, List.length_cons] at h
    obtain ⟨m, rfl⟩ : ∃ m, n = m + 1 := ⟨n - 1, by omega⟩
    have hrune := rune_utf8EncodeChar c (bytes (String.ofList cs))
    rw [htail, List.cons_append] at hrune ⊢
    simp only [runesOf, hrune]
    rw [← List.cons_append, ← htail, ← hlen, List.drop_left, runesOf_bytes cs m (by omega)]

/-- Texts of characters stay as they are. -/
theorem utf8_ofString (s : String) : (ofString s).utf8 = true := by
  rw [utf8_iff, reread, text, runes]
  have := runesOf_bytes s.toList (ofString s).length (by rw [String.ofList_toList]; rfl)
  rw [String.ofList_toList] at this
  rw [show (ofString s).data = bytes s from rfl, this, String.ofList_toList]

theorem utf8_reread (t : Octets) : t.reread.utf8 = true := utf8_ofString _

example : (Octets.mk [107, 255]).reread = ofString "k�" := by
  decide

end Octets
