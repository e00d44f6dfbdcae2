import Mathlib.Data.List.DropRight
import Mathlib.Tactic

/-!
# Texts as byte strings

Sizes and character classes are taken over the UTF-8 bytes of a text, as byte-oriented code does.

* `bytes` and `allBytes` look at a text byte by byte.
* `trimSpace` cuts white space at both ends and `blank` says that nothing is left.
* `size` counts the bytes of characters; where all bytes are ASCII, bytes and characters are the
  same (`bytes_eq_map`, `allBytes_eq`).
-/

namespace Text

def bytes (s : String) : List UInt8 := s.toByteArray.data.toList

def allBytes (p : UInt8 → Bool) (s : String) : Bool := (bytes s).all p

/-- An ASCII letter. -/
def letter (b : UInt8) : Bool := (97 ≤ b && b ≤ 122) || (65 ≤ b && b ≤ 90)

/-- A lowercase ASCII letter. -/
def lower (b : UInt8) : Bool := 97 ≤ b && b ≤ 122

/-- An ASCII digit. -/
def digit (b : UInt8) : Bool := 48 ≤ b && b ≤ 57

/-- Neither a control character nor DEL; a byte of a longer sequence is neither. -/
def printable (b : UInt8) : Bool := 32 ≤ b && b ≠ 127

/-- The word stands somewhere in the characters. -/
def occursIn (word cs : List Char) : Bool := cs.tails.any word.isPrefixOf

/-- Unicode white space. -/
def isSpace (c : Char) : Bool :=
  let n := c.toNat
  (9 ≤ n && n ≤ 13) || n = 32 || n = 133 || n = 160 || n = 5760 || (8192 ≤ n && n ≤ 8202) ||
    n = 8232 || n = 8233 || n = 8239 || n = 8287 || n = 12288

/-- A visible ASCII character. -/
def graphic (b : UInt8) : Bool := 33 ≤ b && b ≤ 126

/-- A text between visible ASCII characters is not touched. -/
def trimSpace (s : String) : String :=
  if (bytes s).head?.any graphic && (bytes s).getLast?.any graphic then s
  else String.ofList ((s.toList.dropWhile isSpace).rdropWhile isSpace)

/-- Nothing is left after trimming. -/
def blank (s : String) : Bool := !(bytes s).head?.any graphic && s.toList.all isSpace

/-- No encoding of a white space character starts with a visible ASCII character. -/
theorem graphic_head_utf8EncodeChar {c : Char} (h : isSpace c = true) :
    (String.utf8EncodeChar c).head?.any graphic = false := by
  have hn : c.val.toNat = c.toNat := rfl
  simp only [isSpace, Bool.or_eq_true, Bool.and_eq_true, decide_eq_true_eq] at h
  simp only [String.utf8EncodeChar, hn]
  split_ifs <;>
    simp only [List.head?_cons, Option.any_some, graphic, Bool.and_eq_false_iff,
      decide_eq_false_iff_not, UInt8.le_iff_toNat_le, UInt8.toNat_ofNat] <;>
    simp <;> omega

theorem bytes_ofList_cons (c : Char) (cs : List Char) :
    bytes (String.ofList (c :: cs)) = String.utf8EncodeChar c ++ bytes (String.ofList cs) := by
  simp [bytes, List.utf8Encode_singleton]

theorem bytes_ofList_append (cs ds : List Char) :
    bytes (String.ofList (cs ++ ds)) = bytes (String.ofList cs) ++ bytes (String.ofList ds) := by
  simp [bytes]

theorem bytes_append (s t : String) : bytes (s ++ t) = bytes s ++ bytes t := by
  unfold bytes
  rw [String.toByteArray_append, ByteArray.data_append, Array.toList_append]

/-- The first byte decides only what all characters confirm. -/
theorem blank_eq (s : String) : blank s = s.toList.all isSpace := by
  cases h : s.toList.all isSpace with
  | false => simp [blank, h]
  | true =>
    have hhead : (bytes s).head?.any graphic = false := by
      rw [← String.ofList_toList (s := s)]
      cases hs : s.toList with
      | nil => rfl
      | cons c cs =>
        rw [hs, List.all_cons, Bool.and_eq_true] at h
        have hc := graphic_head_utf8EncodeChar h.1
        rw [bytes_ofList_cons, List.head?_append_of_ne_nil _ (String.utf8EncodeChar_ne_nil)]
        exact hc
    simp [blank, h, hhead]

theorem trimSpace_eq_empty_iff (s : String) : trimSpace s = "" ↔ blank s = true := by
  unfold trimSpace
  split_ifs with hends
  · rw [Bool.and_eq_true] at hends
    refine iff_of_false ?_ (by simp [blank, hends.1])
    rintro rfl
    cases hends.1
  have hempty : String.ofList ((s.toList.dropWhile isSpace).rdropWhile isSpace) = "" ↔
      (s.toList.dropWhile isSpace).rdropWhile isSpace = [] := by
    rw [← String.toList_inj]
    simp
  rw [hempty, List.rdropWhile_eq_nil_iff, blank_eq, List.all_eq_true]
  constructor
  · intro h c hc
    -- a character is cut at the front or kept by the first cut
    rw [← List.takeWhile_append_dropWhile (p := isSpace) (l := s.toList), List.mem_append] at hc
    rcases hc with hc | hc
    · exact List.mem_takeWhile_imp hc
    · exact h c hc
  · intro h c hc
    exact h c ((List.dropWhile_suffix _).subset hc)

theorem blank_trimSpace (s : String) : blank (trimSpace s) = blank s := by
  rw [Bool.eq_iff_iff]
  constructor
  · intro h
    rw [← trimSpace_eq_empty_iff]
    by_contra hne
    unfold trimSpace at h hne
    split_ifs at h hne with hends
    · rw [Bool.and_eq_true] at hends
      simp [blank, hends.1] at h
    have hlist : (s.toList.dropWhile isSpace).rdropWhile isSpace ≠ [] := fun h0 =>
      hne (by rw [h0])
    have hall : ∀ c ∈ (s.toList.dropWhile isSpace).rdropWhile isSpace, isSpace c = true := by
      simpa [blank_eq] using h
    exact List.rdropWhile_last_not _ _ hlist (hall _ (List.getLast_mem hlist))
  · intro h
    rw [(trimSpace_eq_empty_iff s).mpr h]
    rfl

/-! ### Sizes -/

/-- The bytes that characters take in UTF-8. -/
def size (cs : List Char) : ℕ := (cs.map Char.utf8Size).sum

@[simp] theorem size_nil : size [] = 0 := rfl

@[simp] theorem size_cons (c : Char) (cs : List Char) : size (c :: cs) = c.utf8Size + size cs :=
  List.sum_cons

@[simp] theorem size_append (cs ds : List Char) : size (cs ++ ds) = size cs + size ds := by
  simp [size]

theorem length_bytes (s : String) : (bytes s).length = s.utf8ByteSize := rfl

theorem utf8ByteSize_ofList (cs : List Char) : (String.ofList cs).utf8ByteSize = size cs := by
  induction cs with
  | nil => rfl
  | cons c cs ih =>
    rw [← length_bytes, bytes_ofList_cons, List.length_append, length_bytes, ih, size_cons,
      String.length_utf8EncodeChar]

theorem utf8ByteSize_eq (s : String) : s.utf8ByteSize = size s.toList := by
  rw [← utf8ByteSize_ofList, String.ofList_toList]

/-! ### ASCII -/

/-- The byte of an ASCII character. -/
def byte (c : Char) : UInt8 := c.toNat.toUInt8

theorem toNat_byte {c : Char} (h : c.toNat < 128) : (byte c).toNat = c.toNat :=
  Nat.mod_eq_of_lt (by omega)

theorem utf8EncodeChar_of_lt {c : Char} (h : c.toNat < 128) :
    String.utf8EncodeChar c = [byte c] := by
  have hn : c.val.toNat = c.toNat := rfl
  simp only [String.utf8EncodeChar, hn]
  rw [if_pos (by omega)]
  rfl

/-- The first byte of a character beyond ASCII has its high bit set. -/
theorem exists_mem_utf8EncodeChar {c : Char} (h : 128 ≤ c.toNat) :
    ∃ b ∈ String.utf8EncodeChar c, 128 ≤ b := by
  have hn : c.val.toNat = c.toNat := rfl
  simp only [String.utf8EncodeChar, hn]
  rw [if_neg (by omega)]
  split_ifs <;> refine ⟨_, List.mem_cons_self .., ?_⟩ <;>
    simp only [UInt8.le_iff_toNat_le, UInt8.toNat_ofNat] <;> simp <;> omega

/-- A text whose bytes are ASCII is a list of ASCII characters. -/
theorem toNat_lt_of_bytes {s : String} (h : ∀ b ∈ bytes s, b < 128) :
    ∀ c ∈ s.toList, c.toNat < 128 := by
  rw [← String.ofList_toList (s := s)] at h
  generalize s.toList = cs at h
  intro c hc
  induction cs with
  | nil => cases hc
  | cons d cs ih =>
    rw [bytes_ofList_cons] at h
    rcases List.mem_cons.mp hc with rfl | hc
    · by_contra hge
      obtain ⟨b, hb, hle⟩ := exists_mem_utf8EncodeChar (not_lt.mp hge)
      exact UInt8.not_lt.mpr hle (h b (List.mem_append_left _ hb))
    · exact ih (fun b hb => h b (List.mem_append_right _ hb)) hc

theorem bytes_eq_map {s : String} (h : ∀ c ∈ s.toList, c.toNat < 128) :
    bytes s = s.toList.map byte := by
  rw [← String.ofList_toList (s := s)]
  rw [String.toList_ofList]
  generalize s.toList = cs at h
  induction cs with
  | nil => rfl
  | cons c cs ih =>
    rw [bytes_ofList_cons, utf8EncodeChar_of_lt (h c (List.mem_cons_self ..)),
      ih fun d hd => h d (List.mem_cons_of_mem _ hd)]
    rfl

theorem utf8ByteSize_of_ascii {s : String} (h : ∀ c ∈ s.toList, c.toNat < 128) :
    s.utf8ByteSize = s.toList.length := by
  rw [← length_bytes, bytes_eq_map h, List.length_map]

/-- The character is an ASCII character of the class. -/
def ascii (p : UInt8 → Bool) (c : Char) : Bool := c.toNat < 128 && p (byte c)

theorem allBytes_eq {p : UInt8 → Bool} (hp : ∀ b, p b → b < 128) (s : String) :
    allBytes p s = s.toList.all (ascii p) := by
  rw [Bool.eq_iff_iff]
  constructor
  · intro h
    have hb : ∀ b ∈ bytes s, p b := by simpa [allBytes] using h
    have hc := toNat_lt_of_bytes fun b hmem => hp b (hb b hmem)
    rw [bytes_eq_map hc] at hb
    simp only [List.all_eq_true, ascii, Bool.and_eq_true, decide_eq_true_eq]
    exact fun c hmem => ⟨hc c hmem, hb _ (List.mem_map_of_mem hmem)⟩
  · intro h
    simp only [List.all_eq_true, ascii, Bool.and_eq_true, decide_eq_true_eq] at h
    rw [allBytes, bytes_eq_map fun c hmem => (h c hmem).1, List.all_map, List.all_eq_true]
    exact fun c hmem => (h c hmem).2

end Text
