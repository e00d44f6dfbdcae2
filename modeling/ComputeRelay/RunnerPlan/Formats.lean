import Mathlib.Tactic
import ComputeRelay.Lib.JsonText
import ComputeRelay.Packaging.Inspect

/-!
# The formats of a bundle

The relay and the runner decode gzip, tar and JSON with the libraries of two languages. `Agree` says
that they give the same answers on well-formed data, and nothing about other data: `archive/tar`
skips the NUL bytes before a number of a header, and `tarfile` ends the number at the first of them.

The second half reads the three formats as far as a bundle of the relay needs them: USTAR headers
with the numbers as either side reads them, gzip members of stored blocks, and JSON in ASCII.
-/

namespace ComputeRelay
namespace RunnerPlan

open Packaging

/-- Which data are well formed. -/
structure Formats where
  gzip : List UInt8 → Bool
  tar : List UInt8 → Bool
  json : List UInt8 → Bool

/-- The decoders, on well-formed data only. -/
def only (wf : Formats) (d : Decoders) : Decoders where
  gunzip b := if wf.gzip b then d.gunzip b else none
  tar b := if wf.tar b then d.tar b else none
  json b := if wf.json b then d.json b else none
  tar_regular h hflag := by
    rw [Option.ite_none_right_eq_some] at h
    exact d.tar_regular h.2 hflag

/-- The decoders of the runner answer as those of the relay, on well-formed data. -/
structure Agree (wf : Formats) (d e : Decoders) : Prop where
  gunzip : ∀ {b}, wf.gzip b = true → e.gunzip b = d.gunzip b
  tar : ∀ {b}, wf.tar b = true → e.tar b = d.tar b
  json : ∀ {b}, wf.json b = true → e.json b = d.json b

/-! ### Numbers of a header -/

def octalDigit (b : UInt8) : Bool := 48 ≤ b && b ≤ 55

def octalValue (digits : List UInt8) : ℤ :=
  digits.foldl (fun n b => 8 * n + ((b.toNat : ℤ) - 48)) 0

def octalDigits (digits : List UInt8) : Option ℤ :=
  if digits.all octalDigit then some (octalValue digits) else none

def terminator (b : UInt8) : Bool := b = 0 || b = 32

/-- A number of a USTAR header: octal digits, and NUL bytes or spaces behind them. -/
def octal (field : List UInt8) : Option ℤ :=
  let digits := field.takeWhile octalDigit
  let rest := field.dropWhile octalDigit
  if digits ≠ [] && rest ≠ [] && rest.all terminator then some (octalValue digits) else none

/-- `parseOctal` of `archive/tar`: NUL bytes and spaces are cut off at both ends, the rest ends at a
NUL byte. -/
def trimmedOctal (field : List UInt8) : Option ℤ :=
  octalDigits (((field.dropWhile terminator).rdropWhile terminator).takeWhile (· ≠ 0))

/-- `nti` of `tarfile`, on unsigned numbers: the field ends at a NUL byte, spaces are stripped. -/
def strippedOctal (field : List UInt8) : Option ℤ :=
  octalDigits (((field.takeWhile (· ≠ 0)).dropWhile (· = 32)).rdropWhile (· = 32))

/-- The mode 0644 behind a NUL byte. -/
example : trimmedOctal [0, 48, 48, 48, 54, 52, 52, 0] = some 0o644 ∧
    strippedOctal [0, 48, 48, 48, 54, 52, 52, 0] = some 0 ∧
    octal [0, 48, 48, 48, 54, 52, 52, 0] = none := by
  decide

section Octal

variable {field : List UInt8} {n : ℤ}

theorem octalDigit_ne {b : UInt8} (h : octalDigit b = true) : b ≠ 0 ∧ b ≠ 32 := by
  constructor <;> rintro rfl <;> cases h

/-- Nothing is cut off before digits, and what follows them is. -/
theorem trim_digits {p : UInt8 → Bool} {digits : List UInt8} (hne : digits ≠ [])
    (hdigits : ∀ b ∈ digits, p b = false) {rest : List UInt8} (hrest : ∀ b ∈ rest, p b = true) :
    ((digits ++ rest).dropWhile p).rdropWhile p = digits := by
  have hfront : ∀ tail, (digits ++ tail).dropWhile p = digits ++ tail := by
    intro tail
    obtain ⟨d, ds, rfl⟩ := List.exists_cons_of_ne_nil hne
    rw [List.cons_append, List.dropWhile_cons_of_neg (by simp [hdigits d List.mem_cons_self])]
  rw [hfront]
  -- what follows the digits is cut off from its end
  induction rest using List.reverseRecOn with
  | nil =>
    rw [List.append_nil]
    exact List.rdropWhile_eq_self_iff.mpr fun h => by simp [hdigits _ (List.getLast_mem h)]
  | append_singleton rest b ih =>
    rw [← List.append_assoc, List.rdropWhile_concat_pos _ _ _ (hrest b (by simp))]
    exact ih fun c hc => hrest c (by simp [hc])

theorem octal_eq_some (h : octal field = some n) : ∃ digits rest, field = digits ++ rest ∧
    digits ≠ [] ∧ (∀ b ∈ digits, octalDigit b = true) ∧ (∀ b ∈ rest, terminator b = true) ∧
    octalDigits digits = some n := by
  simp only [octal, Option.ite_none_right_eq_some, Bool.and_eq_true, decide_eq_true_eq,
    List.all_eq_true] at h
  obtain ⟨⟨⟨hne, -⟩, hrest⟩, hn⟩ := h
  have hdigits : ∀ b ∈ field.takeWhile octalDigit, octalDigit b = true := fun b hb =>
    List.mem_takeWhile_imp hb
  refine ⟨_, _, List.takeWhile_append_dropWhile.symm, hne, hdigits, hrest, ?_⟩
  rw [octalDigits, if_pos (List.all_eq_true.mpr hdigits), hn]

theorem trimmedOctal_of_octal (h : octal field = some n) : trimmedOctal field = some n := by
  obtain ⟨digits, rest, rfl, hne, hdigits, hrest, hn⟩ := octal_eq_some h
  have htrim := trim_digits (p := terminator) hne
    (fun b hb => by simp [terminator, octalDigit_ne (hdigits b hb)]) hrest
  have htake : digits.takeWhile (· ≠ 0) = digits :=
    List.takeWhile_eq_self_iff.mpr fun b hb => by simp [(octalDigit_ne (hdigits b hb)).1]
  rw [trimmedOctal, htrim, htake, hn]

theorem strippedOctal_of_octal (h : octal field = some n) : strippedOctal field = some n := by
  obtain ⟨digits, rest, rfl, hne, hdigits, hrest, hn⟩ := octal_eq_some h
  have htake : (digits ++ rest).takeWhile (· ≠ 0) = digits ++ rest.takeWhile (· ≠ 0) :=
    List.takeWhile_append_of_pos fun b hb => by simp [(octalDigit_ne (hdigits b hb)).1]
  -- what is left behind the digits are spaces
  have hspaces : ∀ b ∈ rest.takeWhile (· ≠ 0), decide (b = 32) = true := fun b hb => by
    have hzero := List.mem_takeWhile_imp hb
    have hend := hrest b ((List.takeWhile_sublist _).mem hb)
    simp_all [terminator]
  rw [strippedOctal, htake, trim_digits hne
    (fun b hb => by simp [(octalDigit_ne (hdigits b hb)).2]) hspaces, hn]

end Octal

/-! ### Headers, members and texts -/

/-- A text of a header: printable ASCII, filled up with NUL bytes. -/
def headerText (field : List UInt8) : Option String :=
  let text := field.takeWhile (· ≠ 0)
  if text.all (fun b => 32 ≤ b && b < 127) && allZero (field.drop text.length) then
    some (String.ofList (text.map fun b => Char.ofNat b.toNat))
  else none

/-- The checksum of a header counts its own field as spaces. -/
def headerSum (block : List UInt8) : ℤ :=
  ((block.take 148 ++ List.replicate 8 32 ++ block.drop 156).map UInt8.toNat).sum

/-- A USTAR header, for a reader of numbers. -/
def readHeader (number : List UInt8 → Option ℤ) (block : List UInt8) : Option TarHeader := do
  let field (start length : ℕ) := (block.drop start).take length
  let name ← headerText (field 0 100)
  let mode ← number (field 100 8)
  let uid ← number (field 108 8)
  let gid ← number (field 116 8)
  let size ← number (field 124 12)
  let _ ← number (field 136 12)
  let sum ← number (field 148 8)
  let typeflag ← block[156]?
  let linkname ← headerText (field 157 100)
  let uname ← headerText (field 265 32)
  let gname ← headerText (field 297 32)
  let lead ← headerText (field 345 155)
  if sum = headerSum block then
    some
      { name := if lead = "" then name else lead ++ "/" ++ name
        mode, uid, gid, size, typeflag, linkname, uname, gname
        ustar := (block.drop 257).take 6 = ustarMagic }
  else none

theorem readHeader_typeflag {number : List UInt8 → Option ℤ} {block : List UInt8} {h : TarHeader}
    (hread : readHeader number block = some h) : block[156]? = some h.typeflag := by
  simp only [readHeader, bind, Option.bind_eq_some_iff, Option.ite_none_right_eq_some,
    Option.some.injEq] at hread
  obtain ⟨-, -, -, -, -, -, -, -, -, -, -, -, -, -, flag, hflag, -, -, -, -, -, -, -, -, -, rfl⟩ :=
    hread
  exact hflag

/-- Readers of numbers that agree give the same header. -/
theorem readHeader_mono {p q : List UInt8 → Option ℤ} (hpq : ∀ f n, p f = some n → q f = some n)
    {block : List UInt8} {h : TarHeader} (hread : readHeader p block = some h) :
    readHeader q block = some h := by
  simp only [readHeader, bind, Option.bind_eq_some_iff] at hread ⊢
  obtain ⟨name, hname, mode, hmode, uid, huid, gid, hgid, size, hsize, mtime, hmtime, sum, hsum,
    rest⟩ := hread
  exact ⟨name, hname, mode, hpq _ _ hmode, uid, hpq _ _ huid, gid, hpq _ _ hgid, size,
    hpq _ _ hsize, mtime, hpq _ _ hmtime, sum, hpq _ _ hsum, rest⟩

/-- A bound on the register makes its value known at every step. -/
def crcBits : ℕ → ℕ → ℕ
  | 0, c => c
  | n + 1, c =>
    if c < 2 ^ 32 then crcBits n (if c % 2 = 1 then (c / 2) ^^^ 0xEDB88320 else c / 2) else 0

def crcBytes : List UInt8 → ℕ → ℕ
  | [], c => c
  | b :: rest, c => if c < 2 ^ 32 then crcBytes rest (crcBits 8 (c ^^^ b.toNat)) else 0

/-- CRC-32. -/
def crc32 (data : List UInt8) : ℕ := crcBytes data (2 ^ 32 - 1) ^^^ (2 ^ 32 - 1)

def littleEndian : ℕ → ℕ → List UInt8
  | 0, _ => []
  | w + 1, n => UInt8.ofNat (n % 256) :: littleEndian w (n / 256)

/-- Stored blocks, up to the last one, and the bytes behind it. -/
def inflateStored : ℕ → List UInt8 → Option (List UInt8 × List UInt8)
  | fuel + 1, last :: l₀ :: l₁ :: n₀ :: n₁ :: rest =>
    let length := l₀.toNat + 256 * l₁.toNat
    if 1 < last ∨ littleEndian 2 (65535 - length) ≠ [n₀, n₁] ∨ rest.length < length then none
    else if last = 1 then some (rest.take length, rest.drop length)
    else (inflateStored fuel (rest.drop length)).map fun p => (rest.take length ++ p.1, p.2)
  | _, _ => none

/-- A gzip member without optional fields, and the bytes behind it. -/
def gunzipStored (data : List UInt8) : Option (List UInt8 × List UInt8) := do
  let (contents, rest) ← inflateStored data.length (data.drop 10)
  if data.take 4 = [31, 139, 8, 0] ∧
      rest.take 8 = littleEndian 4 (crc32 contents) ++ littleEndian 4 contents.length then
    some (contents, rest.drop 8)
  else none

def readJSON (data : List UInt8) : Option Json :=
  if data.all (· < 128) then Json.read (data.map fun b => Char.ofNat b.toNat) else none

/-! ### The two sides -/

/-- Decoders with the given reader of numbers. -/
def decoders (number : List UInt8 → Option ℤ) : Decoders where
  gunzip := gunzipStored
  tar := readHeader number
  json := readJSON
  tar_regular h hflag := Option.some.inj ((readHeader_typeflag h).symm.trans hflag)

def wellFormed : Formats where
  gzip b := (gunzipStored b).isSome
  tar b := (readHeader octal b).isSome
  json b := (readJSON b).isSome

/-- Both sides read well-formed numbers alike. -/
theorem agree_decoders : Agree wellFormed (decoders trimmedOctal) (decoders strippedOctal) where
  gunzip _ := rfl
  tar {b} h := by
    obtain ⟨header, hheader⟩ := Option.isSome_iff_exists.mp h
    exact (readHeader_mono (fun _ _ => strippedOctal_of_octal) hheader).trans
      (readHeader_mono (fun _ _ => trimmedOctal_of_octal) hheader).symm
  json _ := rfl

end RunnerPlan
end ComputeRelay
