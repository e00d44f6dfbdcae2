import Mathlib.Data.List.DropRight
import Mathlib.Tactic
import ComputeRelay.Lib.Civil

/-!
# Instants and their RFC 3339 texts

An instant is a number of nanoseconds since 1970-01-01T00:00:00Z.

* `formatNano` writes an instant in UTC with as many fractional digits as it needs, `format`
  without a fraction.
* `parse` reads a date, a time of day with an optional fraction and a zone, and refuses a date off
  the calendar.
* `parse_formatNano` is the round trip for the years 0 to 9999.
-/

namespace Rfc3339

open Civil

def second : ℤ := 1000000000
def minute : ℤ := 60 * second
def hour : ℤ := 60 * minute
def day : ℤ := 24 * hour

/-- The calendar year of an instant, in UTC. -/
def year (t : ℤ) : ℤ := (civilOfDay (t / day)).year

/-- An instant belongs to year `y` or a later one from midnight of January 1 of `y` on. -/
theorem le_year_iff (y t : ℤ) : y ≤ year t ↔ daysBeforeYear y * day ≤ t := by
  rw [year, civilOfDay_year, le_yearOfDay_iff]
  exact Int.le_ediv_iff_mul_le (by decide)

/-! ### Fixed-width numbers -/

/-- The last `w` decimal digits of `n`, most significant first. -/
def writeNum : ℕ → ℕ → List Char
  | 0, _ => []
  | w + 1, n => Nat.digitChar (n / 10 ^ w % 10) :: writeNum w n

def digitVal (c : Char) : Option ℕ :=
  if '0' ≤ c ∧ c ≤ '9' then some (c.toNat - '0'.toNat) else none

/-- Read `w` digits after the value `acc`. -/
def readNum : ℕ → ℕ → List Char → Option (ℕ × List Char)
  | 0, acc, cs => some (acc, cs)
  | _ + 1, _, [] => none
  | w + 1, acc, c :: cs => (digitVal c).bind fun d => readNum w (acc * 10 + d) cs

theorem digitVal_digitChar {d : ℕ} (h : d < 10) : digitVal (Nat.digitChar d) = some d := by
  interval_cases d <;> decide

theorem readNum_writeNum (w n acc : ℕ) (rest : List Char) :
    readNum w acc (writeNum w n ++ rest) = some (acc * 10 ^ w + n % 10 ^ w, rest) := by
  induction w generalizing acc with
  | zero => simp [readNum, writeNum, Nat.mod_one]
  | succ w ih =>
    have hd : n / 10 ^ w % 10 < 10 := Nat.mod_lt _ (by norm_num)
    simp only [writeNum, List.cons_append, readNum, digitVal_digitChar hd, Option.bind_some, ih,
      Nat.mod_pow_succ, Option.some.injEq, Prod.mk.injEq, and_true]
    ring

theorem readNum_writeNum_of_lt {w n : ℕ} (h : n < 10 ^ w) (rest : List Char) :
    readNum w 0 (writeNum w n ++ rest) = some (n, rest) := by
  rw [readNum_writeNum, Nat.mod_eq_of_lt h, zero_mul, zero_add]

theorem digitVal_isSome_of_mem_writeNum {w n : ℕ} {c : Char} (h : c ∈ writeNum w n) :
    (digitVal c).isSome := by
  induction w with
  | zero => simp [writeNum] at h
  | succ w ih =>
    rcases List.mem_cons.mp h with rfl | h
    · rw [digitVal_digitChar (Nat.mod_lt _ (by norm_num))]
      rfl
    · exact ih h

/-! ### Fractions of a second -/

/-- The value of a digit string as a fraction whose first digit weighs `s`. -/
def fraction : ℕ → List Char → ℕ
  | _, [] => 0
  | s, c :: cs => (digitVal c).getD 0 * s + fraction (s / 10) cs

theorem fraction_writeNum (w n : ℕ) :
    fraction (10 ^ w) (writeNum (w + 1) n) = n % 10 ^ (w + 1) := by
  induction w with
  | zero =>
    simp [writeNum, fraction, digitVal_digitChar (Nat.mod_lt n (by norm_num : 10 > 0))]
  | succ w ih =>
    have hd : n / 10 ^ (w + 1) % 10 < 10 := Nat.mod_lt _ (by norm_num)
    have hs : 10 ^ (w + 1) / 10 = 10 ^ w := by rw [pow_succ, Nat.mul_div_cancel _ (by norm_num)]
    rw [writeNum, fraction, digitVal_digitChar hd, Option.getD_some, hs, ih, Nat.mod_pow_succ,
      Nat.mod_pow_succ (k := w + 1), Nat.mod_pow_succ]
    ring

theorem fraction_concat_zero (s : ℕ) (cs : List Char) :
    fraction s (cs ++ ['0']) = fraction s cs := by
  induction cs generalizing s with
  | nil => simp [fraction, digitVal]
  | cons c cs ih => simp [fraction, ih]

/-- Trailing zeros of a fraction carry nothing. -/
theorem fraction_rdropWhile (s : ℕ) (cs : List Char) :
    fraction s (cs.rdropWhile (· = '0')) = fraction s cs := by
  induction cs using List.reverseRecOn with
  | nil => rfl
  | append_singleton cs c ih =>
    by_cases hc : c = '0'
    · rw [List.rdropWhile_concat_pos _ _ _ (by simpa using hc), ih, hc, fraction_concat_zero]
    · rw [List.rdropWhile_concat_neg _ _ _ (by simpa using hc)]

/-- A fraction written without trailing zeros, or nothing. -/
def writeFraction (ns : ℕ) : List Char :=
  match (writeNum 9 ns).rdropWhile (· = '0') with
  | [] => []
  | ds => '.' :: ds

/-- An optional fraction; digits beyond the ninth weigh nothing. -/
def readFraction : List Char → ℕ × List Char
  | c :: d :: cs =>
    if (c = '.' ∨ c = ',') ∧ (digitVal d).isSome then
      (fraction 100000000 ((d :: cs).takeWhile fun x => (digitVal x).isSome),
        (d :: cs).dropWhile fun x => (digitVal x).isSome)
    else (0, c :: d :: cs)
  | cs => (0, cs)

theorem readFraction_writeFraction {ns : ℕ} (h : ns < 1000000000) :
    readFraction (writeFraction ns ++ ['Z']) = (ns, ['Z']) := by
  have hval : fraction 100000000 ((writeNum 9 ns).rdropWhile (· = '0')) = ns := by
    rw [fraction_rdropWhile, show (100000000 : ℕ) = 10 ^ 8 by norm_num, fraction_writeNum,
      Nat.mod_eq_of_lt (by simpa using h)]
  have hdig : ∀ c ∈ (writeNum 9 ns).rdropWhile (· = '0'), (digitVal c).isSome := fun c hc =>
    digitVal_isSome_of_mem_writeNum ((List.rdropWhile_prefix _ _).subset hc)
  unfold writeFraction
  cases hds : (writeNum 9 ns).rdropWhile (· = '0') with
  | nil =>
    rw [hds] at hval
    simpa [readFraction, fraction, eq_comm] using hval
  | cons d ds =>
    rw [hds] at hval hdig
    have hd := hdig d (List.mem_cons_self ..)
    have hz : (digitVal 'Z').isSome = false := by decide
    have htake : (d :: ds ++ ['Z']).takeWhile (fun x => (digitVal x).isSome) = d :: ds := by
      rw [List.takeWhile_append_of_pos hdig]
      simp [hz]
    have hdrop : (d :: ds ++ ['Z']).dropWhile (fun x => (digitVal x).isSome) = ['Z'] := by
      rw [List.dropWhile_append_of_pos hdig]
      simp [hz]
    simp only [List.cons_append] at htake hdrop
    simp [readFraction, hd, htake, hdrop, hval]

/-! ### Whole texts -/

/-- The part of a text up to the whole second, in UTC. -/
def writeSecond (t : ℤ) : List Char :=
  let c := civilOfDay (t / day)
  let n := (t % day / second).toNat
  writeNum 4 c.year.toNat ++ '-' :: (writeNum 2 c.month ++ '-' :: (writeNum 2 c.day ++ 'T' ::
    (writeNum 2 (n / 3600) ++ ':' :: (writeNum 2 (n / 60 % 60) ++ ':' :: writeNum 2 (n % 60)))))

def formatNano (t : ℤ) : String :=
  String.ofList (writeSecond t ++ (writeFraction (t % second).toNat ++ ['Z']))

def format (t : ℤ) : String := String.ofList (writeSecond t ++ ['Z'])

/-- The next character must be `c`. -/
def expect (c : Char) : List Char → Option (List Char)
  | [] => none
  | d :: cs => if d = c then some cs else none

@[simp] theorem expect_cons (c : Char) (cs : List Char) : expect c (c :: cs) = some cs := by
  simp [expect]

/-- A zone is `Z` or a signed offset, in seconds east of UTC, and ends the text. -/
def readZone : List Char → Option ℤ
  | ['Z'] => some 0
  | c :: cs => do
    let (h, cs) ← readNum 2 0 cs
    let cs ← expect ':' cs
    let (m, cs) ← readNum 2 0 cs
    if cs = [] ∧ h ≤ 24 ∧ m ≤ 60 then
      if c = '+' then some (h * 3600 + m * 60)
      else if c = '-' then some (-(h * 3600 + m * 60))
      else none
    else none
  | [] => none

/-- The instant of a date and a time of day, refused when either is off its range. -/
def assemble (c : Date) (hh mm ss ns : ℕ) (zone : ℤ) : Option ℤ :=
  if c.Proper ∧ hh < 24 ∧ mm < 60 ∧ ss < 60 then
    some ((dayOfCivil c * 86400 + (hh * 3600 + mm * 60 + ss) - zone) * second + ns)
  else none

def parseChars (cs : List Char) : Option ℤ := do
  let (y, cs) ← readNum 4 0 cs
  let cs ← expect '-' cs
  let (mo, cs) ← readNum 2 0 cs
  let cs ← expect '-' cs
  let (d, cs) ← readNum 2 0 cs
  let cs ← expect 'T' cs
  let (hh, cs) ← readNum 2 0 cs
  let cs ← expect ':' cs
  let (mm, cs) ← readNum 2 0 cs
  let cs ← expect ':' cs
  let (ss, cs) ← readNum 2 0 cs
  let zone ← readZone (readFraction cs).2
  assemble ⟨y, mo, d⟩ hh mm ss (readFraction cs).1 zone

def parse (s : String) : Option ℤ := parseChars s.toList

/-- The time of day and the day number make up the instant. -/
theorem assemble_civilOfDay (t : ℤ) :
    assemble (civilOfDay (t / day)) ((t % day / second).toNat / 3600)
      ((t % day / second).toNat / 60 % 60) ((t % day / second).toNat % 60)
      (t % second).toNat 0 = some t := by
  have hn : 0 ≤ t % day / second ∧ t % day / second < 86400 := by
    unfold day hour minute second
    omega
  have hsec : 0 ≤ t % second := Int.emod_nonneg _ (by decide)
  have ht : t = t / day * 86400 * second + t % day / second * second + t % second := by
    unfold day hour minute second
    omega
  rw [assemble, if_pos ⟨civilOfDay_proper _, by omega, by omega, by omega⟩, dayOfCivil_civilOfDay]
  generalize t / day = d at *
  generalize t % day / second = n at *
  obtain ⟨k, rfl⟩ := Int.eq_ofNat_of_zero_le hn.1
  have hk : ((k / 3600 : ℕ) : ℤ) * 3600 + ((k / 60 % 60 : ℕ) : ℤ) * 60 +
      ((k % 60 : ℕ) : ℤ) = k := by
    omega
  simp only [Int.toNat_natCast, Int.toNat_of_nonneg hsec, hk, Option.some.injEq]
  linarith [ht]

/-- **Round trip**: an instant of the years 0 to 9999 is read back from its text. -/
theorem parse_formatNano {t : ℤ} (h0 : 0 ≤ year t) (h1 : year t ≤ 9999) :
    parse (formatNano t) = some t := by
  obtain ⟨hm1, hm12, hd1, hdn⟩ := civilOfDay_proper (t / day)
  have hd31 := daysIn_le (leap (civilOfDay (t / day)).year) (m := (civilOfDay (t / day)).month)
    (by omega)
  have hy : (civilOfDay (t / day)).year.toNat < 10 ^ 4 := by
    unfold year at h0 h1
    omega
  have hn : (t % day / second).toNat < 86400 := by
    unfold day hour minute second
    omega
  have hns : (t % second).toNat < 1000000000 := by
    unfold second
    omega
  have hyear : (((civilOfDay (t / day)).year.toNat : ℕ) : ℤ) = (civilOfDay (t / day)).year :=
    Int.toNat_of_nonneg h0
  simp only [parse, formatNano, String.toList_ofList, parseChars, writeSecond, List.append_assoc,
    List.cons_append]
  rw [readNum_writeNum_of_lt hy]
  simp only [bind, Option.bind_some, expect_cons]
  rw [readNum_writeNum_of_lt (by omega)]
  simp only [Option.bind_some, expect_cons]
  rw [readNum_writeNum_of_lt (by omega)]
  simp only [Option.bind_some, expect_cons]
  rw [readNum_writeNum_of_lt (by omega)]
  simp only [Option.bind_some, expect_cons]
  rw [readNum_writeNum_of_lt (by omega)]
  simp only [Option.bind_some, expect_cons]
  rw [readNum_writeNum_of_lt (by omega)]
  simp only [Option.bind_some, readFraction_writeFraction hns, readZone, hyear]
  exact assemble_civilOfDay t

end Rfc3339
