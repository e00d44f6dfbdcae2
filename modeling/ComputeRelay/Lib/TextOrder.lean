import Mathlib.Data.Char
import Mathlib.Data.List.DropRight
import Mathlib.Tactic
import ComputeRelay.Lib.Rfc3339

/-!
# The order of RFC 3339 texts

How the texts of `formatNano` compare as texts. Up to the whole second all blocks have a fixed
width, so the texts compare like the instants. The fraction has no fixed width: its trailing zeros
are left out, and the `Z` that ends a text is greater than `.` and than every digit. So of two
instants of one second, of which one has a fraction that goes on where the other ends, the earlier
one has the greater text (`Clips`); `formatNano_lt_iff` says that this is the only exception.
-/

namespace Rfc3339

open Civil

/-! ### Blocks of one width -/

theorem append_lt_append_iff {a b x y : List Char} (h : a.length = b.length) :
    a ++ x < b ++ y ↔ a < b ∨ a = b ∧ x < y := by
  induction a generalizing b with
  | nil =>
    obtain rfl := List.eq_nil_of_length_eq_zero h.symm
    simp
  | cons c a ih =>
    cases b with
    | nil => cases h
    | cons d b =>
      rw [List.cons_append, List.cons_append, List.cons_lt_cons_iff, List.cons_lt_cons_iff,
        ih (Nat.succ.inj h), List.cons.injEq]
      tauto

@[simp] theorem length_writeNum (w n : ℕ) : (writeNum w n).length = w := by
  induction w with
  | zero => rfl
  | succ w ih => simp [writeNum, ih]

theorem digitChar_lt_iff {d e : ℕ} (hd : d < 10) (he : e < 10) :
    Nat.digitChar d < Nat.digitChar e ↔ d < e := by
  interval_cases d <;> interval_cases e <;> decide

theorem digitChar_inj {d e : ℕ} (hd : d < 10) (he : e < 10) :
    Nat.digitChar d = Nat.digitChar e ↔ d = e := by
  interval_cases d <;> interval_cases e <;> decide

theorem writeNum_eq_iff {w n m : ℕ} : writeNum w n = writeNum w m ↔ n % 10 ^ w = m % 10 ^ w := by
  constructor
  · intro h
    have hn := readNum_writeNum w n 0 []
    rw [h, readNum_writeNum] at hn
    simpa using hn.symm
  · intro h
    induction w with
    | zero => rfl
    | succ w ih =>
      rw [Nat.mod_pow_succ, Nat.mod_pow_succ] at h
      have hpos : 0 < 10 ^ w := by positivity
      have hmod : n % 10 ^ w = m % 10 ^ w := by
        have hm := congrArg (· % 10 ^ w) h
        simpa using hm
      have hdiv : n / 10 ^ w % 10 = m / 10 ^ w % 10 := by
        rw [hmod] at h
        exact Nat.eq_of_mul_eq_mul_left hpos (Nat.add_left_cancel h)
      rw [writeNum, writeNum, hdiv, ih hmod]

theorem writeNum_lt_iff {w n m : ℕ} : writeNum w n < writeNum w m ↔ n % 10 ^ w < m % 10 ^ w := by
  induction w with
  | zero => simp [writeNum, Nat.mod_one]
  | succ w ih =>
    have hn : n / 10 ^ w % 10 < 10 := Nat.mod_lt _ (by norm_num)
    have hm : m / 10 ^ w % 10 < 10 := Nat.mod_lt _ (by norm_num)
    have hnw : n % 10 ^ w < 10 ^ w := Nat.mod_lt _ (by positivity)
    have hmw : m % 10 ^ w < 10 ^ w := Nat.mod_lt _ (by positivity)
    rw [writeNum, writeNum, List.cons_lt_cons_iff, digitChar_lt_iff hn hm, digitChar_inj hn hm, ih,
      Nat.mod_pow_succ, Nat.mod_pow_succ]
    generalize n / 10 ^ w % 10 = a at *
    generalize m / 10 ^ w % 10 = b at *
    generalize n % 10 ^ w = x at *
    generalize m % 10 ^ w = y at *
    generalize 10 ^ w = p at *
    constructor
    · rintro (hab | ⟨rfl, hxy⟩)
      · nlinarith
      · omega
    · intro h
      rcases lt_trichotomy a b with hab | rfl | hab
      · exact .inl hab
      · exact .inr ⟨rfl, by omega⟩
      · nlinarith

theorem writeNum_append_lt {w n m : ℕ} {x y : List Char} (hn : n < 10 ^ w) (hm : m < 10 ^ w) :
    writeNum w n ++ x < writeNum w m ++ y ↔ n < m ∨ n = m ∧ x < y := by
  rw [append_lt_append_iff (by simp), writeNum_lt_iff, writeNum_eq_iff, Nat.mod_eq_of_lt hn,
    Nat.mod_eq_of_lt hm]

/-! ### Whole seconds -/

/-- A later position lies in a later span, or later in the same one. -/
theorem locate_lt (ls : List ℕ) {n m : ℕ} (h : n < m) :
    (locate ls n).1 < (locate ls m).1 ∨
      (locate ls n).1 = (locate ls m).1 ∧ (locate ls n).2 < (locate ls m).2 := by
  induction ls generalizing n m with
  | nil => exact .inr ⟨rfl, h⟩
  | cons l ls ih =>
    simp only [locate]
    split_ifs with hn hm hm
    · exact .inr ⟨rfl, h⟩
    · exact .inl (Nat.succ_pos _)
    · omega
    · rcases ih (show n - l < m - l by omega) with hlt | ⟨heq, hlt⟩
      · exact .inl (Nat.succ_lt_succ hlt)
      · exact .inr ⟨congrArg (· + 1) heq, hlt⟩

theorem civilOfDay_lt {z z' : ℤ} (h : z < z') :
    (civilOfDay z).year < (civilOfDay z').year ∨ (civilOfDay z).year = (civilOfDay z').year ∧
      ((civilOfDay z).month < (civilOfDay z').month ∨ (civilOfDay z).month = (civilOfDay z').month ∧
        (civilOfDay z).day < (civilOfDay z').day) := by
  have hmono : yearOfDay z ≤ yearOfDay z' := by
    rw [le_yearOfDay_iff]
    exact (daysBeforeYear_yearOfDay z).1.trans h.le
  rcases hmono.lt_or_eq with hlt | heq
  · exact .inl hlt
  · refine .inr ⟨heq, ?_⟩
    have hz := (daysBeforeYear_yearOfDay z).1
    have hpos : (z - daysBeforeYear (yearOfDay z)).toNat <
        (z' - daysBeforeYear (yearOfDay z)).toNat := by
      omega
    simp only [civilOfDay, ← heq]
    rcases locate_lt (monthLengths (leap (yearOfDay z))) hpos with hlt | ⟨hsame, hlt⟩
    · exact .inl (Nat.succ_lt_succ hlt)
    · exact .inr ⟨congrArg (· + 1) hsame, Nat.succ_lt_succ hlt⟩

theorem length_writeSecond (t : ℤ) : (writeSecond t).length = 19 := by
  simp [writeSecond]

/-- Up to the whole second the text is that of the second. -/
theorem writeSecond_congr {t u : ℤ} (h : t / second = u / second) :
    writeSecond t = writeSecond u := by
  have hday : t / day = u / day := by
    simp only [day, hour, minute, second] at h ⊢
    omega
  have htime : t % day / second = u % day / second := by
    simp only [day, hour, minute, second] at h ⊢
    omega
  rw [writeSecond, writeSecond, hday, htime]

theorem writeSecond_lt {t u : ℤ} (ht : 0 ≤ year t ∧ year t ≤ 9999) (hu : 0 ≤ year u ∧ year u ≤ 9999)
    (h : t / second < u / second) : writeSecond t < writeSecond u := by
  have hfit : ∀ v : ℤ, 0 ≤ year v ∧ year v ≤ 9999 → (civilOfDay (v / day)).year.toNat < 10 ^ 4 ∧
      (civilOfDay (v / day)).month < 10 ^ 2 ∧ (civilOfDay (v / day)).day < 10 ^ 2 ∧
      (v % day / second).toNat < 86400 := by
    intro v hv
    obtain ⟨hm1, hm12, -, hdn⟩ := civilOfDay_proper (v / day)
    have hd31 :=
      daysIn_le (leap (civilOfDay (v / day)).year) (m := (civilOfDay (v / day)).month) (by omega)
    refine ⟨?_, by omega, by omega, ?_⟩
    · unfold year at hv
      omega
    · unfold day hour minute second
      omega
  obtain ⟨hty, htm, htd, htn⟩ := hfit t ht
  obtain ⟨huy, hum, hud, hun⟩ := hfit u hu
  simp only [writeSecond]
  rw [writeNum_append_lt hty huy, List.cons_lt_cons_iff, writeNum_append_lt htm hum,
    List.cons_lt_cons_iff, writeNum_append_lt htd hud, List.cons_lt_cons_iff,
    writeNum_append_lt (by omega) (by omega), List.cons_lt_cons_iff,
    writeNum_append_lt (by omega) (by omega), List.cons_lt_cons_iff, writeNum_lt_iff,
    Nat.mod_eq_of_lt (show (t % day / second).toNat % 60 < 10 ^ 2 by omega),
    Nat.mod_eq_of_lt (show (u % day / second).toNat % 60 < 10 ^ 2 by omega)]
  simp only [true_and]
  rcases lt_trichotomy (t / day) (u / day) with hday | hday | hday
  · have hdate := civilOfDay_lt hday
    unfold year at ht hu
    omega
  · have htime : (t % day / second).toNat < (u % day / second).toNat := by
      simp only [day, hour, minute, second] at hday h ⊢
      omega
    rw [hday]
    omega
  · simp only [day, hour, minute, second] at hday h
    omega

/-! ### Fractions -/

/-- The digits of the fraction of an instant, without trailing zeros. -/
def digits (t : ℤ) : List Char := (writeNum 9 (t % second).toNat).rdropWhile (· = '0')

/-- The first instant has the text of the second one up to its own end, within one second. -/
def Clips (t u : ℤ) : Prop := t / second = u / second ∧ digits t <+: digits u ∧ digits t ≠ digits u

instance (t u : ℤ) : Decidable (Clips t u) := inferInstanceAs (Decidable (_ ∧ _ ∧ _))

/-- The end of a text. -/
def tail : List Char → List Char
  | [] => ['Z']
  | d :: ds => '.' :: d :: (ds ++ ['Z'])

theorem formatNano_toList (t : ℤ) : (formatNano t).toList = writeSecond t ++ tail (digits t) := by
  rw [formatNano, String.toList_ofList, writeFraction, digits]
  cases (writeNum 9 (t % second).toNat).rdropWhile (· = '0') <;> rfl

theorem mem_digits {t : ℤ} {c : Char} (h : c ∈ digits t) : '0' ≤ c ∧ c ≤ '9' := by
  have hsome := digitVal_isSome_of_mem_writeNum ((List.rdropWhile_prefix _ _).subset h)
  by_contra hc
  simp [digitVal, hc] at hsome

/-- A fraction that goes on where the other ends has the smaller text. -/
theorem tail_append_lt {ds : List Char} {c : Char} {cs : List Char} (hc : c ≤ '9') :
    tail (ds ++ c :: cs) < tail ds := by
  have hcZ : c < 'Z' := lt_of_le_of_lt (α := Char) hc (by decide)
  cases ds with
  | nil =>
    have hdot : '.' < 'Z' := by decide
    exact List.cons_lt_cons_iff.mpr (.inl hdot)
  | cons d ds =>
    simp only [tail, List.cons_append, List.append_assoc]
    refine List.cons_lt_cons_iff.mpr (.inr ⟨rfl, List.cons_lt_cons_iff.mpr (.inr ⟨rfl, ?_⟩)⟩)
    exact List.append_left_lt (List.cons_lt_cons_iff.mpr (.inl hcZ))

/-- The first digit that differs decides. -/
theorem tail_lt {ds xs ys : List Char} {x y : Char} (h : x < y) :
    tail (ds ++ x :: xs) < tail (ds ++ y :: ys) := by
  have hrest : x :: (xs ++ ['Z']) < y :: (ys ++ ['Z']) := List.cons_lt_cons_iff.mpr (.inl h)
  cases ds with
  | nil => exact List.cons_lt_cons_iff.mpr (.inr ⟨rfl, hrest⟩)
  | cons d ds =>
    simp only [tail, List.cons_append, List.append_assoc]
    refine List.cons_lt_cons_iff.mpr (.inr ⟨rfl, List.cons_lt_cons_iff.mpr (.inr ⟨rfl, ?_⟩)⟩)
    exact List.append_left_lt hrest

/-- Two lists are equal, one goes on where the other ends, or they differ at some place. -/
theorem cases_of_lists {α : Type*} (a b : List α) :
    a = b ∨ (∃ c cs, b = a ++ c :: cs) ∨ (∃ c cs, a = b ++ c :: cs) ∨
      ∃ p x xs y ys, a = p ++ x :: xs ∧ b = p ++ y :: ys ∧ x ≠ y := by
  induction a generalizing b with
  | nil =>
    cases b with
    | nil => exact .inl rfl
    | cons c cs => exact .inr (.inl ⟨c, cs, rfl⟩)
  | cons x a ih =>
    cases b with
    | nil => exact .inr (.inr (.inl ⟨x, a, rfl⟩))
    | cons y b =>
      by_cases hxy : x = y
      · subst hxy
        rcases ih b with rfl | ⟨c, cs, rfl⟩ | ⟨c, cs, rfl⟩ | ⟨p, x', xs, y', ys, rfl, rfl, hne⟩
        · exact .inl rfl
        · exact .inr (.inl ⟨c, cs, rfl⟩)
        · exact .inr (.inr (.inl ⟨c, cs, rfl⟩))
        · exact .inr (.inr (.inr ⟨x :: p, x', xs, y', ys, rfl, rfl, hne⟩))
      · exact .inr (.inr (.inr ⟨[], x, a, y, b, rfl, rfl, hxy⟩))

/-- The nine digits of the nanoseconds. -/
theorem exists_zeros (t : ℤ) :
    ∃ zs, writeNum 9 (t % second).toNat = digits t ++ zs ∧ ∀ z ∈ zs, z = '0' :=
  ⟨(writeNum 9 (t % second).toNat).rtakeWhile (· = '0'), List.rdropWhile_append_rtakeWhile.symm,
    fun _ hz => by simpa using List.mem_rtakeWhile_imp hz⟩

theorem nanos_lt_iff {t u : ℤ} :
    writeNum 9 (t % second).toNat < writeNum 9 (u % second).toNat ↔ t % second < u % second := by
  rw [writeNum_lt_iff]
  simp only [second]
  omega

/-- Zeros come before digits that are not all zero. -/
theorem zeros_lt {zs ds : List Char} (hzs : ∀ z ∈ zs, z = '0') (hds : ∀ d ∈ ds, '0' ≤ d)
    (hlen : zs.length = ds.length) (hne : ∃ d ∈ ds, d ≠ '0') : zs < ds := by
  induction zs generalizing ds with
  | nil =>
    obtain rfl := List.eq_nil_of_length_eq_zero hlen.symm
    simp at hne
  | cons z zs ih =>
    cases ds with
    | nil => cases hlen
    | cons d ds =>
      obtain rfl := hzs z List.mem_cons_self
      rcases lt_or_eq_of_le (α := Char) (hds d List.mem_cons_self) with hlt | heq
      · exact List.cons_lt_cons_iff.mpr (.inl hlt)
      · subst heq
        refine List.cons_lt_cons_iff.mpr
          (.inr ⟨rfl, ih (fun z hz => hzs z (List.mem_cons_of_mem _ hz))
          (fun d hd => hds d (List.mem_cons_of_mem _ hd)) (Nat.succ.inj hlen) ?_⟩)
        obtain ⟨d, hd, hd0⟩ := hne
        exact ⟨d, (List.mem_cons.mp hd).resolve_left hd0, hd0⟩

/-- A fraction that goes on where the other ends is greater. -/
theorem nanos_lt_of_append {t u : ℤ} {c : Char} {cs : List Char}
    (h : digits u = digits t ++ c :: cs) : t % second < u % second := by
  obtain ⟨zs, ht, hzs⟩ := exists_zeros t
  obtain ⟨ws, hu, hws⟩ := exists_zeros u
  rw [← nanos_lt_iff, ht, hu, h, List.append_assoc]
  refine List.append_left_lt (zeros_lt hzs ?_ ?_ ?_)
  · intro d hd
    rcases List.mem_append.mp hd with hd | hd
    · exact (mem_digits (t := u) (h ▸ List.mem_append_right _ hd)).1
    · rw [hws d hd]
  · have hlt := congrArg List.length ht
    have hlu := congrArg List.length hu
    rw [h] at hlu
    simp only [length_writeNum, List.length_append] at hlt hlu ⊢
    omega
  · -- The last digit that is written is not a zero.
    have hne : digits u ≠ [] := by simp [h]
    have hlast := List.rdropWhile_last_not (fun c : Char => decide (c = '0')) _ hne
    refine ⟨(c :: cs).getLast (List.cons_ne_nil _ _),
      List.mem_append_left _ (List.getLast_mem _), ?_⟩
    have hsame : (digits u).getLast hne = (c :: cs).getLast (List.cons_ne_nil _ _) := by
      simp only [h]
      exact List.getLast_append_of_ne_nil _ _
    rw [← hsame]
    intro hzero
    exact hlast (decide_eq_true hzero)

/-- Fractions that differ at some place compare there. -/
theorem nanos_lt_of_differ {t u : ℤ} {p xs ys : List Char} {x y : Char}
    (ht : digits t = p ++ x :: xs)
    (hu : digits u = p ++ y :: ys) (h : x < y) : t % second < u % second := by
  obtain ⟨zs, ht', -⟩ := exists_zeros t
  obtain ⟨ws, hu', -⟩ := exists_zeros u
  rw [← nanos_lt_iff, ht', hu', ht, hu, List.append_assoc, List.append_assoc]
  exact List.append_left_lt (List.cons_lt_cons_iff.mpr (.inl h))

theorem clips_append {t u : ℤ} {c : Char} {cs : List Char} (hsec : t / second = u / second)
    (h : digits u = digits t ++ c :: cs) : Clips t u :=
  ⟨hsec, h ▸ List.prefix_append _ _, by simp [h]⟩

theorem Clips.append {t u : ℤ} (h : Clips t u) :
    t / second = u / second ∧ ∃ c cs, digits u = digits t ++ c :: cs := by
  obtain ⟨hsec, ⟨rest, hrest⟩, hne⟩ := h
  cases rest with
  | nil => exact absurd (by simpa using hrest) hne
  | cons c cs => exact ⟨hsec, c, cs, hrest.symm⟩

theorem Clips.lt {t u : ℤ} (h : Clips t u) : t < u := by
  obtain ⟨hsec, c, cs, happend⟩ := h.append
  have hlt := nanos_lt_of_append happend
  simp only [second] at hsec hlt
  omega

theorem eq_of_digits {t u : ℤ} (hsec : t / second = u / second) (h : digits t = digits u) :
    t = u := by
  obtain ⟨zs, ht, hzs⟩ := exists_zeros t
  obtain ⟨ws, hu, hws⟩ := exists_zeros u
  have hlen : zs.length = ws.length := by
    have hlt := congrArg List.length ht
    have hlu := congrArg List.length hu
    rw [h] at hlt
    simp only [length_writeNum, List.length_append] at hlt hlu
    omega
  have hsame : zs = ws := by
    rw [List.eq_replicate_of_mem hzs, List.eq_replicate_of_mem hws, hlen]
  have hnum : writeNum 9 (t % second).toNat = writeNum 9 (u % second).toNat := by
    rw [ht, hu, h, hsame]
  rw [writeNum_eq_iff] at hnum
  simp only [second] at hsec hnum
  omega

/-- Within one second the fractions decide. -/
theorem tail_lt_iff {t u : ℤ} (hsec : t / second = u / second) :
    tail (digits t) < tail (digits u) ↔ t < u ∧ ¬ Clips t u ∨ Clips u t := by
  have hlt : t % second < u % second ↔ t < u := by
    simp only [second] at hsec ⊢
    omega
  have hirrefl : ∀ l : List Char, ¬ l < l := fun l => List.lt_irrefl l
  rcases cases_of_lists (digits t) (digits u) with
    heq | ⟨c, cs, happend⟩ | ⟨c, cs, happend⟩ | ⟨p, x, xs, y, ys, ht, hu, hne⟩
  · obtain rfl := eq_of_digits hsec heq
    refine iff_of_false (hirrefl _) ?_
    rintro (⟨h, -⟩ | h)
    · exact lt_irrefl _ h
    · exact h.2.2 rfl
  · have hclips := clips_append hsec happend
    have hgreater : tail (digits u) < tail (digits t) := by
      rw [happend]
      exact tail_append_lt (mem_digits (t := u) (by simp [happend])).2
    refine iff_of_false (fun h => hirrefl _ (List.lt_trans h hgreater)) ?_
    rintro (⟨-, h⟩ | h)
    · exact h hclips
    · exact lt_asymm hclips.lt h.lt
  · have hclips := clips_append hsec.symm happend
    have hless : tail (digits t) < tail (digits u) := by
      rw [happend]
      exact tail_append_lt (mem_digits (t := t) (by simp [happend])).2
    exact iff_of_true hless (.inr hclips)
  · have hno : ¬ Clips t u ∧ ¬ Clips u t := by
      constructor <;> rintro ⟨-, hlead, -⟩
      · rw [ht, hu, List.prefix_append_right_inj] at hlead
        exact hne (List.cons_prefix_cons.mp hlead).1
      · rw [ht, hu, List.prefix_append_right_inj] at hlead
        exact hne (List.cons_prefix_cons.mp hlead).1.symm
    rcases lt_or_gt_of_ne hne with hxy | hxy
    · refine iff_of_true ?_ (.inl ⟨hlt.mp (nanos_lt_of_differ ht hu hxy), hno.1⟩)
      rw [ht, hu]
      exact tail_lt hxy
    · have hgreater : tail (digits u) < tail (digits t) := by
        rw [ht, hu]
        exact tail_lt hxy
      have hback := nanos_lt_of_differ hu ht hxy
      refine iff_of_false (fun h => hirrefl _ (List.lt_trans h hgreater)) ?_
      rintro (⟨h, -⟩ | h)
      · exact absurd (hlt.mpr h) (not_lt.mpr hback.le)
      · exact hno.2 h

/-- **The order of texts** of the years 0 to 9999: that of the instants, but for an instant that
ends where the fraction of another goes on, which has the greater text. -/
theorem formatNano_lt_iff {t u : ℤ} (ht : 0 ≤ year t ∧ year t ≤ 9999)
    (hu : 0 ≤ year u ∧ year u ≤ 9999) :
    formatNano t < formatNano u ↔ t < u ∧ ¬ Clips t u ∨ Clips u t := by
  rw [String.lt_iff, formatNano_toList, formatNano_toList,
    append_lt_append_iff (by rw [length_writeSecond, length_writeSecond])]
  rcases lt_trichotomy (t / second) (u / second) with hlt | heq | hgt
  · refine iff_of_true (.inl (writeSecond_lt ht hu hlt)) (.inl ⟨?_, fun h => hlt.ne h.1⟩)
    simp only [second] at hlt
    omega
  · rw [writeSecond_congr heq, ← tail_lt_iff heq]
    simp
  · have hback := writeSecond_lt hu ht hgt
    refine iff_of_false ?_ ?_
    · rintro (h | ⟨h, -⟩)
      · exact List.lt_irrefl _ (List.lt_trans h hback)
      · rw [h] at hback
        exact List.lt_irrefl _ hback
    · rintro (⟨h, -⟩ | h)
      · simp only [second] at hgt
        omega
      · exact hgt.ne h.1

/-- The years a text can hold. -/
theorem year_mem_of_lt {t : ℤ} (h0 : 0 ≤ t) (h : t < 253402300800 * second) :
    0 ≤ year t ∧ year t ≤ 9999 := by
  have hstart : (1970 : ℤ) ≤ year t := by
    rw [le_year_iff]
    exact le_trans (by decide) h0
  have hend : ¬ (10000 : ℤ) ≤ year t := by
    rw [le_year_iff]
    exact not_le.mpr (h.trans_le (by decide))
  omega

end Rfc3339
