import Mathlib.Tactic
import ComputeRelay.Lib.Scan
import ComputeRelay.Runner.Secrets

/-!
# Captured logs

`Log` of `runner/python/relay_runner/process.py`. What the child writes arrives in pieces. `feed`
keeps back what could still become part of a secret and passes the rest on; `_write` replaces
secrets and what looks like a credential and stores the result up to the limit.

The cut of `feed` divides no match of a needle, and a needle that begins before it is at hand in
full: either enough bytes are kept back, or a newline ends what is passed on and no needle has one.
So what is stored never begins a needle that the rest could complete (`Clean`), and no needle is
ever stored.
-/

namespace ComputeRelay
namespace Runner
namespace Secrets

open Scan

/-! ### Credentials -/

/-- `re.I` for bytes -/
def foldCase (b : UInt8) : UInt8 := if 65 ≤ b && b ≤ 90 then b + 32 else b

/-- The bytes of a text, in either case. -/
def word (s : String) : Matcher UInt8 :=
  each ((Text.bytes s).map fun c b => foldCase b == foldCase c)

/-- One byte of a text, in either case. -/
def oneOf (s : String) : UInt8 → Bool :=
  fun b => (Text.bytes s).any fun c => foldCase b == foldCase c

def alphanumeric (b : UInt8) : Bool := Text.letter b || Text.digit b

/-- `[^\s"']` -/
def valueByte (b : UInt8) : Bool := !([32, 9, 10, 13, 12, 11, 34, 39] : Bytes).contains b

/-- `SECRET`. What follows a repetition in it never begins with what is repeated, so no repetition
gives anything back. -/
def secret : Matcher UInt8 :=
  orElse (seq (word "cr1_") (run (fun b => alphanumeric b || oneOf "_-" b) 43 (some 43)))
    (orElse
      (seq (word "gh")
        (seq (each [oneOf "pousr"]) (seq (word "_") (run alphanumeric 20 (some 255)))))
      (seq
        (orElse
          (seq (word "authorization")
            (seq (run (oneOf "=: ") 1 none) (seq (word "bearer") (run (oneOf " ") 1 none))))
          (seq
            (orElse (seq (word "api") (seq (run (oneOf "_-") 0 (some 1)) (word "key")))
              (orElse (word "token") (orElse (word "password") (word "secret"))))
            (seq (each [oneOf "=:"]) (run (oneOf " ") 0 none))))
        (run valueByte 1 (some 512))))

/-! ### The log -/

/-- `MARKER` -/
def truncatedMarker : Bytes := Text.bytes "\n[runner: log truncated]\n"

structure Log where
  redactor : Redactor
  limit : ℕ
  written : ℕ := 0
  received : ℕ := 0
  truncated : Bool := false
  pending : Bytes := []
  file : Bytes := []

/-- What is stored for some bytes. -/
def Redactor.scrub (R : Redactor) (data : Bytes) : Bytes :=
  R.redact (sub secret redacted 0 (R.redact data))

/-- `rfind(b"\n") + 1` -/
def afterNewline (data : Bytes) : ℕ := data.length - (data.reverse.takeWhile (· ≠ 10)).length

/-- Where the pending bytes would be cut if nothing in them had to be replaced. -/
def Redactor.firstCut (R : Redactor) (pending : Bytes) : ℕ :=
  let cut := pending.length - max 1024 R.hold
  if R.multiline then cut else max cut (afterNewline pending)

/-- How much of the pending bytes is passed on. -/
def Redactor.cut (R : Redactor) (pending : Bytes) : ℕ :=
  let cut := retreat (finditer secret 0 0 pending) (R.firstCut pending)
  if R.needles.isEmpty then cut else retreat (finditer R.pattern 0 0 pending) cut

namespace Log

/-- `_write` -/
def write (log : Log) (data : Bytes) : Log :=
  let data := log.redactor.scrub data
  let available := log.limit - truncatedMarker.length - log.written
  let selected := data.take available
  { log with
    file := log.file ++ selected
    written := log.written + selected.length
    truncated := log.truncated || decide (available < data.length) }

def feed (log : Log) (raw : Bytes) : Log :=
  let pending := log.pending ++ raw
  let cut := log.redactor.cut pending
  let log := { log with received := log.received + raw.length }
  { log.write (pending.take cut) with pending := pending.drop cut }

def close (log : Log) : Log :=
  let log := { log.write log.pending with pending := [] }
  if log.truncated then
    let tail := (log.redactor.redact truncatedMarker).take (log.limit - log.written)
    { log with file := log.file ++ tail, written := log.written + tail.length }
  else log

end Log

/-! ### What is stored for some bytes -/

section Scrub

variable {R : Redactor} {data x : Bytes}

theorem redacted_ne_nil : redacted ≠ [] := by decide

theorem scrub_eq (h : R.Foreign) (data : Bytes) :
    R.scrub data = sub secret redacted 0 (sub R.pattern redacted 0 data) := by
  rw [Redactor.scrub, R.redact_eq h data, R.redact_eq h]
  refine sub_of_not_found ?_
  rw [← Bool.not_eq_true, Redactor.pattern, found_anyOf]
  rintro ⟨x, hx, hin⟩
  have hin' := infix_of_infix_sub redacted_ne_nil (R.nonempty x hx) (h x hx) hin
  exact not_infix_sub R.nonempty redacted_ne_nil hx (h x hx) hin'

theorem not_infix_scrub (h : R.Foreign) (hx : x ∈ R.needles) : ¬ x <:+: R.scrub data := by
  rw [scrub_eq h]
  intro hin
  exact not_infix_sub R.nonempty redacted_ne_nil hx (h x hx)
    (infix_of_infix_sub redacted_ne_nil (R.nonempty x hx) (h x hx) hin)

theorem prefix_of_prefix_scrub (h : R.Foreign) (hx : ∀ b ∈ x, b ∉ redacted)
    (hpre : x <+: R.scrub data) : x <+: data := by
  rw [scrub_eq h] at hpre
  have hmid := prefix_sub redacted_ne_nil hpre hx
  exact prefix_sub redacted_ne_nil hmid hx

theorem suffix_of_suffix_scrub (h : R.Foreign) (hx : ∀ b ∈ x, b ∉ redacted)
    (hsuf : x <:+ R.scrub data) : x <:+ sub R.pattern redacted 0 data := by
  rw [scrub_eq h] at hsuf
  obtain ⟨d', hd', -⟩ := suffix_sub redacted_ne_nil hsuf hx
  exact ⟨d', hd'.symm⟩

theorem scrub_eq_self (h : R.Foreign) (hx : ∀ b ∈ R.scrub data, b ∉ redacted) :
    R.scrub data = data := by
  rw [scrub_eq h] at hx ⊢
  have hmid := sub_eq_input redacted_ne_nil hx
  rw [hmid] at hx ⊢
  exact sub_eq_input redacted_ne_nil hx

end Scrub

/-! ### The cut -/

section Cut

variable (R : Redactor) (pending : Bytes)

theorem firstCut_le : R.firstCut pending ≤ pending.length - max 1024 R.hold ∨
    R.multiline = false ∧ R.firstCut pending ≤ afterNewline pending := by
  cases hm : R.multiline with
  | true =>
    left
    simp [Redactor.firstCut, hm]
  | false =>
    rcases Nat.le_total (afterNewline pending) (pending.length - max 1024 R.hold) with hle | hle
    · left
      simp [Redactor.firstCut, hm, hle]
    · right
      simp only [Redactor.firstCut, hm, Bool.false_eq_true, if_false, max_eq_right hle,
        le_refl, and_self]

/-- Without needles there is no match to go back from. -/
theorem cut_eq : R.cut pending = retreat (finditer R.pattern 0 0 pending)
    (retreat (finditer secret 0 0 pending) (R.firstCut pending)) := by
  unfold Redactor.cut
  simp only
  split_ifs with hempty
  · rw [List.isEmpty_iff] at hempty
    have hnone : found R.pattern pending = false := by
      rw [← Bool.not_eq_true, Redactor.pattern, found_anyOf, hempty]
      simp
    rw [finditer_of_not_found 0 hnone]
    rfl
  · rfl

theorem cut_le : R.cut pending ≤ R.firstCut pending := by
  rw [cut_eq]
  exact (retreat_le _ _).trans (retreat_le _ _)

theorem firstCut_le_length : R.firstCut pending ≤ pending.length := by
  rcases firstCut_le R pending with h | ⟨-, h⟩
  · exact h.trans (Nat.sub_le _ _)
  · exact h.trans (Nat.sub_le _ _)

/-- The scan for needles is between matches at the cut. -/
theorem skipAt_cut : skipAt R.pattern 0 pending (R.cut pending) = 0 := by
  rw [cut_eq]
  exact skipAt_retreat ((retreat_le _ _).trans (firstCut_le_length R pending))

variable {R pending}

theorem newline_mem_drop {k : ℕ} (h : k < afterNewline pending) : 10 ∈ pending.drop k := by
  by_contra hnot
  have hk : k ≤ pending.length := h.le.trans (Nat.sub_le _ _)
  have hall : ∀ b ∈ (pending.drop k).reverse, decide (b ≠ 10) = true := by
    intro b hb
    rw [List.mem_reverse] at hb
    exact decide_eq_true fun heq => hnot (heq ▸ hb)
  have hrev : pending.reverse = (pending.drop k).reverse ++ (pending.take k).reverse := by
    rw [← List.reverse_append, List.take_append_drop]
  have hlong : pending.length - k ≤ (pending.reverse.takeWhile (· ≠ 10)).length := by
    rw [hrev, List.takeWhile_append_of_pos hall, List.length_append, List.length_reverse,
      List.length_drop]
    exact Nat.le_add_right _ _
  unfold afterNewline at h
  omega

/-- A needle that begins before the cut is at hand in full. -/
theorem needle_fits {d e x y rest : Bytes} (hd : pending = d ++ e) (hcut : d.length = R.cut pending)
    (hneedle : x ++ y ∈ R.needles) (hx : x ≠ []) (hsuf : x <:+ d) (hy : y <+: e ++ rest) :
    y <+: e := by
  refine List.prefix_of_prefix_length_le hy (List.prefix_append e rest) ?_
  have hxpos : 0 < x.length := List.length_pos_iff.mpr hx
  have hxd := hsuf.length_le
  have hlen : pending.length = d.length + e.length := by rw [hd, List.length_append]
  have hfirst := cut_le R pending
  rcases firstCut_le R pending with hle | ⟨hmulti, hle⟩
  · have hhold := R.length_le_hold hneedle
    rw [List.length_append] at hhold
    have hmax := le_max_right 1024 R.hold
    omega
  · -- Otherwise the newline would be in the needle.
    by_contra hlt
    have hey : e <+: y := List.prefix_of_prefix_length_le (List.prefix_append e rest) hy (by omega)
    obtain ⟨d', rfl⟩ := hsuf
    rw [List.length_append] at hcut
    have hmem := newline_mem_drop (k := d'.length) (show _ < afterNewline pending by omega)
    rw [hd, List.append_assoc, List.drop_left] at hmem
    refine R.not_mem_newline hmulti hneedle ?_
    rcases List.mem_append.mp hmem with hmem | hmem
    · exact List.mem_append_left _ hmem
    · exact List.mem_append_right _ (hey.subset hmem)

end Cut

/-! ### What is stored so far -/

/-- No needle is stored, and none begins in what is stored and goes on with what is pending,
whatever arrives next. -/
structure Clean (R : Redactor) (file pending : Bytes) : Prop where
  absent : ∀ x ∈ R.needles, ¬ x <:+: file
  apart : ∀ x y, x ++ y ∈ R.needles → x ≠ [] → y ≠ [] → x <:+ file → ∀ rest, ¬ y <+: pending ++ rest

namespace Clean

variable {R : Redactor} {file d e : Bytes}

theorem append_raw {pending : Bytes} (h : Clean R file pending) (raw : Bytes) :
    Clean R file (pending ++ raw) := by
  refine ⟨h.absent, fun x y hneedle hx hy hsuf rest => ?_⟩
  rw [List.append_assoc]
  exact h.apart x y hneedle hx hy hsuf (raw ++ rest)

/-- Passing on the first part of what is pending stores no needle. -/
theorem absent_append (hf : R.Foreign) (h : Clean R file (d ++ e)) :
    ∀ x ∈ R.needles, ¬ x <:+: file ++ R.scrub d := by
  intro x hx hin
  rcases List.infix_append_iff.mp hin with hold | hnew | ⟨u, v, rfl, hu, hv⟩
  · exact h.absent x hx hold
  · exact not_infix_scrub hf hx hnew
  · by_cases hu0 : u = []
    · subst hu0
      exact not_infix_scrub hf hx hv.isInfix
    by_cases hv0 : v = []
    · subst hv0
      exact h.absent _ hx (by simpa using hu.isInfix)
    have hvd : v <+: d := prefix_of_prefix_scrub hf
      (fun b hb => hf _ hx b (List.mem_append_right _ hb)) hv
    refine h.apart u v hx hu0 hv0 hu [] ?_
    rw [List.append_nil]
    exact hvd.trans (List.prefix_append d e)

/-- A needle that began in the bytes passed on would have been at hand in full, and the scan for
needles would have seen it. -/
theorem not_begun (hf : R.Foreign) (hcut : d.length = R.cut (d ++ e)) {x y : Bytes}
    (hneedle : x ++ y ∈ R.needles) (hx : x ≠ []) (hsuf : x <:+ R.scrub d) (rest : Bytes) :
    ¬ y <+: e ++ rest := by
  intro hpre
  have hforeign : ∀ b ∈ x, b ∉ redacted := fun b hb => hf _ hneedle b (List.mem_append_left _ hb)
  have hmid := suffix_of_suffix_scrub hf hforeign hsuf
  obtain ⟨d', hd', -⟩ := suffix_sub redacted_ne_nil hmid hforeign
  have hye : y <+: e := needle_fits rfl hcut hneedle hx ⟨d', hd'.symm⟩ hpre
  have hzero : skipAt R.pattern 0 (d ++ e) d.length = 0 := hcut ▸ skipAt_cut R (d ++ e)
  refine suffix_unmatched R.pattern_local redacted_ne_nil hzero hmid hx hforeign fun hnone => ?_
  obtain ⟨t, rfl⟩ := hye
  refine anyOf_eq_none.mp hnone _ hneedle ?_
  rw [← List.append_assoc]
  exact List.prefix_append _ t

/-- Passing on the bytes before the cut keeps the log clean. -/
theorem flush (hf : R.Foreign) (h : Clean R file (d ++ e)) (hcut : d.length = R.cut (d ++ e)) :
    Clean R (file ++ R.scrub d) e := by
  refine ⟨h.absent_append hf, fun x y hneedle hx hy hsuf rest => ?_⟩
  rcases List.suffix_or_suffix_of_suffix hsuf
    (List.suffix_append file (R.scrub d)) with hin | ⟨u, rfl⟩
  · exact not_begun hf hcut hneedle hx hin rest
  by_cases hu : u = []
  · subst hu
    exact not_begun hf hcut hneedle hx (List.suffix_refl _) rest
  -- The needle began earlier. The bytes passed on are a part of it, so they are stored as they
  -- came.
  have hself : R.scrub d = d := scrub_eq_self hf fun b hb =>
    hf _ hneedle b (List.mem_append_left _ (List.mem_append_right _ hb))
  have hufile : u <:+ file := by
    obtain ⟨t, ht⟩ := hsuf
    exact ⟨t, List.append_cancel_right (by rw [List.append_assoc]; exact ht)⟩
  rw [List.append_assoc] at hneedle
  intro hpre
  refine h.apart u _ hneedle hu (List.append_ne_nil_of_right_ne_nil _ hy) hufile rest ?_
  rw [hself, List.append_assoc]
  exact (List.prefix_append_right_inj d).mpr hpre

end Clean

namespace Log

theorem write_file (log : Log) {data : Bytes} (h : (log.write data).truncated = false) :
    log.truncated = false ∧ (log.write data).file = log.file ++ log.redactor.scrub data := by
  simp only [write, Bool.or_eq_false_iff, decide_eq_false_iff_not, not_lt] at h
  exact ⟨h.1, by simp only [write, List.take_of_length_le h.2]⟩

theorem feed_clean {log : Log} {raw : Bytes} (hf : log.redactor.Foreign)
    (hclean : log.truncated = false → Clean log.redactor log.file log.pending)
    (h : (log.feed raw).truncated = false) :
    Clean log.redactor (log.feed raw).file (log.feed raw).pending := by
  obtain ⟨hbefore, hfile⟩ := write_file { log with received := log.received + raw.length } h
  have hpending := (hclean hbefore).append_raw raw
  rw [← List.take_append_drop (log.redactor.cut (log.pending ++ raw))
    (log.pending ++ raw)] at hpending
  have hflush := hpending.flush hf (by
    rw [List.take_append_drop, List.length_take]
    exact min_eq_left ((cut_le _ _).trans (firstCut_le_length _ _)))
  rw [← hfile] at hflush
  exact hflush

theorem feeds_redactor (log : Log) (chunks : List Bytes) :
    (chunks.foldl feed log).redactor = log.redactor := by
  induction chunks generalizing log with
  | nil => rfl
  | cons raw chunks ih => exact ih (log.feed raw)

theorem feeds_clean (log : Log) {chunks : List Bytes} (hf : log.redactor.Foreign)
    (hclean : log.truncated = false → Clean log.redactor log.file log.pending) :
    (chunks.foldl feed log).truncated = false →
      Clean log.redactor (chunks.foldl feed log).file (chunks.foldl feed log).pending := by
  induction chunks generalizing log with
  | nil => exact hclean
  | cons raw chunks ih => exact ih (log.feed raw) hf (feed_clean hf hclean)

theorem close_file {log : Log} (h : log.close.truncated = false) :
    (log.write log.pending).truncated = false ∧ log.close.file = (log.write log.pending).file := by
  unfold close at h ⊢
  by_cases ht : (log.write log.pending).truncated = true
  · simp only [ht, if_true, Bool.true_eq_false] at h
  · simp only [ht, Bool.false_eq_true, if_false] at h ⊢
    exact ⟨h, trivial⟩

theorem password_accepted : (Redactor.ofValues [Text.bytes "hunter2"]).isSome = true := by decide

/-- **No secret in a captured log.** However the output of a child is cut into pieces, if no
spelling of its secrets has a byte of `[REDACTED]` and the limit truncates nothing, then none of
them is in the stored log. -/
theorem stored_log_free_of_secrets (values chunks : List Bytes) (limit : ℕ) (R : Redactor)
    (hvalues : Redactor.ofValues values = some R)
    (hforeign : ∀ v ∈ values, ∀ x ∈ variants v, ∀ b ∈ x, b ∉ redacted)
    (hfull : (chunks.foldl feed { redactor := R, limit := limit }).close.truncated = false) :
    ∀ v ∈ values, ∀ x ∈ variants v,
      ¬ x <:+: (chunks.foldl feed { redactor := R, limit := limit }).close.file := by
  have hf : R.Foreign := by
    intro x hx
    obtain ⟨v, hv, hx⟩ := (Redactor.mem_needles hvalues).mp hx
    exact hforeign v hv x hx
  intro v hv x hx
  have hneedle : x ∈ R.needles := (Redactor.mem_needles hvalues).mpr ⟨v, hv, hx⟩
  obtain ⟨hwrite, hfile⟩ := close_file hfull
  obtain ⟨hfed, hstored⟩ := write_file _ hwrite
  have hempty : Clean R [] [] := by
    refine ⟨fun y hy hin => R.nonempty y hy (List.eq_nil_of_infix_nil hin), ?_⟩
    intro u v _ hu _ hsuf
    exact absurd (List.eq_nil_of_suffix_nil hsuf) hu
  have hclean := feeds_clean { redactor := R, limit := limit } hf (fun _ => hempty) hfed
  rw [hfile, hstored, feeds_redactor]
  rw [← List.append_nil (List.foldl feed _ chunks).pending] at hclean
  exact hclean.absent_append hf x hneedle

/-- A password that arrives in two pieces. -/
theorem split_password_redacted :
    ∃ R, Redactor.ofValues [Text.bytes "hunter2"] = some R ∧
      ([Text.bytes "run hun", Text.bytes "ter2\ndone"].foldl feed
        { redactor := R, limit := 1000 }).close.file = Text.bytes "run [REDACTED]\ndone" ∧
      ∀ v ∈ [Text.bytes "hunter2"], ∀ x ∈ variants v, ¬ x <:+:
        ([Text.bytes "run hun", Text.bytes "ter2\ndone"].foldl feed
          { redactor := R, limit := 1000 }).close.file := by
  refine ⟨_, Option.some_get password_accepted, ?_, ?_⟩
  · decide
  · exact stored_log_free_of_secrets _ _ _ _ (Option.some_get password_accepted) (by decide +kernel)
      (by decide +kernel)

end Log

end Secrets
end Runner
end ComputeRelay
