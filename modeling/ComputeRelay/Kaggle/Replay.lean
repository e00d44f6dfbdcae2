import Mathlib.Tactic
import ComputeRelay.Kaggle.Logs

/-!
# Log pages put together

A replay depends on the events only through the lines that they make (`decode_eq`), and on a line
only through its redacted form, which ends in its only newline (`redact_line`). A page that is asked
for at the end of a line finds its place again (`feed_skip`), and goes on with whole lines
(`feed_page`).
-/

namespace ComputeRelay
namespace Kaggle

open Fallible Scan

/-! ### Sizes -/

@[simp] theorem byteSize_nil : byteSize [] = 0 := rfl

@[simp] theorem byteSize_append (s t : List Char) :
    byteSize (s ++ t) = byteSize s + byteSize t := by
  simp [byteSize]

theorem byteSize_pos {t : List Char} (h : t ≠ []) : 0 < byteSize t := by
  cases t with
  | nil => exact absurd rfl h
  | cons c t =>
    have := Char.utf8Size_pos c
    simp only [byteSize, List.map_cons, List.sum_cons]
    omega

/-! ### Redacted lines -/

theorem avoids_word {s : String} (h : (s.toList.all fun c => !folds c '\n') = true) :
    Avoids (word s) '\n' := by
  refine avoids_each fun q hq => ?_
  obtain ⟨c, hc, rfl⟩ := List.mem_map.mp hq
  simpa using List.all_eq_true.mp h c hc

theorem logSecret_avoids : Avoids logSecret '\n' := by
  have hclass {s : String} (h : oneOf s '\n' = false) : Avoids (each [oneOf s]) '\n' :=
    avoids_each fun q hq => by rwa [List.mem_singleton.mp hq]
  refine .orElse (.seq (avoids_word (by decide)) (avoids_run (by decide) _ _))
    (.orElse ?_ (.seq (.orElse ?_ ?_)
    (avoids_run (by decide) _ _)))
  · exact .seq (avoids_word (by decide)) (.seq (hclass (by decide))
      (.seq (avoids_word (by decide)) (avoids_run (by decide) _ _)))
  · exact .seq (avoids_word (by decide)) (.seq (avoids_run (by decide) _ _)
      (.seq (avoids_word (by decide)) (avoids_run (by decide) _ _)))
  · exact .seq (.orElse (.seq (avoids_word (by decide)) (.seq (avoids_run (by decide) _ _)
      (avoids_word (by decide))))
        (.orElse (avoids_word (by decide)) (.orElse (avoids_word (by decide))
        (avoids_word (by decide))))) (.seq (hclass (by decide)) (avoids_run (by decide) _ _))

theorem token_avoids {token : List Char} (htoken : validToken token = true) :
    Avoids (each (token.map fun c b => b == c)) '\n' := by
  refine avoids_each fun q hq => ?_
  obtain ⟨c, hc, rfl⟩ := List.mem_map.mp hq
  simp only [validToken, Bool.and_eq_true, List.all_eq_true, decide_eq_true_eq] at htoken
  rw [beq_eq_false_iff_ne]
  rintro rfl
  exact absurd (htoken.2 _ hc).1 (by decide)

/-- The redacted form of a line ends in its only newline. -/
theorem redact_line {token l : List Char} (htoken : validToken token = true) (hl : '\n' ∉ l) :
    ∃ y, redact token (l ++ ['\n']) = y ++ ['\n'] ∧ '\n' ∉ y := by
  obtain ⟨y, hy, hyn⟩ :=
    sub_append_singleton (token_avoids htoken) (show '\n' ∉ redacted by decide) hl (Nat.zero_le _)
  obtain ⟨z, hz, hzn⟩ :=
    sub_append_singleton logSecret_avoids (show '\n' ∉ redacted by decide) hyn (Nat.zero_le _)
  exact ⟨z, by rw [redact, replaceAll, hy, hz], hzn⟩

/-- What the log shows of a line. -/
def redactedLine (token l : List Char) : List Char := redact token (l ++ ['\n'])

theorem count_redactedLine {token l : List Char} (htoken : validToken token = true)
    (hl : '\n' ∉ l) : (redactedLine token l).count '\n' = 1 := by
  obtain ⟨y, hy, hyn⟩ := redact_line htoken hl
  rw [redactedLine, hy, List.count_append, List.count_eq_zero_of_not_mem hyn]
  rfl

theorem redactedLine_pos {token l : List Char} (htoken : validToken token = true) (hl : '\n' ∉ l) :
    0 < byteSize (redactedLine token l) := by
  obtain ⟨y, hy, -⟩ := redact_line htoken hl
  exact byteSize_pos (by rw [redactedLine, hy]; simp)

/-! ### From events to lines -/

/-- The text of some events, with one kind of line ends. -/
def logText (xs : List (List Char)) : List Char := (xs.map LogDecoder.normalize).flatten

/-- The text that waits for the end of its line never gets too long. -/
def Fits : List Char → List (List Char) → Prop
  | _, [] => True
  | pending, t :: ts => byteSize (pending ++ LogDecoder.normalize t) ≤ maxLogEvent ∧
      Fits (Lines.cut '\n' (pending ++ LogDecoder.normalize t)).2 ts

/-- The lines of a text, with the rest as a line of its own once the log has ended. -/
def rawLines (finished : Bool) (t : List Char) : List (List Char) :=
  (Lines.cut '\n' t).1 ++
    if finished && (Lines.cut '\n' t).2 ≠ [] then [(Lines.cut '\n' t).2] else []

theorem rawLines_append (finished : Bool) (s t : List Char) :
    rawLines finished (s ++ t) =
      (Lines.cut '\n' s).1 ++ rawLines finished ((Lines.cut '\n' s).2 ++ t) := by
  rw [rawLines, Lines.cut_append, rawLines, List.append_assoc]

theorem not_mem_rawLines {finished : Bool} {t l : List Char} (h : l ∈ rawLines finished t) :
    '\n' ∉ l := by
  rcases List.mem_append.mp h with h | h
  · exact (Lines.not_mem_cut '\n' t).1 l h
  · split_ifs at h
    · rw [List.mem_singleton.mp h]
      exact (Lines.not_mem_cut '\n' t).2
    · cases h

namespace LogDecoder

variable (H : LogDigest)

/-- The lines, one after the other. -/
def feed (d : LogDecoder) : List (List Char) → Except LogErr (Bool × LogDecoder)
  | [] => pure (true, d)
  | l :: ls => do
    let (more, d) ← accept H d (l ++ ['\n'])
    if more then feed d ls else pure (false, d)

/-- The decoder without its account of the events. -/
def core (d : LogDecoder) : LogDecoder := { d with pending := [], events := 0, ended := false }

variable {H} {d d' : LogDecoder} {more : Bool}

theorem accept_core (d : LogDecoder) (text : List Char) :
    (accept H d text).map (fun r => (r.1, r.2.core)) = accept H d.core text := by
  unfold accept core
  dsimp only
  split_ifs <;> rfl

theorem accept_keeps {text : List Char} (h : accept H d text = .ok (more, d')) :
    d'.pending = d.pending ∧ d'.events = d.events ∧ d'.ended = d.ended := by
  unfold accept at h
  dsimp only at h
  split_ifs at h <;> cases h <;> exact ⟨rfl, rfl, rfl⟩

theorem drain_core (d : LogDecoder) (ls : List (List Char)) (rest : List Char) :
    (drain H d ls rest).map (fun r => (r.1, r.2.core)) = feed H d.core ls := by
  induction ls generalizing d with
  | nil => rfl
  | cons l ls ih =>
    have hcore := accept_core (H := H) { d with pending := (ls.map (· ++ ['\n'])).flatten ++
      rest } (l ++ ['\n'])
    have hsame : core { d with pending := (ls.map (· ++ ['\n'])).flatten ++ rest } = d.core := rfl
    rw [hsame] at hcore
    rw [drain, feed, ← hcore]
    cases accept H { d with pending := (ls.map (· ++ ['\n'])).flatten ++ rest } (l ++ ['\n']) with
    | error e => rfl
    | ok r =>
      obtain ⟨more, d'⟩ := r
      cases more with
      | false => rfl
      | true => exact ih d'

theorem drain_keeps {ls : List (List Char)} {rest : List Char}
    (h : drain H d ls rest = .ok (true, d')) : d'.pending = rest ∧ d'.events = d.events := by
  induction ls generalizing d with
  | nil =>
    rw [drain, pure_eq_ok] at h
    cases h
    exact ⟨rfl, rfl⟩
  | cons l ls ih =>
    simp only [drain, bind_eq_ok, Prod.exists] at h
    obtain ⟨more, mid, haccept, h⟩ := h
    split_ifs at h
    · obtain ⟨hpending, hevents⟩ := ih h
      exact ⟨hpending, hevents.trans (accept_keeps haccept).2.1⟩
    · cases h

theorem feed_append (d : LogDecoder) (as bs : List (List Char)) :
    feed H d (as ++ bs) = (feed H d as).bind fun r =>
      if r.1 then feed H r.2 bs else pure (false, r.2) := by
  induction as generalizing d with
  | nil => rfl
  | cons a as ih =>
    rw [List.cons_append, feed, feed]
    cases accept H d (a ++ ['\n']) with
    | error e => rfl
    | ok r =>
      obtain ⟨more, d'⟩ := r
      cases more with
      | false => rfl
      | true => exact ih d'

theorem last_core (finished : Bool) (d : LogDecoder) :
    (if finished then finish H d else pure d).map core =
      (feed H d.core (if finished && d.pending ≠ [] then [d.pending] else [])).map Prod.snd := by
  cases finished with
  | false => rfl
  | true =>
    unfold finish
    by_cases hpending : d.pending = []
    · simp only [hpending]
      rfl
    · have hcore := accept_core (H := H) { d with ended := true } (d.pending ++ ['\n'])
      have hsame : core { d with ended := true } = d.core := rfl
      rw [hsame] at hcore
      simp only [hpending, if_true, if_false, ne_eq, not_false_eq_true, decide_true, Bool.and_self,
        feed, ← hcore]
      cases accept H { d with ended := true } (d.pending ++ ['\n']) with
      | error e => rfl
      | ok r =>
        obtain ⟨more, d'⟩ := r
        cases more <;> rfl

theorem event_eq {t : List Char} (hsize : byteSize (d.pending ++ normalize t) ≤ maxLogEvent)
    (hevents : d.events < maxLogEvents) :
    event H d t =
      drain H { d with events := d.events + 1 } (Lines.cut '\n' (d.pending ++ normalize t)).1
      (Lines.cut '\n' (d.pending ++ normalize t)).2 := by
  rw [event, if_neg (not_le.mpr hevents)]
  dsimp only
  rw [if_neg (not_lt.mpr hsize)]

theorem decode_eq {xs : List (List Char)} {finished : Bool} (hpending : '\n' ∉ d.pending)
    (hfits : Fits d.pending xs) (hevents : d.events + xs.length ≤ maxLogEvents) :
    (decode H finished d xs).map core =
      (feed H d.core (rawLines finished (d.pending ++ logText xs))).map Prod.snd := by
  induction xs generalizing d with
  | nil =>
    have hlines : rawLines finished (d.pending ++ logText []) =
        if finished && d.pending ≠ [] then [d.pending] else [] := by
      rw [rawLines, logText, List.map_nil, List.flatten_nil, List.append_nil,
        Lines.cut_of_not_mem hpending]
      rfl
    rw [hlines]
    exact last_core finished d
  | cons t ts ih =>
    obtain ⟨hsize, hfits⟩ := hfits
    rw [List.length_cons] at hevents
    have htext : d.pending ++ logText (t :: ts) = (d.pending ++ normalize t) ++ logText ts := by
      simp [logText]
    rw [htext, rawLines_append, feed_append]
    set cut := Lines.cut '\n' (d.pending ++ normalize t) with hcut
    have hdrain := drain_core (H := H) { d with events := d.events + 1 } cut.1 cut.2
    have hsame : core { d with events := d.events + 1 } = d.core := rfl
    rw [hsame] at hdrain
    rw [decode, event_eq hsize (by omega), ← hcut, ← hdrain]
    cases hresult : drain H { d with events := d.events + 1 } cut.1 cut.2 with
    | error e => rfl
    | ok r =>
      obtain ⟨more, d'⟩ := r
      cases more with
      | false => rfl
      | true =>
        obtain ⟨hrest, hcount⟩ := drain_keeps hresult
        have hrec := ih (d := d') (by rw [hrest]; exact (Lines.not_mem_cut '\n' _).2)
          (by rw [hrest]; exact hfits) (by rw [hcount]; dsimp only; omega)
        rw [hrest] at hrec
        exact hrec

/-! ### Lines on the way to a page, and in it -/

/-- Some more of the log is counted and hashed. -/
def read (d : LogDecoder) (data : List Char) : LogDecoder :=
  { d with digest := d.digest ++ data, consumed := d.consumed + byteSize data }

/-- A line goes into the page. -/
def emit (d : LogDecoder) (data : List Char) : LogDecoder :=
  { d.read data with output := d.output ++ data, lines := d.lines + 1 }

theorem read_read (d : LogDecoder) (s t : List Char) : (d.read s).read t = d.read (s ++ t) := by
  simp [read, Nat.add_assoc]

theorem read_nil (d : LogDecoder) : d.read [] = d := by
  simp [read]

variable {l : List Char} {ls : List (List Char)}

theorem accept_before (h : d.consumed + byteSize (redactedLine d.token l) < d.page.offset)
    (hmax : d.page.offset ≤ maxLogInput) :
    accept H d (l ++ ['\n']) = .ok (true, d.read (redactedLine d.token l)) := by
  unfold accept
  rw [show redact d.token (l ++ ['\n']) = redactedLine d.token l from rfl]
  dsimp only
  rw [if_neg (by simp only [Bool.or_eq_true, Bool.and_eq_true, decide_eq_true_eq]; omega), if_pos h]
  rfl

theorem accept_at (h : d.consumed + byteSize (redactedLine d.token l) = d.page.offset)
    (hpos : 0 < byteSize (redactedLine d.token l)) (hmax : d.page.offset ≤ maxLogInput)
    (hdigest : H.sum (d.digest ++ redactedLine d.token l) = d.page.logPrefix) :
    accept H d (l ++ ['\n']) =
      .ok (true, { d.read (redactedLine d.token l) with matched := true }) := by
  unfold accept
  rw [show redact d.token (l ++ ['\n']) = redactedLine d.token l from rfl]
  dsimp only
  rw [if_neg (by simp only [Bool.or_eq_true, Bool.and_eq_true, decide_eq_true_eq]; omega),
    if_neg (by omega), if_pos h, if_neg (by simpa using hdigest)]
  rfl

theorem accept_full (h : d.page.offset ≤ d.consumed)
    (hfull : maxLogBytes < byteSize d.output + byteSize (redactedLine d.token l)) :
    accept H d (l ++ ['\n']) = .ok (false, { d with truncated := true }) := by
  unfold accept
  rw [show redact d.token (l ++ ['\n']) = redactedLine d.token l from rfl]
  dsimp only
  rw [if_pos (by simp [h, hfull])]
  rfl

theorem accept_page (h : d.page.offset ≤ d.consumed) (hmatched : d.matched = true)
    (hpos : 0 < byteSize (redactedLine d.token l))
    (hroom : byteSize d.output + byteSize (redactedLine d.token l) ≤ maxLogBytes)
    (hmax : d.consumed + byteSize (redactedLine d.token l) ≤ maxLogInput)
    (hcount : (redactedLine d.token l).count '\n' = 1) :
    accept H d (l ++ ['\n']) =
      .ok (decide (d.lines + 1 < d.page.lineLimit), d.emit (redactedLine d.token l)) := by
  unfold accept
  rw [show redact d.token (l ++ ['\n']) = redactedLine d.token l from rfl]
  dsimp only
  rw [if_neg (by simp only [Bool.or_eq_true, Bool.and_eq_true, decide_eq_true_eq]; omega),
    if_neg (by omega), if_neg (by omega), if_neg (by simp [hmatched]), hcount]
  rfl

variable (htoken : validToken d.token = true) (hls : ∀ l ∈ ls, '\n' ∉ l)
include htoken hls

theorem feed_before
    (h : d.consumed + byteSize (ls.map (redactedLine d.token)).flatten < d.page.offset)
    (hmax : d.page.offset ≤ maxLogInput) :
    feed H d ls = .ok (true, d.read (ls.map (redactedLine d.token)).flatten) := by
  induction ls generalizing d with
  | nil =>
    rw [List.map_nil, List.flatten_nil, read_nil]
    rfl
  | cons l ls ih =>
    rw [List.map_cons, List.flatten_cons, byteSize_append] at h
    have hrest : (d.read (redactedLine d.token l)).consumed +
        byteSize (ls.map (redactedLine d.token)).flatten < d.page.offset := by
      simp only [read]
      omega
    rw [feed, accept_before (by omega) hmax, List.map_cons, List.flatten_cons, ← read_read]
    exact ih htoken (fun l' hl' => hls l' (by simp [hl'])) hrest hmax

theorem feed_at (hne : ls ≠ [])
    (h : d.consumed + byteSize (ls.map (redactedLine d.token)).flatten = d.page.offset)
    (hmax : d.page.offset ≤ maxLogInput)
    (hdigest : H.sum (d.digest ++ (ls.map (redactedLine d.token)).flatten) = d.page.logPrefix) :
    feed H d ls =
      .ok (true, { d.read (ls.map (redactedLine d.token)).flatten with matched := true }) := by
  obtain ⟨init, l, rfl⟩ := (List.eq_nil_or_concat ls).resolve_left hne
  rw [List.concat_eq_append] at *
  have hl := redactedLine_pos htoken (hls l (by simp))
  have hinit : ∀ m ∈ init, '\n' ∉ m := fun m hm => hls m (by simp [hm])
  rw [List.map_append, List.flatten_append] at *
  simp only [List.map_cons, List.map_nil, List.flatten_cons, List.flatten_nil, List.append_nil] at *
  rw [byteSize_append] at h
  rw [feed_append, feed_before htoken hinit (by omega) hmax]
  change feed H (d.read (init.map (redactedLine d.token)).flatten) [l] = _
  rw [feed, accept_at (d := d.read (init.map (redactedLine d.token)).flatten)]
  · rw [← read_read]
    rfl
  · simp only [read]
    omega
  · exact hl
  · exact hmax
  · simpa [read] using hdigest

/-- The page takes some of the lines that follow, and stops only where it has to. -/
theorem feed_page (h : d.page.offset ≤ d.consumed) (hmatched : d.matched = true)
    (hmax : d.consumed + byteSize (ls.map (redactedLine d.token)).flatten ≤ maxLogInput) :
    ∃ more d' m, feed H d ls = .ok (more, d') ∧ m ≤ ls.length ∧
      d'.digest = d.digest ++ ((ls.map (redactedLine d.token)).take m).flatten ∧
      d'.consumed = d.consumed + byteSize ((ls.map (redactedLine d.token)).take m).flatten ∧
      d'.output = d.output ++ ((ls.map (redactedLine d.token)).take m).flatten ∧ d'.matched = true ∧
      ∀ l ∈ ls.head?, m = 0 ↔
        maxLogBytes < byteSize d.output + byteSize (redactedLine d.token l) := by
  induction ls generalizing d with
  | nil => exact ⟨true, d, 0, rfl, le_refl _, by simp, by simp, by simp, hmatched, by simp⟩
  | cons l ls ih =>
    have hl := redactedLine_pos htoken (hls l (by simp))
    have hcount := count_redactedLine htoken (hls l (by simp))
    rw [List.map_cons, List.flatten_cons, byteSize_append] at hmax
    by_cases hfull : maxLogBytes < byteSize d.output + byteSize (redactedLine d.token l)
    · refine ⟨false, { d with truncated := true }, 0, ?_,
        Nat.zero_le _, by simp, by simp, by simp, hmatched, fun l' hl' => ?_⟩
      · rw [feed, accept_full h hfull]
        rfl
      · obtain rfl : l = l' := by simpa using hl'
        exact iff_of_true rfl hfull
    · have hprogress (m : ℕ) : ∀ l' ∈ (l :: ls).head?,
          m + 1 = 0 ↔ maxLogBytes < byteSize d.output + byteSize (redactedLine d.token l') := by
        intro l' hl'
        obtain rfl : l = l' := by simpa using hl'
        exact iff_of_false (by omega) hfull
      rw [feed, accept_page h hmatched hl (by omega) (by omega) hcount]
      by_cases hmore : d.lines + 1 < d.page.lineLimit
      · have hoffset : (d.emit (redactedLine d.token l)).page.offset ≤
            (d.emit (redactedLine d.token l)).consumed := by
          simp only [emit, read]
          omega
        have hrest : (d.emit (redactedLine d.token l)).consumed +
            byteSize (ls.map (redactedLine d.token)).flatten ≤ maxLogInput := by
          simp only [emit, read]
          omega
        obtain ⟨more, d', m, hfeed, hm, hdigest, hconsumed, houtput, hmatched', -⟩ :=
          ih (d := d.emit (redactedLine d.token l)) htoken
            (fun m hm => hls m (by simp [hm])) hoffset
            hmatched hrest
        refine ⟨more, d', m + 1, ?_, by simpa using hm, ?_, ?_, ?_, hmatched', hprogress m⟩
        · rw [decide_eq_true hmore]
          exact hfeed
        · rw [hdigest]
          simp [emit, read]
        · rw [hconsumed]
          simp [emit, read, Nat.add_assoc]
        · rw [houtput]
          simp [emit, read]
      · refine ⟨false, d.emit (redactedLine d.token l), 1, ?_, by simp, by simp [emit, read],
          by simp [emit, read], by simp [emit], hmatched, hprogress 0⟩
        rw [decide_eq_false hmore]
        rfl

omit htoken hls

/-! ### The end of the log -/

theorem drain_ended {ls : List (List Char)} {rest : List Char}
    (h : drain H d ls rest = .ok (more, d')) : d'.ended = d.ended := by
  induction ls generalizing d with
  | nil =>
    rw [drain, pure_eq_ok] at h
    cases h
    rfl
  | cons l ls ih =>
    simp only [drain, bind_eq_ok, Prod.exists] at h
    obtain ⟨more', mid, haccept, h⟩ := h
    have hmid := (accept_keeps haccept).2.2
    split_ifs at h
    · exact (ih h).trans hmid
    · cases h
      exact hmid

/-- A read that is interrupted does not see the end. -/
theorem decode_ended {xs : List (List Char)} (h : decode H false d xs = .ok d') :
    d'.ended = d.ended := by
  induction xs generalizing d with
  | nil => cases h; rfl
  | cons t ts ih =>
    simp only [decode, bind_eq_ok, Prod.exists] at h
    obtain ⟨more, mid, hevent, h⟩ := h
    have hmid : mid.ended = d.ended := by
      simp only [event] at hevent
      split_ifs at hevent
      · cases hevent
        rfl
      · exact (drain_ended hevent :)
    split_ifs at h
    · exact (ih h).trans hmid
    · cases h
      exact hmid

end LogDecoder

/-! ### A page -/

/-- The lines of the log, as they are shown. -/
def shownLines (token : List Char) (finished : Bool) (xs : List (List Char)) : List (List Char) :=
  (rawLines finished (logText xs)).map (redactedLine token)

/-- The events, and what is shown of them, are within the limits of the decoder. -/
structure Within (token : List Char) (finished : Bool) (xs : List (List Char)) : Prop where
  fits : Fits [] xs
  events : xs.length ≤ maxLogEvents
  size : byteSize (shownLines token finished xs).flatten ≤ maxLogInput

/-- The page begins behind some first lines of the log. -/
def LogRequest.Behind (H : LogDigest) (page : LogRequest) (lines : List (List Char)) : Prop :=
  page.offset = byteSize lines.flatten ∧
    (page.logPrefix = H.sum lines.flatten ∨ lines = [] ∧ page.logPrefix = "")

variable {H : LogDigest} {token : List Char} {page : LogRequest}

theorem LogRequest.Behind.valid {lines : List (List Char)} (h : page.Behind H lines)
    (hsize : byteSize lines.flatten ≤ maxLogInput)
    (hlimit : 1 ≤ page.lineLimit ∧ page.lineLimit ≤ 100) : page.valid = true := by
  obtain ⟨hoffset, hdigest | ⟨rfl, hdigest⟩⟩ := h
  · have hvalid := H.valid lines.flatten
    have hne : page.logPrefix ≠ "" := by
      rw [hdigest]
      intro hempty
      rw [hempty] at hvalid
      exact absurd hvalid (by decide)
    rw [← hdigest] at hvalid
    simp [LogRequest.valid, hoffset, hsize, hlimit, hne, hvalid]
  · simp [LogRequest.valid, hoffset, hlimit, hdigest]

/-- A page finds its place, and goes on from there with whole lines. -/
theorem feed_behind {as bs : List (List Char)} (htoken : validToken token = true)
    (hlines : ∀ l ∈ as ++ bs, '\n' ∉ l) (hbehind : page.Behind H (as.map (redactedLine token)))
    (hmax : byteSize ((as ++ bs).map (redactedLine token)).flatten ≤ maxLogInput) :
    ∃ more d m, LogDecoder.feed H (newLogDecoder H page token) (as ++ bs) = .ok (more, d) ∧
      m ≤ bs.length ∧
      d.digest = (as.map (redactedLine token)).flatten ++
        ((bs.map (redactedLine token)).take m).flatten ∧
      d.consumed = byteSize (as.map (redactedLine token)).flatten +
        byteSize ((bs.map (redactedLine token)).take m).flatten ∧
      d.output = ((bs.map (redactedLine token)).take m).flatten ∧ d.matched = true ∧
      ∀ l ∈ bs.head?, m = 0 ↔ maxLogBytes < byteSize (redactedLine token l) := by
  obtain ⟨hoffset, hdigest⟩ := hbehind
  have has : ∀ l ∈ as, '\n' ∉ l := fun l hl => hlines l (by simp [hl])
  have hbs : ∀ l ∈ bs, '\n' ∉ l := fun l hl => hlines l (by simp [hl])
  rw [List.map_append, List.flatten_append, byteSize_append] at hmax
  by_cases hne : as = []
  · subst hne
    rw [List.map_nil, List.flatten_nil, byteSize_nil] at hoffset
    have hmatched : (newLogDecoder H page token).matched = true := by
      rcases hdigest with hdigest | ⟨-, hdigest⟩ <;> simp [newLogDecoder, hoffset, hdigest]
    obtain ⟨more, d, m, h⟩ :=
      LogDecoder.feed_page (H := H) (d := newLogDecoder H page token) htoken hbs
      (by rw [show (newLogDecoder H page token).page = page from rfl, hoffset]; exact Nat.zero_le _)
      hmatched (by simpa [newLogDecoder] using hmax)
    exact ⟨more, d, m, by simpa [newLogDecoder] using h⟩
  · have hdigest' : H.sum (as.map (redactedLine token)).flatten = page.logPrefix := by
      rcases hdigest with hdigest | ⟨hnil, -⟩
      · exact hdigest.symm
      · exact absurd (List.map_eq_nil_iff.mp hnil) hne
    have hskip := LogDecoder.feed_at (H := H) (d := newLogDecoder H page token) htoken has hne
      (by
        rw [show (newLogDecoder H page token).page = page from rfl, hoffset]
        exact Nat.zero_add _)
      (by rw [show (newLogDecoder H page token).page = page from rfl, hoffset]; omega) hdigest'
    obtain ⟨more, d, m, h⟩ := LogDecoder.feed_page (H := H)
      (d := { (newLogDecoder H page token).read
        (as.map (redactedLine token)).flatten with matched := true })
      htoken hbs (le_of_eq (by rw [← Nat.zero_add (byteSize _)] at hoffset; exact hoffset)) rfl
      (by simpa [newLogDecoder, LogDecoder.read] using hmax)
    refine ⟨more, d, m, ?_, by simpa [newLogDecoder, LogDecoder.read] using h.2⟩
    rw [LogDecoder.feed_append, hskip]
    exact h.1

/-- What a page shows: the lines from where it was asked for to where the next one is. -/
structure LogReplay.Shows (H : LogDigest) (rep : LogReplay) (lines : List (List Char))
    (k m : ℕ) : Prop where
  order : k ≤ m
  bound : m ≤ lines.length
  text : rep.text = ((lines.take m).drop k).flatten
  offset : rep.offset = byteSize (lines.take m).flatten
  digest : rep.logPrefix = H.sum (lines.take m).flatten

section OfDecode

variable {xs : List (List Char)} {finished : Bool} {d : LogDecoder} (state : KernelState)
  (hlimit : 1 ≤ page.lineLimit) (hvalid : page.valid = true)
  (hdecode : LogDecoder.decode H finished (newLogDecoder H page token) xs = .ok d)
include hlimit hvalid hdecode

/-- A decoder that found its place is what the replay is made of. -/
theorem readLogs_matched (hmatched : d.matched = true) :
    ∃ rep, readLogs H token state page xs finished = .ok rep ∧ rep.text = d.output ∧
      rep.offset = d.consumed ∧ rep.logPrefix = H.sum d.digest := by
  unfold readLogs
  rw [if_neg (show page.lineLimit ≠ 0 by omega)]
  refine ⟨_, bind_eq_ok.mpr ⟨(), ensure_eq_ok.mpr hvalid, bind_eq_ok.mpr ⟨d, hdecode,
    bind_eq_ok.mpr ⟨(), ensure_eq_ok.mpr hmatched, rfl⟩⟩⟩, rfl, rfl, rfl⟩

theorem readLogs_unmatched (hmatched : d.matched = false) :
    readLogs H token state page xs finished =
      .error (if d.ended then .changed else .transport) := by
  unfold readLogs
  rw [if_neg (show page.lineLimit ≠ 0 by omega)]
  simp only [hvalid, hdecode]
  change (ensure d.matched _ >>= _) = _
  rw [hmatched]
  rfl

end OfDecode

/-- A replay from the beginning depends on the lines of the log. -/
theorem decode_new (page : LogRequest) (token : List Char) {xs : List (List Char)} (finished : Bool)
    (hfits : Fits [] xs) (hevents : xs.length ≤ maxLogEvents) :
    (LogDecoder.decode H finished (newLogDecoder H page token) xs).map LogDecoder.core =
      (LogDecoder.feed H (newLogDecoder H page token) (rawLines finished (logText xs))).map
        Prod.snd :=
  LogDecoder.decode_eq (d := newLogDecoder H page token) List.not_mem_nil hfits
    (by simpa [newLogDecoder] using hevents)

/-- A read of a page that begins behind a line that it sees. It shows nothing only if there is
nothing more, or if the next line is too long for any page. -/
theorem readLogs_behind {xs : List (List Char)} {finished : Bool} {k : ℕ} (state : KernelState)
    (htoken : validToken token = true) (hxs : Within token finished xs)
    (hlimit : 1 ≤ page.lineLimit ∧ page.lineLimit ≤ 100)
    (hk : k ≤ (shownLines token finished xs).length)
    (hbehind : page.Behind H ((shownLines token finished xs).take k)) :
    ∃ rep m, readLogs H token state page xs finished = .ok rep ∧
      rep.Shows H (shownLines token finished xs) k m ∧
      ∀ l ∈ (shownLines token finished xs)[k]?, m = k ↔ maxLogBytes < byteSize l := by
  obtain ⟨hfits, hevents, hsize⟩ := hxs
  set raw := rawLines finished (logText xs) with hraw
  have hlines : ∀ l ∈ raw.take k ++ raw.drop k, '\n' ∉ l := by
    rw [List.take_append_drop]
    exact fun l hl => not_mem_rawLines hl
  have hshown : shownLines token finished xs = raw.map (redactedLine token) := rfl
  rw [hshown] at hk hbehind hsize ⊢
  rw [← List.map_take] at hbehind
  obtain ⟨more, d, m, hfeed, hm, hdigest, hconsumed, houtput, hmatched, hprogress⟩ :=
    feed_behind htoken hlines hbehind (by rwa [List.take_append_drop])
  rw [List.take_append_drop] at hfeed
  -- the decoder after the events is the one after the lines, up to its account of the events
  have hdecode := decode_new (H := H) page token finished hfits hevents
  rw [← hraw, hfeed] at hdecode
  cases hresult : LogDecoder.decode H finished (newLogDecoder H page token) xs with
  | error e => rw [hresult] at hdecode; cases hdecode
  | ok d' =>
    rw [hresult] at hdecode
    have hcore : d'.core = d := Except.ok.inj hdecode
    have htake : ((raw.map (redactedLine token)).take (k + m)).flatten =
        ((raw.take k).map (redactedLine token)).flatten ++
          (((raw.drop k).map (redactedLine token)).take m).flatten := by
      rw [List.take_add, List.flatten_append, List.map_take, List.map_drop]
    have hdrop : ((raw.map (redactedLine token)).take (k + m)).drop k =
        ((raw.drop k).map (redactedLine token)).take m := by
      rw [List.drop_take, List.map_drop, Nat.add_sub_cancel_left]
    have hvalid : page.valid = true := by
      refine hbehind.valid (le_trans ?_ hsize) hlimit
      rw [← List.take_append_drop k raw, List.map_append, List.flatten_append, byteSize_append]
      simp
    obtain ⟨rep, hrep, htext, hoffset, hlead⟩ :=
      readLogs_matched state hlimit.1 hvalid hresult (by rw [← hcore] at hmatched; exact hmatched)
    refine ⟨rep, k + m, hrep, ⟨by omega, ?_, ?_, ?_, ?_⟩, ?_⟩
    · rw [List.length_map] at hk ⊢
      rw [List.length_drop] at hm
      omega
    · rw [htext, hdrop, ← houtput, ← hcore]
      rfl
    · rw [hoffset, htake, byteSize_append, ← hconsumed, ← hcore]
      rfl
    · rw [hlead, htake, ← hdigest, ← hcore]
      rfl
    · intro l hl
      rw [List.getElem?_map] at hl
      obtain ⟨l', hl', rfl⟩ := Option.map_eq_some_iff.mp hl
      rw [← hprogress l' (by rw [List.head?_drop]; exact hl')]
      omega

/-- A read that does not come as far as the page. -/
theorem readLogs_short {xs : List (List Char)} (state : KernelState)
    (htoken : validToken token = true)
    (hxs : Within token false xs) (hvalid : page.valid = true) (hlimit : 1 ≤ page.lineLimit)
    (hshort : byteSize (shownLines token false xs).flatten < page.offset) :
    readLogs H token state page xs false = .error .transport := by
  have hmax : page.offset ≤ maxLogInput := by
    simp only [LogRequest.valid, Bool.and_eq_true, decide_eq_true_eq] at hvalid
    exact hvalid.1.1.1.1
  have hlines : ∀ l ∈ rawLines false (logText xs), '\n' ∉ l := fun l hl => not_mem_rawLines hl
  have hfeed := LogDecoder.feed_before (H := H) (d := newLogDecoder H page token) htoken hlines
    (lt_of_eq_of_lt (Nat.zero_add _) hshort) hmax
  have hdecode := decode_new (H := H) page token false hxs.fits hxs.events
  rw [hfeed] at hdecode
  cases hresult : LogDecoder.decode H false (newLogDecoder H page token) xs with
  | error e => rw [hresult] at hdecode; cases hdecode
  | ok d =>
    rw [hresult] at hdecode
    have hcore : d.core = _ := Except.ok.inj hdecode
    have hmatched : d.matched = false := by
      rw [show d.matched = d.core.matched from rfl, hcore]
      simp [LogDecoder.read, newLogDecoder, show page.offset ≠ 0 by omega]
    have hended : d.ended = false := LogDecoder.decode_ended hresult
    rw [readLogs_unmatched state hlimit hvalid hresult hmatched, hended]
    rfl

end Kaggle
end ComputeRelay
