import Mathlib.Tactic
import ComputeRelay.Kaggle.Replay

/-!
# Following a log from page to page

A reader asks for each page with the offset and the digest that it got with the one before. However
much of the log each read sees, the pages go on one behind the other and are cut out of the redacted
log at ends of lines. A page gets nowhere only where a line is too long for any page: the size of an
event bounds the line before it is redacted and before the newline at the end of the log is put
behind it.
-/

namespace ComputeRelay
namespace Kaggle

open Fallible

/-! ### A reader -/

/-- Where a reader goes on: the offset and the digest of the last page. -/
structure LogCursor where
  offset : ℕ := 0
  logPrefix : String := ""
  deriving DecidableEq

/-- One read of the log. It sees the first `seen` events, and the end of the log only behind all of
them. -/
structure LogRead where
  seen : ℕ
  finished : Bool
  lineLimit : ℕ
  state : KernelState

/-- The request for the next page. -/
def LogCursor.request (c : LogCursor) (lineLimit : ℕ) : LogRequest :=
  ⟨c.offset, c.logPrefix, lineLimit⟩

/-- A page that could not be read leaves the reader where it is. -/
def LogCursor.next (c : LogCursor) : Except LogErr LogReplay → LogCursor
  | .ok rep => ⟨rep.offset, rep.logPrefix⟩
  | .error _ => c

variable (H : LogDigest) (token : List Char) (xs : List (List Char))

/-- The page of one read. -/
def turn (c : LogCursor) (r : LogRead) : Except LogErr LogReplay :=
  readLogs H token r.state (c.request r.lineLimit) (xs.take r.seen) r.finished

/-- The pages of some reads, each with where it was asked for. -/
def follow (c : LogCursor) : List LogRead → List (LogCursor × Except LogErr LogReplay)
  | [] => []
  | r :: rs => (c, turn H token xs c r) :: follow (c.next (turn H token xs c r)) rs

/-- Where the reader is then. -/
def cursorAfter (c : LogCursor) (rs : List LogRead) : LogCursor :=
  rs.foldl (fun c r => c.next (turn H token xs c r)) c

/-- What the reader got from a page. -/
def received : Except LogErr LogReplay → List Char
  | .ok rep => rep.text
  | .error _ => []

/-- The read keeps to the limits of a page, and sees the end of the log only behind the whole of
it. -/
structure LogRead.Sound (r : LogRead) : Prop where
  positive : 1 ≤ r.lineLimit
  limit : r.lineLimit ≤ 100
  whole : r.finished = true → xs.length ≤ r.seen

variable {H token xs}

/-! ### What one read sees -/

theorem fits_take {pending : List Char} (h : Fits pending xs) (n : ℕ) :
    Fits pending (xs.take n) := by
  induction xs generalizing pending n with
  | nil => simpa using h
  | cons t ts ih =>
    cases n with
    | zero => trivial
    | succ n => exact ⟨h.1, ih h.2 n⟩

theorem shownLines_take (n : ℕ) :
    shownLines token false (xs.take n) <+: shownLines token true xs := by
  have htext : logText xs = logText (xs.take n) ++ logText (xs.drop n) := by
    simp only [logText]
    rw [← List.flatten_append, ← List.map_append, List.take_append_drop]
  have hraw : rawLines false (logText (xs.take n)) <+: rawLines true (logText xs) := by
    rw [htext, rawLines_append, rawLines, Bool.false_and, if_neg Bool.false_ne_true,
      List.append_nil]
    exact List.prefix_append _ _
  exact hraw.map _

theorem LogRead.Sound.shownLines {r : LogRead} (hr : r.Sound xs) :
    shownLines token r.finished (xs.take r.seen) <+: shownLines token true xs := by
  cases hfinished : r.finished with
  | false => exact shownLines_take r.seen
  | true => rw [List.take_of_length_le (hr.whole hfinished)]

theorem byteSize_flatten_le {as bs : List (List Char)} (h : as <+: bs) :
    byteSize as.flatten ≤ byteSize bs.flatten := by
  obtain ⟨cs, rfl⟩ := h
  simp

theorem LogRead.Sound.within {r : LogRead} (hr : r.Sound xs) (hxs : Within token true xs) :
    Within token r.finished (xs.take r.seen) where
  fits := fits_take hxs.fits r.seen
  events := le_trans (List.length_take_le' _ _) hxs.events
  size := le_trans (byteSize_flatten_le hr.shownLines) hxs.size

theorem pos_of_mem_shownLines {finished : Bool} {l : List Char} (htoken : validToken token = true)
    (hl : l ∈ shownLines token finished xs) : 0 < byteSize l := by
  obtain ⟨l', hl', rfl⟩ := List.mem_map.mp hl
  exact redactedLine_pos htoken (not_mem_rawLines hl')

theorem byteSize_take_lt {lines : List (List Char)} (hpos : ∀ l ∈ lines, 0 < byteSize l)
    {j k : ℕ} (hjk : j < k)
    (hj : j < lines.length) :
    byteSize (lines.take j).flatten < byteSize (lines.take k).flatten := by
  have hmore :=
    byteSize_flatten_le (List.take_prefix_take_left (l := lines) (show j + 1 ≤ k by omega))
  rw [List.take_succ_eq_append_getElem hj, List.flatten_append, byteSize_append] at hmore
  have := hpos _ (List.getElem_mem hj)
  simp only [List.flatten_cons, List.flatten_nil, List.append_nil] at hmore
  omega

theorem LogReplay.Shows.of_prefix {rep : LogReplay} {as bs : List (List Char)} {k m : ℕ}
    (h : rep.Shows H as k m) (hlead : as <+: bs) : rep.Shows H bs k m := by
  have htake : as.take m = bs.take m := by
    obtain ⟨cs, rfl⟩ := hlead
    rw [List.take_append_of_le_length h.bound]
  exact ⟨h.order, h.bound.trans hlead.length_le, htake ▸ h.text, htake ▸ h.offset, htake ▸ h.digest⟩

/-- The next page is behind the lines that were shown. -/
theorem LogReplay.Shows.behind {rep : LogReplay} {lines : List (List Char)} {k m : ℕ}
    (h : rep.Shows H lines k m)
    (c : LogCursor) (lineLimit : ℕ) :
    ((c.next (.ok rep)).request lineLimit).Behind H (lines.take m) :=
  ⟨h.offset, .inl h.digest⟩

theorem LogRequest.Behind.request {c : LogCursor} {lines : List (List Char)} {n : ℕ}
    (h : (c.request n).Behind H lines) (n' : ℕ) : (c.request n').Behind H lines := h

/-- A read fails only by not coming as far as the page. -/
theorem turn_cases {c : LogCursor} {r : LogRead} {k : ℕ} (htoken : validToken token = true)
    (hxs : Within token true xs) (hr : r.Sound xs) (hk : k ≤ (shownLines token true xs).length)
    (hbehind : (c.request r.lineLimit).Behind H ((shownLines token true xs).take k)) :
    turn H token xs c r = .error .transport ∨
      ∃ rep m, turn H token xs c r = .ok rep ∧ rep.Shows H (shownLines token true xs) k m := by
  have hlead : shownLines token r.finished (xs.take r.seen) <+: shownLines token true xs :=
    hr.shownLines
  have hwithin := hr.within hxs
  have htake (h : k ≤ (shownLines token r.finished (xs.take r.seen)).length) :
      (shownLines token true xs).take k =
        (shownLines token r.finished (xs.take r.seen)).take k := by
    obtain ⟨more, hmore⟩ := hlead
    rw [← hmore, List.take_append_of_le_length h]
  by_cases hsees : k ≤ (shownLines token r.finished (xs.take r.seen)).length
  · rw [htake hsees] at hbehind
    obtain ⟨rep, m, hrep, hshows, -⟩ :=
      readLogs_behind r.state htoken hwithin ⟨hr.positive, hr.limit⟩ hsees hbehind
    exact .inr ⟨rep, m, hrep, hshows.of_prefix hlead⟩
  · left
    have hfinished : r.finished = false := by
      by_contra hfinished
      rw [Bool.not_eq_false] at hfinished
      rw [hfinished, List.take_of_length_le (hr.whole hfinished)] at hsees
      exact hsees hk
    have hshort : byteSize (shownLines token r.finished (xs.take r.seen)).flatten < c.offset := by
      have hlt := byteSize_take_lt (fun l hl => pos_of_mem_shownLines htoken hl) (not_le.mp hsees)
        (lt_of_lt_of_le (not_le.mp hsees) hk)
      rw [← List.prefix_iff_eq_take.mp hlead, ← hbehind.1] at hlt
      exact hlt
    have hvalid : (c.request r.lineLimit).valid = true :=
      hbehind.valid (le_trans (byteSize_flatten_le (List.take_prefix _ _)) hxs.size)
        ⟨hr.positive, hr.limit⟩
    rw [hfinished] at hwithin hshort
    rw [turn, hfinished]
    exact readLogs_short r.state htoken hwithin hvalid hr.positive hshort

/-! ### Pages put together -/

/-- What a page is: the lines between two ends of lines, those that its cursor and the next one
name. -/
def Slice (lines : List (List Char)) (c : LogCursor) (rep : LogReplay) : Prop :=
  ∃ k m, k ≤ m ∧ m ≤ lines.length ∧ c.offset = byteSize (lines.take k).flatten ∧
    rep.offset = byteSize (lines.take m).flatten ∧ rep.text = ((lines.take m).drop k).flatten

theorem follow_slices {reads : List LogRead} (htoken : validToken token = true)
    (hxs : Within token true xs)
    (hreads : ∀ r ∈ reads, r.Sound xs) {c : LogCursor} {k : ℕ}
    (hk : k ≤ (shownLines token true xs).length)
    (hbehind : (c.request 1).Behind H ((shownLines token true xs).take k)) :
    (∀ s ∈ follow H token xs c reads, s.2 ≠ .error .changed ∧
      ∀ rep, s.2 = .ok rep → Slice (shownLines token true xs) s.1 rep) ∧
    ((follow H token xs c reads).map fun s => received s.2).flatten <+:
      ((shownLines token true xs).drop k).flatten := by
  induction reads generalizing c k with
  | nil => exact ⟨fun s hs => absurd hs List.not_mem_nil, List.nil_prefix⟩
  | cons r rs ih =>
    have hrs : ∀ r ∈ rs, r.Sound xs := fun r hr => hreads r (List.mem_cons_of_mem _ hr)
    rw [follow]
    rcases turn_cases htoken hxs (hreads r List.mem_cons_self) hk hbehind with
      hturn | ⟨rep, m, hturn, hshows⟩
    · rw [hturn]
      obtain ⟨hpages, htexts⟩ := ih hrs hk hbehind
      refine ⟨fun s hs => ?_, htexts⟩
      rcases List.mem_cons.mp hs with rfl | hs
      · exact ⟨by simp, fun rep hrep => by cases hrep⟩
      · exact hpages s hs
    · rw [hturn]
      obtain ⟨hpages, htexts⟩ := ih (c := c.next (.ok rep)) hrs hshows.bound (hshows.behind c 1)
      constructor
      · intro s hs
        rcases List.mem_cons.mp hs with rfl | hs
        · refine ⟨by simp, fun rep' hrep' => ?_⟩
          cases hrep'
          exact ⟨k, m, hshows.order, hshows.bound, hbehind.1, hshows.offset, hshows.text⟩
        · exact hpages s hs
      · have hsplit : (shownLines token true xs).drop k =
            ((shownLines token true xs).take m).drop k ++ (shownLines token true xs).drop m := by
          conv_lhs => rw [← List.take_append_drop m (shownLines token true xs)]
          have horder := hshows.order
          have hbound := hshows.bound
          rw [List.drop_append_of_le_length (by rw [List.length_take]; omega)]
        rw [List.map_cons, List.flatten_cons, hsplit, List.flatten_append, ← hshows.text]
        exact (List.prefix_append_right_inj _).mpr htexts

/-- A reader that goes on from page to page gets the log: no page is refused because the log has
changed, each is cut out of the redacted log where it was asked for, and together they are what the
log begins with. -/
theorem pages_reassemble (reads : List LogRead) (htoken : validToken token = true)
    (hxs : Within token true xs) (hreads : ∀ r ∈ reads, r.Sound xs) :
    (∀ s ∈ follow H token xs {} reads, s.2 ≠ .error .changed ∧
      ∀ rep, s.2 = .ok rep → Slice (shownLines token true xs) s.1 rep) ∧
    ((follow H token xs {} reads).map fun s => received s.2).flatten <+:
      (shownLines token true xs).flatten :=
  follow_slices htoken hxs hreads (Nat.zero_le _) ⟨rfl, .inr ⟨rfl, rfl⟩⟩

/-- A digest that tells only the parity of a text. -/
def parityDigest : LogDigest where
  sum t := String.ofList (List.replicate 63 '0' ++ [if t.length % 2 = 0 then '0' else '1'])
  valid t := by
    split_ifs <;> decide

def sampleToken : List Char := "tk".toList

/-- The second line has the token in it; it is complete only with the second event, the third one
only with the end of the log. -/
def sampleLog : List (List Char) := ["one\ntwo tk".toList, "x\n".toList, "end".toList]

/-- The third read is interrupted before it comes to its page. -/
def sampleReads : List LogRead :=
  [⟨1, false, 1, .other⟩, ⟨2, false, 1, .other⟩, ⟨1, false, 5, .other⟩, ⟨3, true, 100, .complete⟩]

theorem sampleLog_within : Within sampleToken true sampleLog where
  fits := by
    refine ⟨?_, ?_, ?_, trivial⟩ <;> decide +kernel
  events := by decide
  size := by decide +kernel

theorem sampleReads_sound : ∀ r ∈ sampleReads, r.Sound sampleLog := by
  simp only [sampleReads, List.forall_mem_cons, List.not_mem_nil, false_implies,
    implies_true, and_true]
  refine ⟨⟨?_, ?_, ?_⟩, ⟨?_, ?_, ?_⟩, ⟨?_, ?_, ?_⟩, ⟨?_, ?_, ?_⟩⟩ <;> decide

theorem sampleReads_receive :
    (follow parityDigest sampleToken sampleLog {} sampleReads).map (fun s => received s.2) =
      ["one\n".toList, "two [REDACTED]x\n".toList, [], "end\n".toList] := by
  decide +kernel

theorem sample_pages_reassemble :
    (follow parityDigest sampleToken sampleLog {} sampleReads).map (fun s => received s.2) =
        ["one\n".toList, "two [REDACTED]x\n".toList, [], "end\n".toList] ∧
      ((follow parityDigest sampleToken sampleLog {} sampleReads).map fun s =>
        received s.2).flatten <+:
        (shownLines sampleToken true sampleLog).flatten :=
  ⟨sampleReads_receive,
    (pages_reassemble sampleReads (by decide) sampleLog_within sampleReads_sound).2⟩

/-! ### Progress -/

variable {finished : Bool}

theorem one_le_count_of_mem_shownLines {l : List Char} (htoken : validToken token = true)
    (hl : l ∈ shownLines token finished xs) : l.count '\n' = 1 := by
  obtain ⟨l', hl', rfl⟩ := List.mem_map.mp hl
  exact count_redactedLine htoken (not_mem_rawLines hl')

/-- A page has a line in it when the next one is not where it is itself. -/
theorem LogReplay.Shows.count_pos {rep : LogReplay} {k m : ℕ} (htoken : validToken token = true)
    (h : rep.Shows H (shownLines token finished xs) k m) : 0 < rep.text.count '\n' ↔ m ≠ k := by
  have horder := h.order
  have hbound := h.bound
  rw [h.text]
  constructor
  · rintro hpos rfl
    rw [List.drop_take, Nat.sub_self, List.take_zero] at hpos
    exact absurd hpos (by simp)
  · intro hmk
    have hk : k < ((shownLines token finished xs).take m).length := by
      rw [List.length_take]
      omega
    have hmem : ((shownLines token finished xs).take m)[k] ∈ shownLines token finished xs :=
      List.mem_of_mem_take (List.getElem_mem hk)
    rw [List.drop_eq_getElem_cons hk, List.flatten_cons, List.count_append,
      one_le_count_of_mem_shownLines htoken hmem]
    omega

/-- If every line fits into a page, a reader that sees all that there is comes to its end. -/
theorem cursorAfter_end {reads : List LogRead} (htoken : validToken token = true)
    (hxs : Within token finished xs)
    (hfit : ∀ l ∈ shownLines token finished xs, byteSize l ≤ maxLogBytes)
    (hreads : ∀ r ∈ reads, r.finished = finished ∧ xs.length ≤ r.seen ∧ 1 ≤ r.lineLimit ∧
      r.lineLimit ≤ 100)
    {c : LogCursor} {k : ℕ} (hk : k ≤ (shownLines token finished xs).length)
    (hbehind : (c.request 1).Behind H ((shownLines token finished xs).take k))
    (henough : (shownLines token finished xs).length ≤ k + reads.length) :
    (cursorAfter H token xs c reads).offset = byteSize (shownLines token finished xs).flatten := by
  induction reads generalizing c k with
  | nil =>
    rw [List.length_nil, Nat.add_zero] at henough
    have hoffset := hbehind.1
    rw [List.take_of_length_le henough] at hoffset
    exact hoffset
  | cons r rs ih =>
    obtain ⟨hfinished, hseen, hlimit⟩ := hreads r List.mem_cons_self
    have hrs := fun r' hr' => hreads r' (List.mem_cons_of_mem r hr')
    obtain ⟨rep, m, hrep, hshows, hprogress⟩ :=
      readLogs_behind r.state htoken hxs hlimit hk (hbehind.request r.lineLimit)
    have hturn : turn H token xs c r = .ok rep := by
      rw [turn, List.take_of_length_le hseen, hfinished]
      exact hrep
    rw [List.length_cons] at henough
    have hmore : (shownLines token finished xs).length ≤ m + rs.length := by
      have horder := hshows.order
      by_cases hlast : k = (shownLines token finished xs).length
      · omega
      · have hlt : k < (shownLines token finished xs).length := by omega
        have hne := mt (hprogress _ (List.getElem?_eq_getElem hlt)).mp
          (not_lt.mpr (hfit _ (List.getElem_mem hlt)))
        omega
    rw [cursorAfter, List.foldl_cons, hturn]
    exact ih (c := c.next (.ok rep)) hrs hshows.bound (hshows.behind c 1) hmore

/-- Every page that begins before the end of the log shows a line, and a reader that goes on from
page to page comes to the end, exactly if every redacted line with its newline fits into a page. -/
theorem paging_progresses_iff (htoken : validToken token = true) (hxs : Within token finished xs) :
    ((∀ state page k, 1 ≤ page.lineLimit → page.lineLimit ≤ 100 →
      k < (shownLines token finished xs).length →
        page.Behind H ((shownLines token finished xs).take k) →
        ∃ rep, readLogs H token state page xs finished = .ok rep ∧ 0 < rep.text.count '\n') ∧
      ∀ c k reads, (c.request 1).Behind H ((shownLines token finished xs).take k) →
        k ≤ (shownLines token finished xs).length →
        (shownLines token finished xs).length ≤ k + reads.length →
        (∀ r ∈ reads, r.finished = finished ∧ xs.length ≤ r.seen ∧ 1 ≤ r.lineLimit ∧
          r.lineLimit ≤ 100) →
        (cursorAfter H token xs c reads).offset = byteSize (shownLines token finished xs).flatten) ↔
    ∀ l ∈ shownLines token finished xs, byteSize l ≤ maxLogBytes := by
  constructor
  · rintro ⟨hprogress, -⟩ l hl
    obtain ⟨k, hk, rfl⟩ := List.getElem_of_mem hl
    have hbehind : (LogRequest.mk (byteSize ((shownLines token finished xs).take k).flatten)
        (H.sum ((shownLines token finished xs).take k).flatten) 1).Behind H
        ((shownLines token finished xs).take k) := ⟨rfl, .inl rfl⟩
    obtain ⟨rep, hrep, hpos⟩ := hprogress .other _ k (le_refl 1) (by norm_num) hk hbehind
    obtain ⟨rep', m, hrep', hshows, hstuck⟩ :=
      readLogs_behind .other htoken hxs ⟨le_refl 1, by norm_num⟩ hk.le hbehind
    obtain rfl : rep = rep' := Except.ok.inj (hrep.symm.trans hrep')
    have hne := (hshows.count_pos htoken).mp hpos
    exact not_lt.mp (mt (hstuck _ (List.getElem?_eq_getElem hk)).mpr hne)
  · intro hfit
    constructor
    · intro state page k hpositive hlimit hk hbehind
      obtain ⟨rep, m, hrep, hshows, hstuck⟩ :=
        readLogs_behind state htoken hxs ⟨hpositive, hlimit⟩ hk.le hbehind
      have hne : m ≠ k :=
        mt (hstuck _ (List.getElem?_eq_getElem hk)).mp (not_lt.mpr (hfit _ (List.getElem_mem hk)))
      exact ⟨rep, hrep, (hshows.count_pos htoken).mpr hne⟩
    · intro c k reads hbehind hk henough hreads
      exact cursorAfter_end htoken hxs hfit hreads hk hbehind henough

/-- A reader of the sample that sees all of it comes to its end. -/
theorem sample_paging_progresses :
    (cursorAfter parityDigest sampleToken sampleLog {}
      (List.replicate 3 ⟨3, true, 1, .complete⟩)).offset =
      byteSize "one\ntwo [REDACTED]x\nend\n".toList := by
  have hfit : ∀ l ∈ shownLines sampleToken true sampleLog, byteSize l ≤ maxLogBytes := by
    decide +kernel
  have hlength : (shownLines sampleToken true sampleLog).length = 3 := by decide +kernel
  have hend :=
    ((paging_progresses_iff (H := parityDigest) (by decide) sampleLog_within).mpr hfit).2 {} 0
    (List.replicate 3 ⟨3, true, 1, .complete⟩) ⟨rfl, .inr ⟨rfl, rfl⟩⟩ (Nat.zero_le _)
      (le_of_eq hlength)
    (by
      intro r hr
      rw [List.eq_of_mem_replicate hr]
      decide)
  rw [hend]
  decide +kernel

/-! A line that is as long as an event may be, at the end of the log. -/

theorem found_replicate {p : Scan.Matcher Char} {c : Char} (hc : ∀ r, p (c :: r) = none)
    {d : List Char}
    (hd : Scan.found p d = false) (n : ℕ) : Scan.found p (List.replicate n c ++ d) = false := by
  induction n with
  | zero => exact hd
  | succ n ih =>
    rw [List.replicate_succ, List.cons_append, Scan.found, hc, ih]
    rfl

theorem byteSize_replicate (n : ℕ) (c : Char) : byteSize (List.replicate n c) = n * c.utf8Size := by
  simp [byteSize]

theorem normalize_replicate (n : ℕ) :
    LogDecoder.normalize (List.replicate n 'b') = List.replicate n 'b' := by
  have hplain (old : List Char)
      (hold : ∀ r, Scan.each (old.map fun c b => b == c) ('b' :: r) = none)
      (hnil : Scan.found (Scan.each (old.map fun c b => b == c)) [] = false) :
      replaceAll (List.replicate n 'b') old ['\n'] = List.replicate n 'b' := by
    have hfound := found_replicate hold hnil n
    rw [List.append_nil] at hfound
    exact Scan.sub_of_not_found hfound
  rw [LogDecoder.normalize, hplain _ (fun r => rfl) rfl, hplain _ (fun r => rfl) rfl]

theorem redactedLine_replicate (n : ℕ) :
    redactedLine sampleToken (List.replicate n 'b') = List.replicate n 'b' ++ ['\n'] := by
  rw [redactedLine, redact, replaceAll,
    Scan.sub_of_not_found (found_replicate (fun r => rfl) (by decide) n),
    Scan.sub_of_not_found (found_replicate (fun r => rfl) (by decide) n)]

def longLine : List Char := List.replicate maxLogEvent 'b'

theorem shownLines_longLine : shownLines sampleToken true [longLine] = [longLine ++ ['\n']] := by
  have htext : logText [longLine] = longLine := by
    rw [logText, List.map_cons, List.map_nil, List.flatten_cons, List.flatten_nil, List.append_nil]
    exact normalize_replicate _
  have hcut : Lines.cut '\n' longLine = ([], longLine) := by
    refine Lines.cut_of_not_mem fun hmem => ?_
    exact absurd (List.eq_of_mem_replicate hmem) (by decide)
  have hne : longLine ≠ [] := by
    rw [longLine, ne_eq, List.replicate_eq_nil_iff]
    decide
  rw [shownLines, htext, rawLines, hcut, if_pos (by simp [hne]), List.nil_append,
    List.map_singleton]
  exact congrArg (fun l => [l]) (redactedLine_replicate _)

theorem byteSize_longLine : byteSize longLine = maxLogEvent := by
  rw [longLine, byteSize_replicate]
  rfl

theorem longLine_within : Within sampleToken true [longLine] where
  fits := by
    refine ⟨?_, trivial⟩
    rw [List.nil_append, longLine, normalize_replicate]
    exact le_of_eq byteSize_longLine
  events := by decide
  size := by
    rw [shownLines_longLine, List.flatten_cons, List.flatten_nil, List.append_nil, byteSize_append,
      byteSize_longLine]
    decide

/-- The log has one line, and the page before it stays where it is. -/
theorem long_line_stuck :
    Within sampleToken true [longLine] ∧ (shownLines sampleToken true [longLine]).length = 1 ∧
      ∃ rep, readLogs parityDigest sampleToken .complete ⟨0, "", 100⟩ [longLine] true = .ok rep ∧
        rep.text = [] ∧ rep.offset = 0 := by
  refine ⟨longLine_within, by rw [shownLines_longLine]; rfl, ?_⟩
  have hbehind : (LogRequest.mk 0 "" 100).Behind parityDigest
      ((shownLines sampleToken true [longLine]).take 0) :=
    ⟨rfl, .inr ⟨rfl, rfl⟩⟩
  obtain ⟨rep, m, hrep, hshows, hstuck⟩ := readLogs_behind .complete (by decide) longLine_within
    ⟨by decide, by decide⟩ (Nat.zero_le _) hbehind
  have hm : m = 0 := by
    refine (hstuck (longLine ++ ['\n']) (by rw [shownLines_longLine]; rfl)).mpr ?_
    rw [byteSize_append, byteSize_longLine]
    decide
  subst hm
  exact ⟨rep, hrep, hshows.text, hshows.offset⟩

end Kaggle
end ComputeRelay
