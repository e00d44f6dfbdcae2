import Mathlib.Tactic
import ComputeRelay.Lib.LineEnds
import ComputeRelay.Kaggle.Paging

/-!
# A log in other events

The line ends of a log are made newlines event by event, while its lines are put together across
events. `logText_eq` says what that makes of a log in terms of the CR LF that its events divide, and
`pieces_agree_iff` that two ways to divide a log into events are read alike exactly if they divide
equally many of them between any two characters that end no line.
-/

namespace ComputeRelay
namespace Kaggle

open Fallible Scan LineEnds

/-! ### The ends of lines of one event -/

theorem replaceAll_cons_of_none {old new : List Char} {c : Char} {t : List Char}
    (h : each (old.map fun c b => b == c) (c :: t) = none) :
    replaceAll (c :: t) old new = c :: replaceAll t old new := by
  rw [replaceAll, sub, h]
  rfl

theorem replaceAll_cr (t : List Char) :
    replaceAll ('\r' :: t) ['\r'] ['\n'] = '\n' :: replaceAll t ['\r'] ['\n'] :=
  rfl

theorem replaceAll_crlf (t : List Char) :
    replaceAll ('\r' :: '\n' :: t) ['\r', '\n'] ['\n'] = '\n' :: replaceAll t ['\r', '\n'] ['\n'] :=
  rfl

theorem normalize_crlf (t : List Char) :
    LogDecoder.normalize ('\r' :: '\n' :: t) = '\n' :: LogDecoder.normalize t := by
  rw [LogDecoder.normalize, replaceAll_crlf, replaceAll_cons_of_none (by rfl)]
  rfl

theorem normalize_cr {t : List Char} (h : t.head? ≠ some '\n') :
    LogDecoder.normalize ('\r' :: t) = '\n' :: LogDecoder.normalize t := by
  have hnone : each (['\r', '\n'].map fun c b => b == c) ('\r' :: t) = none := by
    cases t with
    | nil => rfl
    | cons c t =>
      have hc : (c == '\n') = false := by simpa using h
      simp [each, hc]
  rw [LogDecoder.normalize, replaceAll_cons_of_none hnone, replaceAll_cr]
  rfl

theorem normalize_other {c : Char} (hr : c ≠ '\r') (t : List Char) :
    LogDecoder.normalize (c :: t) = c :: LogDecoder.normalize t := by
  rw [LogDecoder.normalize, replaceAll_cons_of_none (by simp [each, hr]),
    replaceAll_cons_of_none (by simp [each, hr])]
  rfl

/-- A character that begins no line end says nothing of the one before. -/
theorem strip_of_head {t : List Char} (h : t.head? ≠ some '\n') :
    strip true (t.map (·, false)) = strip false (t.map (·, false)) := by
  cases t with
  | nil => rfl
  | cons c t =>
    have hc : c ≠ '\n' := by simpa using h
    by_cases hr : c = '\r'
    · subst hr
      rw [List.map_cons, strip_cr, strip_cr]
    · rw [List.map_cons, strip_other hr hc, strip_other hr hc]

theorem normalize_eq (t : List Char) : LogDecoder.normalize t = strip false (t.map (·, false)) := by
  -- two characters at a time where a CR LF stands, so the induction is on the length
  induction h : t.length using Nat.strong_induction_on generalizing t with
  | _ n ih =>
    subst h
    cases t with
    | nil => rfl
    | cons c t =>
      have ht := ih t.length (by simp) t rfl
      by_cases hr : c = '\r'
      · subst hr
        by_cases hn : t.head? = some '\n'
        · obtain ⟨t, rfl⟩ : ∃ t', t = '\n' :: t' := ⟨t.tail, List.eq_cons_of_mem_head? hn⟩
          rw [normalize_crlf, ih t.length (by simp) t rfl, List.map_cons, List.map_cons,
            strip_cr, strip_lf]
          rfl
        · rw [normalize_cr hn, ht, List.map_cons, strip_cr, strip_of_head hn]
      · rw [normalize_other hr, ht, List.map_cons]
        simp [strip, hr]

/-! ### The text of some events -/

theorem strip_append (m rest : List (Char × Bool)) (after : Bool) :
    ∃ after', strip after (m ++ rest) = strip after m ++ strip after' rest := by
  induction m generalizing after with
  | nil => exact ⟨after, rfl⟩
  | cons x m ih =>
    obtain ⟨c, first⟩ := x
    simp only [List.cons_append, strip]
    split_ifs
    · exact (ih true).imp fun _ h => congrArg ('\n' :: ·) h
    · exact ih false
    · exact (ih false).imp fun _ h => congrArg (c :: ·) h

/-- Events begin anew. -/
theorem strip_marks (after : Bool) {t : List Char} :
    strip after (marks t) = LogDecoder.normalize t := by
  rw [normalize_eq]
  cases t with
  | nil => cases after <;> rfl
  | cons c t => cases after <;> simp [marks, strip]

theorem logText_eq (xs : List (List Char)) (after : Bool) :
    logText xs = strip after (marked xs) := by
  induction xs generalizing after with
  | nil => cases after <;> rfl
  | cons t ts ih =>
    obtain ⟨after', hsplit⟩ := strip_append (marks t) (marked ts) after
    rw [marked, List.map_cons, List.flatten_cons]
    change _ = strip after (marks t ++ marked ts)
    rw [hsplit, strip_marks, ← ih]
    rfl

/-! ### Lines that are told apart -/

/-- An empty line is shown as one, and no other line is. -/
theorem redactedLine_eq_nil_iff {token l : List Char} (htoken : validToken token = true)
    (hl : '\n' ∉ l) : redactedLine token l = redactedLine token [] ↔ l = [] := by
  have hnil : redactedLine token [] = ['\n'] := by
    rw [redactedLine, redact, replaceAll, List.nil_append, sub_singleton (token_avoids htoken),
      sub_singleton logSecret_avoids]
  constructor
  · intro h
    rw [hnil] at h
    cases l with
    | nil => rfl
    | cons c l =>
      have hc : c ≠ '\n' := fun hc => hl (by simp [hc])
      obtain ⟨b, r, hb, hbn⟩ := sub_cons_head (P := (· ≠ '\n')) (each (token.map fun c b => b == c))
        redacted.tail (l ++ ['\n']) hc (show '[' ≠ '\n' by decide)
      obtain ⟨b', r', hb', hbn'⟩ := sub_cons_head (P := (· ≠ '\n')) logSecret
        redacted.tail r hbn (show '[' ≠ '\n' by decide)
      have hshown : redactedLine token (c :: l) = b' :: r' := by
        rw [redactedLine, redact, replaceAll, List.cons_append]
        exact (congrArg (sub logSecret redacted 0) hb).trans hb'
      rw [hshown] at h
      exact absurd (List.cons.inj h).1 hbn'
  · rintro rfl
    rfl

/-- Two lists with the same members of one kind, in the same order, and the same places for the
others. -/
theorem eq_of_map_of_filter {α β : Type*} [DecidableEq α] {f : α → β} {z : α} {as bs : List α}
    (has : ∀ a ∈ as, f a = f z ↔ a = z) (hbs : ∀ b ∈ bs, f b = f z ↔ b = z)
    (hmap : as.map f = bs.map f) (hfilter : as.filter (· ≠ z) = bs.filter (· ≠ z)) : as = bs := by
  induction as generalizing bs with
  | nil => exact (List.map_eq_nil_iff.mp hmap.symm).symm
  | cons a as ih =>
    cases bs with
    | nil => simp at hmap
    | cons b bs =>
      obtain ⟨hhead, hmap⟩ := List.cons.inj hmap
      have hrest := ih (fun a ha => has a (by simp [ha])) (fun b hb => hbs b (by simp [hb])) hmap
      have hz : a = z ↔ b = z := by
        rw [← has a (by simp), ← hbs b (by simp), hhead]
      by_cases ha : a = z
      · have hb := hz.mp ha
        subst ha hb
        rw [hrest (by simpa using hfilter)]
      · have hb := mt hz.mpr ha
        simp only [ne_eq, ha, hb, not_false_eq_true, decide_true, List.filter_cons_of_pos,
          List.cons.injEq] at hfilter
        rw [hfilter.1, hrest (by simpa using hfilter.2)]

/-- The text of a log can be told from its lines, up to how the pieces divide its line ends. -/
theorem logText_eq_of_shownLines {token : List Char} {xs ys : List (List Char)}
    (htoken : validToken token = true)
    (hsame : xs.flatten = ys.flatten) (h : shownLines token true xs = shownLines token true ys) :
    logText xs = logText ys := by
  have hwords : words (logText xs) = words (logText ys) := by
    rw [logText_eq xs false, logText_eq ys false]
    exact words_strip (by rw [map_fst_marked, map_fst_marked, hsame]) List.not_mem_nil (by simp)
  obtain ⟨hfull, hrest⟩ := Prod.mk.inj hwords
  have hfilter : (rawLines true (logText xs)).filter (· ≠ []) =
      (rawLines true (logText ys)).filter (· ≠ []) := by
    rw [rawLines, rawLines, List.filter_append, List.filter_append, hfull, hrest]
  have hraw : rawLines true (logText xs) = rawLines true (logText ys) :=
    eq_of_map_of_filter (fun l hl => redactedLine_eq_nil_iff htoken (not_mem_rawLines hl))
      (fun l hl => redactedLine_eq_nil_iff htoken (not_mem_rawLines hl)) h hfilter
  rw [rawLines, rawLines, hrest] at hraw
  rw [← Lines.join_cut '\n' (logText xs), ← Lines.join_cut '\n' (logText ys),
    List.append_cancel_right hraw, hrest]

/-! ### A page behind everything -/

namespace LogDecoder

variable {H : LogDigest} {d d' : LogDecoder} {more : Bool} {ls : List (List Char)}

theorem accept_digest {text : List Char} (h : accept H d text = .ok (more, d'))
    (hbefore : d.consumed < d.page.offset)
    (hmax : d.consumed + byteSize (redact d.token text) ≤ maxLogInput) :
    d'.digest = d.digest ++ redact d.token text ∧
      d'.consumed = d.consumed + byteSize (redact d.token text) ∧
      d'.page = d.page ∧ d'.token = d.token ∧ (d'.consumed ≤ d'.page.offset → more = true) := by
  unfold accept at h
  dsimp only at h
  rw [if_neg (by simp only [Bool.or_eq_true, Bool.and_eq_true, decide_eq_true_eq]; omega)] at h
  split_ifs at h with hlt heq
  · cases h
    exact ⟨rfl, rfl, rfl, rfl, fun _ => rfl⟩
  · cases h
    exact ⟨rfl, rfl, rfl, rfl, fun _ => rfl⟩
  · cases h
    exact ⟨rfl, rfl, rfl, rfl, fun hle => absurd hle (by dsimp only; omega)⟩

theorem feed_digest (htoken : validToken d.token = true) (hls : ∀ l ∈ ls, '\n' ∉ l)
    (hoffset : d.page.offset ≤ maxLogInput)
    (hmax : d.consumed + byteSize (ls.map (redactedLine d.token)).flatten ≤ d.page.offset)
    (h : feed H d ls = .ok (more, d')) :
    d'.digest = d.digest ++ (ls.map (redactedLine d.token)).flatten := by
  induction ls generalizing d with
  | nil =>
    cases h
    simp
  | cons l ls ih =>
    have hpos := redactedLine_pos htoken (hls l (by simp))
    rw [List.map_cons, List.flatten_cons, byteSize_append] at hmax
    have hsize : redact d.token (l ++ ['\n']) = redactedLine d.token l := rfl
    simp only [feed, bind_eq_ok, Prod.exists] at h
    obtain ⟨goes, mid, haccept, h⟩ := h
    obtain ⟨hdigest, hconsumed, hpage, hmid, hgoes⟩ :=
      accept_digest haccept (by omega) (by rw [hsize]; omega)
    rw [hsize] at hdigest hconsumed
    rw [if_pos (hgoes (by rw [hconsumed, hpage]; omega))] at h
    have hrest := ih (d := mid) (by rwa [hmid]) (fun l hl => hls l (by simp [hl])) (by rwa [hpage])
      (by rw [hconsumed, hpage, hmid]; omega) h
    rw [hrest, hdigest, hmid, List.map_cons, List.flatten_cons, List.append_assoc]

end LogDecoder

variable {H : LogDigest} {token : List Char} {xs ys : List (List Char)}

/-- What of a replay others see: the lines of the page, the bytes and the digest of all that was
read. -/
def outcome (H : LogDigest) (d : LogDecoder) : List Char × ℕ × String :=
  (d.output, d.consumed, H.sum d.digest)

/-- The CR LF that the events divide, in every stretch of line ends. -/
def dividedEnds (xs : List (List Char)) : List ℕ := divided 0 false (marked xs)

theorem outcome_of_lines {page : LogRequest} (hxs : Within token true xs) :
    (LogDecoder.decode H true (newLogDecoder H page token) xs).map (outcome H) =
      (LogDecoder.feed H (newLogDecoder H page token) (rawLines true (logText xs))).map fun r =>
        outcome H r.2 := by
  have h := congrArg (Except.map (outcome H))
    (decode_new (H := H) page token true hxs.fits hxs.events)
  cases hdecode : LogDecoder.decode H true (newLogDecoder H page token) xs <;>
    cases hfeed : LogDecoder.feed H (newLogDecoder H page token) (rawLines true (logText xs)) <;>
    rw [hdecode, hfeed] at h <;> exact h

/-- The page that begins where the log may not go on any more. -/
def lastPage (H : LogDigest) (lines : List (List Char)) : LogRequest :=
  ⟨maxLogInput, H.sum lines.flatten, 1⟩

theorem feed_lastPage (htoken : validToken token = true) (hxs : Within token true xs) :
    ∃ r, LogDecoder.feed H (newLogDecoder H (lastPage H (shownLines token true xs)) token)
      (rawLines true (logText xs)) = .ok r := by
  set d := newLogDecoder H (lastPage H (shownLines token true xs)) token with hd
  have hls : ∀ l ∈ rawLines true (logText xs), '\n' ∉ l := fun l hl => not_mem_rawLines hl
  have hconsumed : d.consumed + byteSize (shownLines token true xs).flatten =
      byteSize (shownLines token true xs).flatten := Nat.zero_add _
  rcases lt_or_eq_of_le hxs.size with hlt | heq
  · exact ⟨_, LogDecoder.feed_before (d := d) htoken hls (hconsumed.trans_lt hlt) le_rfl⟩
  · have hne : rawLines true (logText xs) ≠ [] := by
      intro hnil
      rw [shownLines, hnil, List.map_nil, List.flatten_nil, byteSize_nil] at heq
      exact absurd heq (by decide)
    exact ⟨_, LogDecoder.feed_at (d := d) htoken hls hne (hconsumed.trans heq) le_rfl rfl⟩

/-- Two ways to divide a log into events are read alike, on every page, exactly if they divide
equally many CR LF in every stretch of line ends. -/
theorem pieces_agree_iff (htoken : validToken token = true) (hxs : Within token true xs)
    (hys : Within token true ys) (hsame : xs.flatten = ys.flatten)
    (hcollision : H.sum (shownLines token true xs).flatten =
      H.sum (shownLines token true ys).flatten →
      (shownLines token true xs).flatten = (shownLines token true ys).flatten) :
    (∀ page, (LogDecoder.decode H true (newLogDecoder H page token) xs).map (outcome H) =
      (LogDecoder.decode H true (newLogDecoder H page token) ys).map (outcome H)) ↔
    dividedEnds xs = dividedEnds ys := by
  have hfst : (marked xs).map Prod.fst = (marked ys).map Prod.fst := by
    rw [map_fst_marked, map_fst_marked, hsame]
  rw [dividedEnds, dividedEnds, ← strip_eq_iff hfst, ← logText_eq, ← logText_eq]
  constructor
  · intro h
    obtain ⟨⟨more, d⟩, hd⟩ := feed_lastPage (H := H) htoken hxs
    have hpage := h (lastPage H (shownLines token true xs))
    rw [outcome_of_lines hxs, outcome_of_lines hys, hd] at hpage
    have hdigest (zs : List (List Char)) (hzs : Within token true zs) {more : Bool} {d : LogDecoder}
        (hd : LogDecoder.feed H (newLogDecoder H (lastPage H (shownLines token true xs)) token)
          (rawLines true (logText zs)) = .ok (more, d)) : d.digest =
            (shownLines token true zs).flatten := by
      have hsize : 0 + byteSize (shownLines token true zs).flatten ≤ maxLogInput := by
        rw [Nat.zero_add]
        exact hzs.size
      exact LogDecoder.feed_digest
        (d := newLogDecoder H (lastPage H (shownLines token true xs)) token) htoken
        (fun l hl => not_mem_rawLines hl) le_rfl hsize hd
    cases hfeed : LogDecoder.feed H (newLogDecoder H (lastPage H (shownLines token true xs)) token)
        (rawLines true (logText ys)) with
    | error e =>
      rw [hfeed] at hpage
      cases hpage
    | ok r =>
      obtain ⟨more', d'⟩ := r
      rw [hfeed] at hpage
      have hsum : H.sum d.digest = H.sum d'.digest :=
        (Prod.mk.inj (Prod.mk.inj (Except.ok.inj hpage)).2).2
      rw [hdigest xs hxs hd, hdigest ys hys hfeed] at hsum
      have hline (zs : List (List Char)) : ∀ l ∈ shownLines token true zs, ∃ y, l = y ++ ['\n'] ∧
          '\n' ∉ y := by
        intro l hl
        obtain ⟨l', hl', rfl⟩ := List.mem_map.mp hl
        exact redact_line htoken (not_mem_rawLines hl')
      exact logText_eq_of_shownLines htoken hsame
        (Lines.eq_of_flatten_eq (hline xs) (hline ys) (hcollision hsum))
  · intro h page
    rw [outcome_of_lines hxs, outcome_of_lines hys, h]

/-- The same log in one event and in two. -/
def wholePiece : List (List Char) := ["a\r\nb".toList]
def twoPieces : List (List Char) := ["a".toList, "\r\nb".toList]

theorem wholePiece_within : Within sampleToken true wholePiece where
  fits := ⟨by decide +kernel, trivial⟩
  events := by decide
  size := by decide +kernel

theorem twoPieces_within : Within sampleToken true twoPieces where
  fits := ⟨by decide +kernel, by decide +kernel, trivial⟩
  events := by decide
  size := by decide +kernel

theorem two_pieces_agree :
    dividedEnds wholePiece = dividedEnds twoPieces ∧
      ∀ page, (LogDecoder.decode parityDigest true (newLogDecoder parityDigest page sampleToken)
        wholePiece).map
          (outcome parityDigest) =
        (LogDecoder.decode parityDigest true (newLogDecoder parityDigest page sampleToken)
          twoPieces).map
          (outcome parityDigest) :=
  ⟨by decide, (pieces_agree_iff (by decide) wholePiece_within twoPieces_within (by decide)
    (fun _ => by decide +kernel)).mpr (by decide)⟩

/-- A CR LF in one event, and divided between two: the second log has an empty line more. -/
def undividedEnd : List (List Char) := ["a\r\n".toList]
def dividedEnd : List (List Char) := ["a\r".toList, "\n".toList]

theorem divided_end_read_twice :
    undividedEnd.flatten = dividedEnd.flatten ∧
    Fits [] undividedEnd ∧ Fits [] dividedEnd ∧
    (LogDecoder.decode parityDigest true (newLogDecoder parityDigest ⟨0, "", 100⟩ sampleToken)
      undividedEnd).toOption.map (fun d => (d.output, d.consumed, d.ended)) =
        some ("a\n".toList, 2, true) ∧
    (LogDecoder.decode parityDigest true (newLogDecoder parityDigest ⟨0, "", 100⟩ sampleToken)
      dividedEnd).toOption.map (fun d => (d.output, d.consumed, d.ended)) =
        some ("a\n\n".toList, 3, true) := by
  refine ⟨by decide, ⟨by decide +kernel, trivial⟩,
    ⟨by decide +kernel, by decide +kernel, trivial⟩, ?_, ?_⟩
  · decide +kernel
  · decide +kernel

end Kaggle
end ComputeRelay
