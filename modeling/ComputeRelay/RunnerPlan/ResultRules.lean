import Mathlib.Tactic
import ComputeRelay.Runner.Execute

/-!
# The rules of the relay on the runner's result

`ParseResult` of `internal/provider/runnerplan/result.go` and the result schema ask that `phase`,
`timed_out`, `error`, `exit_code` and the GPU verdict agree. `Coherent` is that agreement on the
record of the runner; each handler of `execute` keeps it, but the one that meets a spent budget and
then finds the cancellation flag set.
-/

namespace ComputeRelay
namespace RunnerPlan

open Runner

def isNull : Json → Bool
  | .null => true
  | _ => false

def isZero : Json → Bool
  | .int n => n = 0
  | _ => false

def isTrue : Option Json → Bool
  | some (.bool b) => b
  | _ => false

/-- The rules on how the attempt ended: `timed_out` exactly in phase `timed_out`, no error exactly
in phase `completed`, and a completed attempt has exit code 0 and the GPU it requires. -/
def resultRules (doc : Json) : Bool :=
  match doc.field "phase", doc.field "timed_out", doc.field "error", doc.field "exit_code",
    doc.field "resource_check" with
  | some (.str phase), some (.bool timedOut), some error, some exitCode, some check =>
    timedOut = decide (phase = "timed_out") && isNull error = decide (phase = "completed") &&
      (phase ≠ "completed" || isZero exitCode) &&
      (phase ≠ "completed" || !isTrue (check.field "gpu_required") ||
        isTrue (check.field "gpu_verified"))
  | _, _, _, _, _ => false

/-- The rules on the record. -/
structure Coherent (r : Result) : Prop where
  timedOut : r.timedOut = true ↔ r.phase = .timedOut
  error : r.error = none ↔ r.phase = .completed
  exitCode : r.phase = .completed → r.exitCode = some 0
  gpu : r.phase = .completed → r.resourceCheck.gpuRequired = true →
    r.resourceCheck.gpuVerified = true

/-! ### Reading the document -/

def memberNames : Json → List String
  | .obj members => members.map (·.1)
  | _ => []

/-- The words of a result's document that the rules depend on: its member names, those of the
resource check, and its phase. -/
def fixedWords (r : Result) : List String :=
  memberNames r.toJson ++ memberNames r.resourceCheck.toJson ++ [r.phase.word]

theorem word_eq_timedOut (p : ResultPhase) : p.word = "timed_out" ↔ p = .timedOut := by
  cases p <;> decide

theorem word_eq_completed (p : ResultPhase) : p.word = "completed" ↔ p = .completed := by
  cases p <;> decide

section Reading

variable {f : String → String} {r : Result} (hf : ∀ w ∈ fixedWords r, f w = w)
include hf

theorem field_result (name : String) :
    (r.toJson.mapText f).field name = (r.toJson.field name).map (Json.mapText f) := by
  refine Json.field_mapText (fun m hm => hf m.1 ?_) (by simp [Result.members]) name
  exact List.mem_append_left _ (List.mem_append_left _ (List.mem_map_of_mem hm))

theorem field_resourceCheck (name : String) : (r.resourceCheck.toJson.mapText f).field name =
    (r.resourceCheck.toJson.field name).map (Json.mapText f) := by
  refine Json.field_mapText (fun m hm => hf m.1 ?_) ?_ name
  · exact List.mem_append_left _ (List.mem_append_right _ (List.mem_map_of_mem hm))
  · cases hd : r.resourceCheck.device <;> simp

/-- The rules hold of the document exactly when they hold of the record. -/
theorem resultRules_iff : resultRules (r.toJson.mapText f) = true ↔ Coherent r := by
  have hphase : f r.phase.word = r.phase.word := hf _ (List.mem_append_right _ (by simp))
  have herror : isNull ((errorJson r.error).mapText f) = decide (r.error = none) := by
    cases hr : r.error <;> rfl
  have hexit : isZero ((exitCodeJson r.exitCode).mapText f) = decide (r.exitCode = some 0) := by
    cases hr : r.exitCode with
    | none => rfl
    | some n => simp [exitCodeJson, Json.mapText, isZero]
  have hrequired : isTrue ((r.resourceCheck.toJson.mapText f).field "gpu_required") =
      r.resourceCheck.gpuRequired := by
    rw [field_resourceCheck hf]
    cases hd : r.resourceCheck.device <;>
      simp [ResourceCheck.toJson, Json.field, hd, Json.mapText, isTrue]
  have hverified : isTrue ((r.resourceCheck.toJson.mapText f).field "gpu_verified") =
      r.resourceCheck.gpuVerified := by
    rw [field_resourceCheck hf]
    cases hd : r.resourceCheck.device <;>
      simp [ResourceCheck.toJson, Json.field, hd, List.lookup_cons, Json.mapText, isTrue]
  have hfields : resultRules (r.toJson.mapText f) =
      (r.timedOut = decide (r.phase.word = "timed_out") &&
        decide (r.error = none) = decide (r.phase.word = "completed") &&
        (r.phase.word ≠ "completed" || decide (r.exitCode = some 0)) &&
        (r.phase.word ≠ "completed" || !r.resourceCheck.gpuRequired ||
          r.resourceCheck.gpuVerified)) := by
    have h1 : (r.toJson.mapText f).field "phase" = some (.str r.phase.word) := by
      rw [field_result hf, ← hphase]
      rfl
    have h2 : (r.toJson.mapText f).field "timed_out" = some (.bool r.timedOut) := by
      rw [field_result hf]
      rfl
    have h3 : (r.toJson.mapText f).field "error" = some ((errorJson r.error).mapText f) := by
      rw [field_result hf]
      rfl
    have h4 : (r.toJson.mapText f).field "exit_code" =
        some ((exitCodeJson r.exitCode).mapText f) := by
      rw [field_result hf]
      rfl
    have h5 : (r.toJson.mapText f).field "resource_check" =
        some (r.resourceCheck.toJson.mapText f) := by
      rw [field_result hf]
      rfl
    simp only [resultRules, h1, h2, h3, h4, h5, herror, hexit, hrequired, hverified]
  rw [hfields]
  simp only [ne_eq, word_eq_timedOut, word_eq_completed, Bool.and_eq_true, Bool.or_eq_true,
    decide_eq_true_eq, Bool.not_eq_true']
  constructor
  · rintro ⟨⟨⟨h1, h2⟩, h3⟩, h4⟩
    exact ⟨by rw [h1, decide_eq_true_eq], decide_eq_decide.mp h2,
      fun h => h3.resolve_left (not_not.mpr h), fun h hreq => (h4.resolve_left
        (by simp [h, hreq]))⟩
  · rintro ⟨h1, h2, h3, h4⟩
    refine ⟨⟨⟨?_, decide_eq_decide.mpr h2⟩, ?_⟩, ?_⟩
    · rw [Bool.eq_iff_iff, decide_eq_true_eq]
      exact h1
    · by_cases hc : r.phase = .completed
      · exact .inr (h3 hc)
      · exact .inl hc
    · by_cases hc : r.phase = .completed
      · cases hreq : r.resourceCheck.gpuRequired with
        | false => exact .inl (.inr rfl)
        | true => exact .inr (h4 hc hreq)
      · exact .inl (.inl hc)

end Reading

/-! ### The body -/

section Body

variable {flag : ℕ → Bool} {gpu : Bool}

theorem perform_append (s : Progress) (is js : List Instruction) :
    perform flag gpu s (is ++ js) =
      match perform flag gpu s is with
      | (t, none) => perform flag gpu t js
      | (t, some e) => (t, some e) := by
  induction is generalizing s with
  | nil => rfl
  | cons i is ih =>
    rw [List.cons_append, perform, perform]
    cases hstep : i.step flag gpu s with
    | mk t raised =>
      cases raised with
      | none => exact ih t
      | some e => rfl

/-- A list of instructions that ends without raising does so part by part. -/
theorem perform_append_none {s t : Progress} {is js : List Instruction}
    (h : perform flag gpu s (is ++ js) = (t, none)) :
    ∃ u, perform flag gpu s is = (u, none) ∧ perform flag gpu u js = (t, none) := by
  rw [perform_append] at h
  cases hfirst : perform flag gpu s is with
  | mk u raised =>
    rw [hfirst] at h
    cases raised with
    | none => exact ⟨u, rfl, h⟩
    | some e => simp at h

/-- No instruction takes the verdict on the GPU back. -/
theorem gpuVerified_step {s : Progress} (h : s.gpuVerified = true) (i : Instruction) :
    (i.step flag gpu s).1.gpuVerified = true := by
  match i with
  | .plain (.check _) | .plain (.statement _) | .enter _ | .command _ (.error _) => exact h
  | .command label (.ok o) =>
    simp only [Instruction.step]
    split <;> exact h
  | .verify answer =>
    simp only [Instruction.step]
    split
    · cases answer with
      | error e => exact h
      | ok device => rfl
    · exact h

theorem gpuVerified_perform {s : Progress} (h : s.gpuVerified = true) (is : List Instruction) :
    (perform flag gpu s is).1.gpuVerified = true := by
  induction is generalizing s with
  | nil => exact h
  | cons i is ih =>
    have hstep : (i.step flag gpu s).1.gpuVerified = true := gpuVerified_step h i
    rw [perform]
    cases hi : i.step flag gpu s with
    | mk t raised =>
      rw [hi] at hstep
      cases raised with
      | none => exact ih hstep
      | some e => exact hstep

end Body

theorem exitCode_of_not_raised {label : Label} {o : CommandOutcome} (h : o.raised label = none) :
    o.exitCode = some 0 := by
  unfold CommandOutcome.raised at h
  split_ifs at h with h1 h2 h3 h4
  exact not_not.mp h4

theorem exitCode_of_payload {flag : ℕ → Bool} {gpu : Bool} {s t : Progress} {c : Call}
    (h : perform flag gpu s (c.instructions .payload) = (t, none)) : t.exitCode = some 0 := by
  have hsplit : c.instructions .payload =
      [.plain (.check c.expired)] ++ [.command .payload c.answer] := rfl
  rw [hsplit] at h
  obtain ⟨u, -, hcommand⟩ := perform_append_none h
  cases hanswer : c.answer with
  | error e => simp [hanswer, perform, Instruction.step] at hcommand
  | ok o =>
    simp only [hanswer, perform, Instruction.step, if_true] at hcommand
    cases hraised : o.raised .payload with
    | some e => simp [hraised] at hcommand
    | none =>
      simp only [hraised, Prod.mk.injEq, and_true] at hcommand
      rw [← hcommand]
      exact exitCode_of_not_raised hraised

/-- A probe that raises nothing has seen the GPU that the job requires. -/
theorem gpuVerified_of_probe {flag : ℕ → Bool} {s t : Progress} {p : Probe}
    (h : perform flag true s p.instructions = (t, none)) : t.gpuVerified = true := by
  obtain ⟨u, -, hverify⟩ := perform_append_none h
  cases hv : p.verdict with
  | error e => simp [hv, perform, Instruction.step] at hverify
  | ok device =>
    simp only [hv, perform, Instruction.step, if_true, Prod.mk.injEq, and_true] at hverify
    rw [← hverify]

/-- A body that ends without raising has run the payload to exit code 0 and has seen the GPU that
the job requires. -/
theorem ended_completed {a : Attempt} {s : Progress} (h : a.ended = (s, none)) :
    s.exitCode = some 0 ∧ (a.gpuRequired = true → s.gpuVerified = true) := by
  rw [Attempt.ended] at h
  constructor
  · obtain ⟨u, -, hpayload⟩ := perform_append_none h
    exact exitCode_of_payload hpayload
  · intro hgpu
    obtain ⟨rest, hbody⟩ : ∃ rest, a.body = (a.preparation.map .plain ++ [.enter .resourceCheck] ++
        a.before.instructions) ++ rest := by
      simp only [Attempt.body, List.append_assoc, List.append_cancel_left_eq]
      exact ⟨_, rfl⟩
    rw [hbody, hgpu] at h
    obtain ⟨u, hfirst, hrest⟩ := perform_append_none h
    obtain ⟨v, -, hprobe⟩ := perform_append_none hfirst
    have hkeep : (perform a.flag true u rest).1.gpuVerified = true :=
      gpuVerified_perform (gpuVerified_of_probe hprobe) rest
    rwa [hrest] at hkeep

/-- The budget was spent, and the flag was set by the time the handler asked for it. -/
def TimeoutOvertaken (a : Attempt) : Prop :=
  ∃ s f, a.ended = (s, some (.failure f)) ∧ f.code = .remoteTimeout ∧ a.flag s.reads = true

/-! ### The handlers -/

theorem handleFailure_fields (a : Attempt) (s : Progress) (f : Failure) :
    (a.handleFailure s f).phase = a.failedPhase s f ∧
      (a.handleFailure s f).timedOut = decide (f.code = .remoteTimeout) ∧
      (a.handleFailure s f).error ≠ none := by
  unfold Attempt.handleFailure
  split_ifs <;> simp

/-- The result of the first handler is coherent unless a spent budget meets a set flag. -/
theorem coherent_handleFailure (a : Attempt) (s : Progress) (f : Failure) :
    Coherent (a.handleFailure s f) ↔ ¬ (f.code = .remoteTimeout ∧ a.flag s.reads = true) := by
  obtain ⟨hphase, htimedOut, herror⟩ := handleFailure_fields a s f
  have hcompleted : a.failedPhase s f ≠ .completed := by
    unfold Attempt.failedPhase
    split_ifs <;> decide
  constructor
  · rintro h ⟨hcode, hflag⟩
    have htimed := h.timedOut
    rw [hphase, htimedOut, decide_eq_true_eq, Attempt.failedPhase, if_pos hflag] at htimed
    cases htimed.mp hcode
  · intro h
    refine ⟨?_, iff_of_false herror (hphase ▸ hcompleted), ?_, ?_⟩
    · rw [hphase, htimedOut, decide_eq_true_eq]
      by_cases hcode : f.code = .remoteTimeout
      · have hflag : ¬ a.flag s.reads = true := fun hflag => h ⟨hcode, hflag⟩
        rw [Attempt.failedPhase, if_neg hflag, if_pos hcode]
        exact iff_of_true hcode rfl
      · refine iff_of_false hcode ?_
        rw [Attempt.failedPhase, if_neg hcode]
        split_ifs <;> decide
    · exact fun hdone => absurd (hphase ▸ hdone) hcompleted
    · exact fun hdone => absurd (hphase ▸ hdone) hcompleted

theorem coherent_handleListed (a : Attempt) (s : Progress) : Coherent (a.handleListed s) := by
  have hphase : (a.handleListed s).phase = .setupFailed ∨ (a.handleListed s).phase = .failed := by
    unfold Attempt.handleListed
    by_cases h : s.phase = .setup <;> simp [h]
  have hcompleted : (a.handleListed s).phase ≠ .completed := by
    rcases hphase with h | h <;> simp [h]
  refine ⟨?_, iff_of_false (by simp [Attempt.handleListed]) hcompleted,
    fun hdone => absurd hdone hcompleted, fun hdone => absurd hdone hcompleted⟩
  refine iff_of_false (by simp [Attempt.handleListed, Attempt.initial]) ?_
  rcases hphase with h | h <;> simp [h]

/-- A late failure without a timeout leaves a coherent result. -/
theorem Coherent.fail {r : Result} (h : Coherent r) (herror : r.error = none) (e : WireError) :
    Coherent { r with phase := .failed, error := some e } := by
  have hcompleted := h.error.mp herror
  refine ⟨iff_of_false ?_ (by simp), iff_of_false (by simp) (by simp), by simp, by simp⟩
  intro htimed
  have := h.timedOut.mp htimed
  rw [hcompleted] at this
  cases this

/-- A step after the body that may fail a result without an error, but keeps it coherent, does not
change whether the result is coherent. -/
theorem coherent_unlessFailed {r : Result} {change : Result → Result}
    (h : r.error = none → Coherent r → Coherent (change r)) (hr : r.error = none → Coherent r) :
    (Coherent (r.unlessFailed change) ↔ Coherent r) ∧
      ((r.unlessFailed change).error = none → Coherent (r.unlessFailed change)) := by
  unfold Result.unlessFailed
  split_ifs with herror
  · exact ⟨iff_of_true (h herror (hr herror)) (hr herror), fun _ => h herror (hr herror)⟩
  · exact ⟨Iff.rfl, hr⟩

theorem coherent_removeSecrets {a : Attempt} {r t : Result} (h : a.removeSecrets r = some t)
    (hr : r.error = none → Coherent r) :
    (Coherent t ↔ Coherent r) ∧ (t.error = none → Coherent t) := by
  unfold Attempt.removeSecrets at h
  cases hremoval : a.removal with
  | removed =>
    simp only [hremoval, Option.some.injEq] at h
    exact h ▸ ⟨Iff.rfl, hr⟩
  | osError =>
    simp only [hremoval, Option.some.injEq] at h
    exact h ▸ coherent_unlessFailed (fun herror hc => hc.fail herror _) hr
  | escaping => simp [hremoval] at h

theorem coherent_collect {a : Attempt} {r t : Result} (h : a.collect r = some t)
    (hr : r.error = none → Coherent r) : Coherent t ↔ Coherent r := by
  unfold Attempt.collect at h
  cases hcollection : a.collection with
  | collected artifacts =>
    simp only [hcollection, Option.some.injEq] at h
    subst h
    exact ⟨fun hc => ⟨hc.1, hc.2, hc.3, hc.4⟩, fun hc => ⟨hc.1, hc.2, hc.3, hc.4⟩⟩
  | failure f =>
    simp only [hcollection, Option.some.injEq] at h
    subst h
    refine (coherent_unlessFailed (fun herror hc => ?_) hr).1
    split_ifs with hkept htimeout
    · exact ⟨iff_of_true (by simpa using htimeout) rfl, iff_of_false (by simp) (by simp), by simp,
        by simp⟩
    · exact ⟨iff_of_false (by simpa using htimeout) (by simp), iff_of_false (by simp) (by simp),
        by simp, by simp⟩
    · exact hc.fail herror _
  | listed =>
    simp only [hcollection, Option.some.injEq] at h
    exact h ▸ (coherent_unlessFailed (fun herror hc => hc.fail herror _) hr).1
  | escaping => simp [hcollection] at h

/-- The result after the body is coherent unless a spent budget met a set flag. -/
theorem coherent_afterBody {a : Attempt} {r : Result} (h : a.afterBody = some r) :
    (Coherent r ↔ ¬ TimeoutOvertaken a) ∧ (r.error = none → Coherent r) := by
  unfold Attempt.afterBody at h
  cases hended : a.ended with
  | mk s raised =>
    rw [hended] at h
    match raised with
    | none =>
      simp only [Option.some.injEq] at h
      subst h
      obtain ⟨hexit, hgpu⟩ := ended_completed hended
      have hc : Coherent { a.initial s with phase := .completed } :=
        ⟨by simp [Attempt.initial], by simp [Attempt.initial], fun _ => hexit, fun _ => hgpu⟩
      refine ⟨iff_of_true hc ?_, fun _ => hc⟩
      rintro ⟨t, f, ht, -⟩
      rw [hended] at ht
      cases ht
    | some (.failure f) =>
      simp only [Option.some.injEq] at h
      subst h
      refine ⟨?_, fun herror => absurd herror (handleFailure_fields a s f).2.2⟩
      rw [coherent_handleFailure, not_iff_not]
      constructor
      · exact fun hcond => ⟨s, f, hended, hcond⟩
      · rintro ⟨t, g, hg, hcond⟩
        rw [hended] at hg
        cases hg
        exact hcond
    | some .listed =>
      simp only [Option.some.injEq] at h
      subst h
      refine ⟨iff_of_true (coherent_handleListed a s) ?_, fun _ => coherent_handleListed a s⟩
      rintro ⟨t, f, ht, -⟩
      rw [hended] at ht
      cases ht
    | some .escaping => cases h

/-! ### The written result -/

/-- A result that the runner writes meets the relay's rules exactly when no spent budget was
overtaken by the cancellation flag, as long as the redactor leaves the fixed words of the document
alone. -/
theorem result_consistent_iff {a : Attempt} {doc : Json} (hwritten : execute a = some doc)
    (hspared : ∀ r, a.result = some r → ∀ w ∈ fixedWords r, a.redact w = w) :
    resultRules doc = true ↔ ¬ TimeoutOvertaken a := by
  simp only [execute, Option.ite_none_right_eq_some, Option.map_eq_some_iff] at hwritten
  obtain ⟨-, r, hresult, rfl⟩ := hwritten
  have hrules := resultRules_iff (hspared r hresult)
  simp only [Attempt.result, bind, Option.bind_eq_some_iff, Option.some.injEq] at hresult
  obtain ⟨r1, hbody, r2, hremove, r3, hcollect, rfl⟩ := hresult
  obtain ⟨hiff, hsettled⟩ := coherent_afterBody hbody
  obtain ⟨hremoved, hsettled'⟩ := coherent_removeSecrets hremove hsettled
  rw [hrules, ← hiff, ← hremoved, ← coherent_collect hcollect hsettled']
  exact ⟨fun hc => ⟨hc.1, hc.2, hc.3, hc.4⟩, fun hc => ⟨hc.1, hc.2, hc.3, hc.4⟩⟩

def sampleManifest : Manifest where
  manifestVersion := version
  jobID := "job"
  attemptID := "attempt"
  attemptNonce := "0123456789abcdef"
  bundle := ⟨"code.bin", 100, "digest"⟩
  inputs := []
  inputManifestSHA256 := "digest"
  execution := { kind := .python, command := ["python", "main.py"] }
  resources := { accelerator := .cpu }
  network := .disabled
  timeouts := { remoteWallSeconds := 600, setupSeconds := 60, finalizationGraceSeconds := 60 }
  outputs := [{ path := "result", required := false }]

def sampleCall : Call := ⟨false, .ok ⟨some 0, false, false, true⟩⟩

/-- An attempt whose first check finds the given budget, and whose flag is set from the given read
on. -/
def sampleAttempt (expired : Bool) (cancelledFrom : ℕ) : Attempt where
  manifest := sampleManifest
  loaded := true
  startedAt := "2026-01-01T00:00:00Z"
  finishedAt := "2026-01-01T00:01:00Z"
  flag n := cancelledFrom ≤ n
  preparation := [.check expired]
  before := ⟨sampleCall, [], .error .listed⟩
  setup := []
  after := none
  setupExpired := false
  launch := []
  payload := sampleCall
  removal := .removed
  collection := .collected []
  redact := id
  published := true

/-- An attempt that runs to its end. -/
theorem sampleAttempt_consistent :
    ∃ doc, execute (sampleAttempt false 9) = some doc ∧ resultRules doc = true := by
  refine ⟨_, rfl,
    (result_consistent_iff (a := sampleAttempt false 9) rfl fun _ _ _ _ => rfl).mpr ?_⟩
  rintro ⟨s, f, hended, -⟩
  cases hended

/-- The first check finds the budget spent while the flag is still unset; the signal arrives before
the handler reads the flag. The result is `cancelled` and `timed_out` at once. -/
theorem sampleAttempt_overtaken :
    ∃ doc, execute (sampleAttempt true 1) = some doc ∧ resultRules doc = false :=
  ⟨_, rfl, by decide⟩

end RunnerPlan
end ComputeRelay
