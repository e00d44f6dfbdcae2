import Mathlib.Tactic
import ComputeRelay.Store.Attempt
import ComputeRelay.Store.Authority

/-!
# What a transaction can do to the records of an attempt

`Change` lists what the transactions of `perform` do, with the guards they have passed on the way,
and `perform_change` is the inversion. The invariants of the records are proved by cases on `Change`
and never unfold a transaction again.

* `Attempt.Follows`: the attempt row stays as it is or its revision goes up.
* `commitGateStep_ok` reads the gate's part of a commit.
* `Answers` says what a commit with a staging answer leaves in the gate.
-/

namespace ComputeRelay
namespace Store

open Domain Provider Scheduler Dispatch Fallible

/-! ### Reading and writing one row -/

/-- The journal as it is read; a missing row is the journal of a new attempt. -/
def Records.current (x : Records) : Journal := (x.journal.map Journal.reread).getD localJournal

/-- The attempt row after some moves at one time. -/
def Attempt.Follows (a b : Attempt) (now : ℤ) : Prop :=
  b = a ∨ (a.revision < b.revision ∧ a.updatedAt ≤ now ∧ b.updatedAt = now)

theorem Attempt.Follows.refl (a : Attempt) (now : ℤ) : a.Follows a now := Or.inl rfl

theorem Attempt.Follows.trans {a b d : Attempt} {now : ℤ} (h : a.Follows b now)
    (h' : b.Follows d now) : a.Follows d now := by
  rcases h with rfl | ⟨h1, h2, h3⟩
  · exact h'
  · rcases h' with rfl | ⟨h1', -, h3'⟩
    · exact Or.inr ⟨h1, h2, h3⟩
    · exact Or.inr ⟨h1.trans h1', h2, h3'⟩

theorem Attempt.transition_eq_some {a b : Attempt} {next : AttemptState} {now : ℤ}
    (h : a.transition next now = some b) : b.state = next ∧ a.Follows b now := by
  unfold Attempt.transition at h
  split_ifs at h with h1 h2 h3
  · cases h
    exact ⟨h2, .refl a now⟩
  · cases h
    rw [not_or, not_lt] at h3
    exact ⟨rfl, Or.inr ⟨by simp, h3.1, rfl⟩⟩

section Writes

variable {c : Codec} {r : FrozenJob} {x y : Records} {now : ℤ}

theorem writeState_ok {next : AttemptState} {e : Err} (h : writeState x next now e = .ok y) :
    ∃ a, y = { x with attempt := a } ∧ a.state = next ∧ x.attempt.Follows a now := by
  unfold writeState at h
  split at h
  · cases h
  · rename_i a ha
    simp only [bind_eq_ok, require_eq_ok, pure_eq_ok] at h
    obtain ⟨-, -, rfl⟩ := h
    exact ⟨a, rfl, Attempt.transition_eq_some ha⟩

theorem controlState_ok {next : AttemptState} (h : controlState x next now = .ok y) :
    ∃ a, y = { x with attempt := a } ∧ a.state = next ∧ x.attempt.Follows a now := writeState_ok h

theorem schedulerTransition_ok {next : AttemptState} (h : schedulerTransition x next now = .ok y) :
    ∃ a, y = { x with attempt := a } ∧ a.state = next ∧ x.attempt.Follows a now := writeState_ok h

theorem loadJournal_eq_ok {j : Journal} : loadJournal c x = .ok j ↔ j = x.current ∧
    ∀ k, x.journal = some k → fits c k = true ∧ k.reread.valid c.toDispatch.toCodec = true := by
  unfold loadJournal Records.current
  cases hx : x.journal with
  | none =>
    constructor
    · intro h
      cases h
      exact ⟨rfl, by simp⟩
    · rintro ⟨rfl, -⟩
      rfl
  | some k =>
    simp only [bind_eq_ok, require_eq_ok, pure_eq_ok, Bool.and_eq_true, Option.some.injEq,
      Option.map_some, Option.getD_some, exists_const]
    constructor
    · rintro ⟨h, rfl⟩
      exact ⟨rfl, by rintro _ rfl; exact h⟩
    · rintro ⟨rfl, h⟩
      exact ⟨h k rfl, rfl⟩

theorem valid_of_load {j : Journal} (h : loadJournal c x = .ok j) :
    j.valid c.toDispatch.toCodec = true := by
  obtain ⟨rfl, hrow⟩ := loadJournal_eq_ok.mp h
  unfold Records.current
  cases hx : x.journal with
  | none => exact local_valid _
  | some k => exact (hrow k hx).2

theorem writeJournal_ok {version : ℤ} {next : Journal} {e : Err}
    (h : writeJournal x version next e = .ok y) : y = { x with journal := some next } := by
  simp only [writeJournal, bind_eq_ok, pure_eq_ok] at h
  obtain ⟨-, -, rfl⟩ := h
  rfl

theorem controlJournal_ok {old next : Journal} (h : controlJournal c x old next = .ok y) :
    y = { x with journal := some next } ∧ next.valid c.toDispatch.toCodec = true ∧
      next.version = old.version + 1 ∧ fits c next = true := by
  simp only [controlJournal, bind_eq_ok, require_eq_ok, Bool.and_eq_true, decide_eq_true_eq] at h
  obtain ⟨-, ⟨⟨hv, hver⟩, hf⟩, h⟩ := h
  exact ⟨writeJournal_ok h, hv, hver, hf⟩

end Writes

/-! ### The gate's part of a commit -/

section Gate

variable {c : Codec} {r : FrozenJob} {g g' : Grants} {gate : Gate} {j : Journal} {a a' : Action}
variable {now : ℤ}

theorem consumeGrant_ok {k : GrantKind} {e : Err} (h : g.consumeGrant k now e = .ok g') :
    g.consumed now k = some g' := by
  unfold Grants.consumeGrant at h
  split at h
  · cases h
  · cases h
    assumption

theorem consumed_execution (h : g.consumed now .execution = some g') : Granting r g now g' := by
  simp only [Grants.consumed, Option.bind_eq_some_iff, Option.map_eq_some_iff] at h
  obtain ⟨e, he, q, hq, rfl⟩ := h
  exact .executed e q he hq

theorem consumed_prepare (h : g.consumed now .prepare = some g') : Granting r g now g' := by
  simp only [Grants.consumed, Option.bind_eq_some_iff, Option.map_eq_some_iff] at h
  obtain ⟨p, hp, q, hq, rfl⟩ := h
  exact .staged p q hp hq

theorem rows_of_gate (h : g.gate r = some gate) : r.separateStart = true ∧
    ∃ p, g.prepare = some p ∧ gate.readyRevision = g.readyRevision ∧
      gate.readyAt = p.readyAt ∧ gate.preparation = p.toGrant ∧ gate.request = p.request ∧
      gate.start = g.startAuthorization r ∧ gate.startReceipt = g.start.map (·.toGrant) := by
  have hstart : gate.start = g.startAuthorization r := by simp [Grants.startAuthorization, h]
  cases hr : r.separateStart with
  | false => simp [Grants.gate, hr] at h
  | true =>
  simp only [Grants.gate, hr, if_true] at h
  obtain ⟨p, hp, hgate⟩ := Option.map_eq_some_iff.mp h
  refine ⟨rfl, p, hp, ?_⟩
  cases hs : g.start <;> simp only [hs] at hgate <;> subst hgate <;>
    simp [PrepareGrant.started, PrepareGrant.gate, Grants.readyRevision, hp] at hstart ⊢ <;>
    exact hstart

theorem recordReady_ok {p : Prepared} (hgate : g.gate r = some gate)
    (h : recordReady c g gate p now = .ok g') : GateStep r g now g' ∧
      p.readinessRevision c.toDispatch.toCodec = g'.readyRevision ∧
      g'.start = g.start ∧ g'.secret = g.secret := by
  obtain ⟨-, q, hq, hrev, -⟩ := rows_of_gate hgate
  simp only [recordReady, bind_eq_ok, require_eq_ok] at h
  obtain ⟨-, hvalid, h⟩ := h
  split_ifs at h with hready
  · simp only [bind_eq_ok, require_eq_ok, pure_eq_ok, decide_eq_true_eq] at h
    obtain ⟨-, heq, rfl⟩ := h
    exact ⟨.kept, by rw [← heq, hrev], rfl, rfl⟩
  · simp only [hq, bind_eq_ok, require_eq_ok, pure_eq_ok, Bool.and_eq_true,
      Option.isNone_iff_eq_none] at h
    obtain ⟨-, ⟨hnone, hused⟩, rfl⟩ := h
    exact ⟨.readied q _ hq hnone hused hvalid, by simp [Grants.readyRevision], rfl, rfl⟩

/-- A submission consumes the start grant, and the secret of a job that declares any. -/
theorem consumeStart_ok (hgate : g.gate r = some gate)
    (h : consumeStart c r g gate j a now = .ok (g', a')) :
    ∃ start, g.startAuthorization r = some start ∧
      a' = { a with startAuthorization := some start } ∧ GateStep r g now g' ∧ g'.StartUsed ∧
      g'.readyRevision = g.readyRevision := by
  obtain ⟨-, p, hp, -, -, -, -, hauth, hreceipt⟩ := rows_of_gate hgate
  unfold consumeStart at h
  split at h
  · rename_i start receipt prepared hs hr hprep
    simp only [bind_eq_ok, require_eq_ok, pure_eq_ok, Prod.mk.injEq] at h
    obtain ⟨-, -, secret, hsecret, g1, hg1, g2, hg2, rfl, rfl⟩ := h
    refine ⟨start, by rw [← hauth, hs], rfl, ?_⟩
    have hsec := secretForStart_ok hsecret
    have hg2 := consumeGrant_ok hg2
    simp only [Grants.consumed, Option.bind_eq_some_iff, Option.map_eq_some_iff] at hg2
    obtain ⟨s, hstart, used, hused, rfl⟩ := hg2
    have hstatus : used.status = .consumed := by rw [(Grant.consume_eq_some.mp hused).2]
    by_cases hslots : r.workloadSecrets = []
    · rw [if_pos hslots] at hsec
      obtain ⟨-, rfl⟩ := hsec
      cases hg1
      exact ⟨.submitted s used hstart hused hslots, ⟨_, rfl, hstatus⟩, rfl⟩
    · rw [if_neg hslots] at hsec
      obtain ⟨x, rfl, hrow, -⟩ := hsec
      simp only [spendSecret, bind_eq_ok, require_eq_ok] at hg1
      obtain ⟨-, -, hg1⟩ := hg1
      have hg1 := consumeGrant_ok hg1
      simp only [Grants.consumed, Option.bind_eq_some_iff, Option.map_eq_some_iff] at hg1
      obtain ⟨x', hx', spent, hspent, rfl⟩ := hg1
      exact ⟨.delivered s used x' spent hstart hused hx' hspent hslots, ⟨_, rfl, hstatus⟩, rfl⟩
  · cases h

/-- What the gate holds after an action with this staging answer. -/
def Answers (c : Codec) (r : FrozenJob) (a : Action) (g g' : Grants) : Prop :=
  (∃ p, a.kind = .preparationSeen ∧ a.prepared = some p ∧ p.ready = true ∧ p.private_ = true ∧
    (r.separateStart = true → p.readinessRevision c.toDispatch.toCodec = g'.readyRevision)) ∨
  ((∀ p, a.kind = .preparationSeen → a.prepared = some p → ¬(p.ready = true ∧ p.private_ = true)) ∧
    g'.readyRevision = g.readyRevision)

/-- The gate's part of a commit, read from its result. -/
structure GateResult (c : Codec) (r : FrozenJob) (g : Grants) (a : Action) (now : ℤ) (g' : Grants)
    (a' : Action) : Prop where
  step : GateStep r g now g'
  action : a' = a ∨ ∃ start, g.startAuthorization r = some start ∧
    a' = { a with startAuthorization := some start }
  answers : Answers c r a g g'
  gate : r.separateStart = true → g.gate r ≠ none
  submits : r.separateStart = true → a.kind = .beginSubmission →
    g'.StartUsed ∧ a'.startAuthorization = g.startAuthorization r ∧
      a'.startAuthorization.isSome = true
  keeps : a.kind ≠ .beginSubmission → (g'.StartUsed ↔ g.StartUsed)

theorem commitGateStep_ok {work : Work} (hgate : work.gate = g.gate r)
    (h : commitGateStep c r g work a now = .ok (g', a')) : GateResult c r g a now g' a' := by
  unfold commitGateStep at h
  cases hr : r.separateStart with
  | false =>
    simp only [hr, Bool.not_false, if_true, bind_eq_ok, pure_eq_ok, Prod.mk.injEq] at h
    obtain ⟨-, -, rfl, rfl⟩ := h
    refine ⟨.kept, Or.inl rfl, ?_, by simp [hr], by simp [hr], fun _ => Iff.rfl⟩
    by_cases hp : ∃ p, a.kind = .preparationSeen ∧ a.prepared = some p ∧ p.ready = true ∧
        p.private_ = true
    · obtain ⟨p, h1, h2, h3, h4⟩ := hp
      exact Or.inl ⟨p, h1, h2, h3, h4, by simp [hr]⟩
    · exact Or.inr ⟨fun p h1 h2 h3 => hp ⟨p, h1, h2, h3⟩, rfl⟩
  | true =>
    simp only [hr, Bool.not_true, Bool.false_eq_true, if_false, hgate] at h
    cases hg : g.gate r with
    | none => simp [hg] at h
    | some gate =>
      simp only [hg] at h
      have hne : g.gate r ≠ none := by simp [hg]
      split at h
      · rename_i p hk hp
        split_ifs at h with hready
        · simp only [bind_eq_ok, pure_eq_ok, Prod.mk.injEq] at h
          obtain ⟨g1, hg1, rfl, rfl⟩ := h
          obtain ⟨hstep, hrev, hs, -⟩ := recordReady_ok hg hg1
          rw [Bool.and_eq_true] at hready
          exact ⟨hstep, Or.inl rfl, Or.inl ⟨p, hk, hp, hready.1, hready.2, fun _ => hrev⟩,
            fun _ => hne, by simp [hk], fun _ => by simp [Grants.StartUsed, hs]⟩
        · simp only [pure_eq_ok, Prod.mk.injEq] at h
          obtain ⟨rfl, rfl⟩ := h
          refine ⟨.kept, Or.inl rfl, Or.inr ⟨fun q _ hq => ?_, rfl⟩, fun _ => hne, by simp [hk],
            fun _ => Iff.rfl⟩
          obtain rfl : p = q := by simpa [hp] using hq
          rwa [Bool.and_eq_true] at hready
      · rename_i hk
        obtain ⟨start, hauth, rfl, hstep, hused, hrev⟩ := consumeStart_ok hg h
        exact ⟨hstep, Or.inr ⟨start, hauth, rfl⟩, Or.inr ⟨by simp [hk], hrev⟩, fun _ => hne,
          fun _ _ => ⟨hused, hauth.symm, rfl⟩, fun hk' => absurd hk hk'⟩
      · rename_i hk2 hk1
        simp only [pure_eq_ok, Prod.mk.injEq] at h
        obtain ⟨rfl, rfl⟩ := h
        refine ⟨.kept, Or.inl rfl, Or.inr ⟨fun p h1 h2 _ => hk1 p h1 h2, rfl⟩, fun _ => hne, ?_,
          fun _ => Iff.rfl⟩
        exact fun _ hk => (hk2 hk).elim

end Gate

/-! ### What a worker has checked -/

/-- A claim that owns the attempt, and records that load under it. -/
structure Loaded (c : Codec) (r : FrozenJob) (x : Records) (k : Claim) (now : ℤ) : Prop where
  lease : ∃ row, x.lease = some row ∧ row.live now = true ∧ row.toWorkLease = k.lease
  active : x.active = true
  revision : x.attempt.revision = k.attemptRevision
  journal : loadJournal c x = .ok x.current
  gate : loadExecutionGate r x.grants now = .ok (x.grants.gate r)
  checked : checkLoaded c r x x.current (x.grants.gate r) now = .ok ()

section Inversion

variable {c : Codec} {r : FrozenJob} {x y : Records} {k : Claim} {h h' : Handle} {now : ℤ}
variable {work : Work}

theorem loadDispatch_ok (hl : loadDispatch c r x k now = .ok work) :
    work = ⟨x.attempt, x.current, x.grants.gate r⟩ ∧ Loaded c r x k now := by
  simp only [loadDispatch, ownedDispatchClaim, bind_eq_ok, require_eq_ok, pure_eq_ok,
    decide_eq_true_eq] at hl
  obtain ⟨-, ⟨-, -, -, -, row, hrow, -, hactive, -, -, -, hrev, -⟩, j, hj, -, -, -, -, gate, hgate,
    ⟨⟩, hchecked, rfl⟩ := hl
  obtain ⟨rfl, -⟩ := loadJournal_eq_ok.mp hj
  obtain rfl := gate_of_load hgate
  exact ⟨rfl, ⟨row, checkWorkLease_eq_ok.mp hrow⟩, hactive, hrev, hj, hgate, hchecked⟩

theorem loadHandle_ok (hl : loadHandle c r x h now = .ok work) :
    work = ⟨x.attempt, x.current, x.grants.gate r⟩ ∧ Loaded c r x h.claim now ∧
      h.version = x.current.version := by
  simp only [loadHandle, bind_eq_ok, require_eq_ok, pure_eq_ok, decide_eq_true_eq] at hl
  obtain ⟨work, hw, -, hv, rfl⟩ := hl
  obtain ⟨rfl, hloaded⟩ := loadDispatch_ok hw
  exact ⟨rfl, hloaded, hv⟩

/-- The checks of a worker's action leave everything but a note on its expiry. -/
theorem checkAction_ok {a a' : Action} (hc : checkAction r x work a now = .ok a') :
    (a' = a ∨ (a.kind = .expireDispatch ∧ ∃ b, a' = { a with preparationExpired := b })) ∧
      (a.kind = .beginPreparation → ∃ plan, a.plan = some plan ∧
        (dispatchAuthorization r x.grants work.gate now).toOption = some .consumed ∧
        matchesFrozenPlan r plan a.preparationID = true) := by
  unfold checkAction at hc
  split at hc
  · rename_i hk
    simp only [bind_eq_ok, pure_eq_ok] at hc
    obtain ⟨-, -, rfl⟩ := hc
    exact ⟨Or.inr ⟨hk, _, rfl⟩, by simp [hk]⟩
  · rename_i hk
    simp only [bind_eq_ok, require_eq_ok, decide_eq_true_eq] at hc
    obtain ⟨status, hstatus, -, rfl, -, -, hc⟩ := hc
    split at hc
    · cases hc
    · rename_i plan hplan
      simp only [bind_eq_ok, require_eq_ok, pure_eq_ok] at hc
      obtain ⟨-, hmatch, rfl⟩ := hc
      exact ⟨Or.inl rfl, fun _ => ⟨plan, hplan, by rw [hstatus]; rfl, hmatch⟩⟩
  · rename_i hk
    simp only [bind_eq_ok, pure_eq_ok] at hc
    obtain ⟨-, -, -, -, -, -, rfl⟩ := hc
    exact ⟨Or.inl rfl, by simp [hk]⟩
  · rename_i h1 h2 h3
    simp only [pure_eq_ok] at hc
    exact ⟨Or.inl hc.symm, fun hk => absurd hk h2⟩

theorem applied_ok {a : Action} {next : Journal} {state : AttemptState}
    (ha : applied c work a now = .ok (next, state)) : fits c next = true ∧
      ∃ e, apply c.toDispatch work.journal work.attempt.state a now = .ok (next, state, e) := by
  unfold applied at ha
  split at ha
  · cases ha
  · rename_i next' state' e happly
    simp only [bind_eq_ok, require_eq_ok, pure_eq_ok, Prod.mk.injEq] at ha
    obtain ⟨-, hf, rfl, rfl⟩ := ha
    exact ⟨hf, e, happly⟩

theorem appliedControl_ok {j : Journal} {a : Action} {next : Journal} {state : AttemptState}
    (ha : appliedControl c x j a now = .ok (next, state)) :
    ∃ e, apply c.toDispatch j x.attempt.state a now = .ok (next, state, e) := by
  unfold appliedControl at ha
  split at ha
  · cases ha
  · rename_i next' state' e happly
    cases ha
    exact ⟨e, happly⟩

theorem finishObservedOperations_ok {kind : Kind} {exhausted : Bool}
    (hf : finishObservedOperations x kind exhausted now = .ok y) :
    ∃ a, y = { x with attempt := a } ∧ x.attempt.Follows a now := by
  unfold finishObservedOperations at hf
  split_ifs at hf
  · obtain ⟨a, ha, -, hfollows⟩ := controlState_ok hf
    exact ⟨a, ha, hfollows⟩
  · simp only [pure_eq_ok] at hf
    subst hf
    exact ⟨x.attempt, rfl, .refl _ _⟩

theorem controlWork_ok {j : Journal} (hw : controlWork c r x = .ok j) :
    loadJournal c x = .ok j ∧ j = x.current := by
  simp only [controlWork, bind_eq_ok] at hw
  obtain ⟨j', hj, hw⟩ := hw
  have heq := (loadJournal_eq_ok.mp hj).1
  split at hw
  · simp only [bind_eq_ok, pure_eq_ok] at hw
    obtain ⟨-, -, rfl⟩ := hw
    exact ⟨hj, heq⟩
  · simp only [bind_eq_ok, pure_eq_ok] at hw
    obtain ⟨-, -, -, -, rfl⟩ := hw
    exact ⟨hj, heq⟩

end Inversion

/-! ### The inversion -/

/-- A committed step of the journal, with the gate and the ledger. -/
structure Commit (c : Codec) (r : FrozenJob) (x : Records) (now : ℤ) (a : Action) (next : Journal)
    (g : Grants) (l : Ledger) : Prop where
  journal : loadJournal c x = .ok x.current
  valid : next.valid c.toDispatch.toCodec = true
  size : fits c next = true
  version : next.version = x.current.version + 1
  recorded : Recorded x.current a next
  ledger : writeDispatchLedger c r x.ledger next a.kind = .ok l
  step : GateStep r x.grants now g
  answers : Answers c r a x.grants g
  gate : r.separateStart = true → x.grants.gate r ≠ none
  plans : a.kind = .beginPreparation → ∃ plan, a.plan = some plan ∧
    (dispatchAuthorization r x.grants (x.grants.gate r) now).toOption = some .consumed ∧
    matchesFrozenPlan r plan a.preparationID = true
  submits : r.separateStart = true → a.kind = .beginSubmission → g.StartUsed ∧
    a.startAuthorization = x.grants.startAuthorization r ∧ a.startAuthorization.isSome = true
  keeps : a.kind ≠ .beginSubmission → (g.StartUsed ↔ x.grants.StartUsed)

/-- An edit of the journal by a control, which leaves the recorded fields alone. -/
structure ControlEdit (c : Codec) (r : FrozenJob) (x : Records) (next : Journal) (l : Ledger) :
    Prop where
  journal : loadJournal c x = .ok x.current
  valid : next.valid c.toDispatch.toCodec = true
  size : fits c next = true
  version : next.version = x.current.version + 1
  same : SameRecords x.current next
  ledger : x.ledger.Matches c r x.current → l.Matches c r next

/-- What transactions do to the records; `o` tells the steps of the journal a worker may offer. -/
inductive Change (c : Codec) (r : FrozenJob) (x : Records) (now : ℤ) (o : Action → Prop) :
    Records → Prop
  | moved (a : Attempt) (lease : Option LeaseRow) (follows : x.attempt.Follows a now) :
      Change c r x now o { x with attempt := a, lease := lease }
  | retired : Change c r x now o { x with active := false }
  | granted (g : Grants) (step : Granting r x.grants now g) :
      Change c r x now o { x with grants := g }
  | controlled (next : Journal) (l : Ledger) (a : Attempt) (edit : ControlEdit c r x next l)
      (follows : x.attempt.Follows a now) :
      Change c r x now o { x with journal := some next, ledger := l, attempt := a }
  | committed (act : Action) (next : Journal) (g : Grants) (l : Ledger) (a : Attempt)
      (offered : o act) (commit : Commit c r x now act next g l)
        (follows : x.attempt.Follows a now) :
      Change c r x now o { x with
        journal := some next, grants := g, ledger := l, attempt := a
        barrier := x.barrier || act.kind = .beginPreparation }

section Inversion

variable {c : Codec} {r : FrozenJob} {x y : Records} {k : Claim} {h h' : Handle} {now : ℤ}
variable {o : Action → Prop}

theorem Change.refl (c : Codec) (r : FrozenJob) (x : Records) (now : ℤ) (o : Action → Prop) :
    Change c r x now o x :=
  .moved x.attempt x.lease (.refl _ _)

/-- A change that leaves the pointer of the job alone. -/
structure Kept (c : Codec) (r : FrozenJob) (x : Records) (now : ℤ) (o : Action → Prop)
    (y : Records) : Prop where
  change : Change c r x now o y
  active : y.active = x.active

namespace Kept

theorem refl (c : Codec) (r : FrozenJob) (x : Records) (now : ℤ) (o : Action → Prop) :
    Kept c r x now o x := ⟨.refl c r x now o, rfl⟩

theorem moved (a : Attempt) (lease : Option LeaseRow) (follows : x.attempt.Follows a now) :
    Kept c r x now o { x with attempt := a, lease := lease } := ⟨.moved a lease follows, rfl⟩

theorem granted (g : Grants) (step : Granting r x.grants now g) :
    Kept c r x now o { x with grants := g } := ⟨.granted g step, rfl⟩

theorem controlled (next : Journal) (l : Ledger) (a : Attempt) (edit : ControlEdit c r x next l)
    (follows : x.attempt.Follows a now) :
    Kept c r x now o { x with journal := some next, ledger := l, attempt := a } :=
  ⟨.controlled next l a edit follows, rfl⟩

end Kept

/-- The actions of a control leave the plan, the staging and the intent alone. -/
theorem ControlEdit.of_apply {s t : AttemptState} {a : Action} {next : Journal} {e : EventType}
    {l : Ledger} (hj : loadJournal c x = .ok x.current)
    (ha : apply c.toDispatch x.current s a now = .ok (next, t, e)) (hf : fits c next = true)
    (hk : a.kind = .preventDispatch ∨ a.kind = .requestReconciliation ∨
      a.kind = .ownerSubmissionAbsent ∨ a.kind = .observationSeen)
    (hl : writeDispatchLedger c r x.ledger next a.kind = .ok l) : ControlEdit c r x next l := by
  have hrec := apply_recorded ha
  obtain ⟨-, -, -, -, -, -, hv, -⟩ := apply_ok ha
  refine ⟨hj, hv, hf, apply_version ha, ?_, fun hm => matches_write hm (valid_of_load hj) hrec hl⟩
  cases hrec with
  | kept plans stages submits reports same => exact same
  | reported remote kind started unbound journal offer =>
    -- no control reports a reference
    obtain rfl : remote = none := by
      rw [offer, Action.accepts, if_neg]
      rcases hk with h | h | h | h <;> simp [h]
    exact ⟨journal.plan, journal.preparationID, journal.prepared, journal.submitStarted,
      journal.startAuthorization, journal.remote.trans unbound.symm⟩
  | planned plan kind => simp [kind] at hk
  | staged plan p kind => simp [kind] at hk
  | submitted p kind => simp [kind] at hk

theorem writeDispatchLedger_unwritten {l : Ledger} {next : Journal} {kind : Kind}
    (hk : kind = .preventDispatch ∨ kind = .requestReconciliation ∨ kind = .observationSeen) :
    writeDispatchLedger c r l next kind = .ok l := by
  unfold writeDispatchLedger
  split
  · rfl
  · rcases hk with rfl | rfl | rfl <;> rfl

/-- The gate adds its own part to an action and leaves the answer of the provider alone. -/
structure SameAnswer (a act : Action) : Prop where
  kind : act.kind = a.kind
  prepared : act.prepared = a.prepared
  submission : act.submission = a.submission

theorem SameAnswer.trans {a b d : Action} (h : SameAnswer a b) (h' : SameAnswer b d) :
    SameAnswer a d where
  kind := h'.kind.trans h.kind
  prepared := h'.prepared.trans h.prepared
  submission := h'.submission.trans h.submission

theorem SameAnswer.accepts {a act : Action} (h : SameAnswer a act) : act.accepts = a.accepts := by
  rw [Action.accepts, h.kind, h.submission, Action.accepts]

theorem commitDispatch_ok {a : Action} {exhausted : Bool}
    (hc : commitDispatch c r x h a exhausted now = .ok (y, h')) :
    ∃ act next g l att, y = { x with
        journal := some next, grants := g, ledger := l, attempt := att
        barrier := x.barrier || act.kind = .beginPreparation } ∧
      SameAnswer a act ∧ Commit c r x now act next g l ∧ x.attempt.Follows att now := by
  simp only [commitDispatch, bind_eq_ok, pure_eq_ok, Prod.mk.injEq, Prod.exists] at hc
  obtain ⟨-, -, work, hw, a1, ha1, g, a2, hg, next, state, happ, l, hl, x1, hx1, x2, hx2, x3, hx3,
    rfl, -⟩ := hc
  obtain ⟨rfl, hloaded, -⟩ := loadHandle_ok hw
  obtain ⟨hsame, hplans⟩ := checkAction_ok ha1
  have hres := commitGateStep_ok rfl hg
  obtain ⟨hf, e, happly⟩ := applied_ok happ
  obtain ⟨att, rfl, -, hfol1⟩ := schedulerTransition_ok hx1
  obtain rfl := writeJournal_ok hx2
  obtain ⟨att', rfl, hfol2⟩ := finishObservedOperations_ok hx3
  obtain ⟨-, -, -, -, -, -, hv, -⟩ := apply_ok happly
  have hgate : SameAnswer a1 a2 := by
    rcases hres.action with rfl | ⟨start, -, rfl⟩ <;> exact ⟨rfl, rfl, rfl⟩
  have hcheck : SameAnswer a a1 := by
    rcases hsame with rfl | ⟨-, b, rfl⟩ <;> exact ⟨rfl, rfl, rfl⟩
  refine ⟨a2, next, g, l, att', rfl, hcheck.trans hgate, ⟨hloaded.journal, hv, hf,
    apply_version happly, apply_recorded happly, hl, hres.step, ?_, hres.gate, fun hk => ?_,
    fun hr hk => ?_, fun hk => hres.keeps (hgate.kind ▸ hk)⟩, hfol1.trans hfol2⟩
  · simpa only [Answers, hgate.kind, hgate.prepared] using hres.answers
  · rw [hgate.kind, hcheck.kind] at hk
    obtain ⟨plan, hplan, hauth, hmatch⟩ := hplans hk
    have ha : a2.plan = a.plan ∧ a2.preparationID = a.preparationID := by
      rcases hres.action with rfl | ⟨start, -, rfl⟩ <;> rcases hsame with rfl | ⟨-, b, rfl⟩ <;>
        exact ⟨rfl, rfl⟩
    exact ⟨plan, ha.1.trans hplan, hauth, ha.2 ▸ hmatch⟩
  · exact hres.submits hr (hgate.kind ▸ hk)

theorem consumeAuthorization_kept (hc : consumeAuthorization c r x h now = .ok (y, h')) :
    Kept c r x now o y := by
  simp only [consumeAuthorization, bind_eq_ok] at hc
  obtain ⟨work, -, -, -, -, -, status, -, hc⟩ := hc
  split_ifs at hc with hstatus hgate
  · simp only [bind_eq_ok, pure_eq_ok, Prod.mk.injEq] at hc
    obtain ⟨g, hg, rfl, -⟩ := hc
    exact .granted g (consumed_prepare (consumeGrant_ok hg))
  · simp only [bind_eq_ok, pure_eq_ok, Prod.mk.injEq] at hc
    obtain ⟨g, hg, rfl, -⟩ := hc
    exact .granted g (consumed_execution (consumeGrant_ok hg))
  · simp only [pure_eq_ok, Prod.mk.injEq] at hc
    exact hc.1 ▸ .refl c r x now o

theorem commitCancellation_kept {report : CancellationReport}
    (hc : commitCancellation c r x h report now = .ok (y, h')) : Kept c r x now o y := by
  simp only [commitCancellation, bind_eq_ok] at hc
  obtain ⟨work, hw, hc⟩ := hc
  obtain ⟨rfl, hloaded, -⟩ := loadHandle_ok hw
  split at hc
  · cases hc
  · rename_i remote hremote
    simp only [bind_eq_ok] at hc
    obtain ⟨-, -, hc⟩ := hc
    cases report with
    | begun =>
      simp only [bind_eq_ok, pure_eq_ok, Prod.mk.injEq] at hc
      obtain ⟨-, -, x1, hx1, rfl, -⟩ := hc
      obtain ⟨att, rfl, -, hfol⟩ := controlState_ok hx1
      exact .moved att x.lease hfol
    | acknowledged =>
      simp only [bind_eq_ok, pure_eq_ok, Prod.mk.injEq] at hc
      obtain ⟨-, -, x1, hx1, rfl, -⟩ := hc
      obtain ⟨att, rfl, -, hfol⟩ := controlState_ok hx1
      exact .moved att x.lease hfol
    | unsupported =>
      simp only [bind_eq_ok, pure_eq_ok, Prod.mk.injEq] at hc
      obtain ⟨x1, hx1, rfl, -⟩ := hc
      obtain ⟨att, rfl, -, hfol⟩ := controlState_ok hx1
      exact .moved att x.lease hfol
    | confirmed =>
      simp only [bind_eq_ok, pure_eq_ok, Prod.mk.injEq, Prod.exists] at hc
      obtain ⟨next, state, happ, x1, hx1, x2, hx2, rfl, -⟩ := hc
      obtain ⟨hf, e, happly⟩ := applied_ok happ
      obtain ⟨rfl, -⟩ := controlJournal_ok hx1
      obtain ⟨att, rfl, -, hfol⟩ := controlState_ok hx2
      exact .controlled next x.ledger att
        (.of_apply hloaded.journal happly hf (by simp)
          (writeDispatchLedger_unwritten (by simp))) hfol

theorem claimNext_kept {owner fence : String} {ttl : ℤ}
    (hc : claimNext x owner fence ttl now = .ok y) : Kept c r x now o y := by
  simp only [claimNext, bind_eq_ok] at hc
  obtain ⟨-, -, -, -, row, -, hc⟩ := hc
  obtain ⟨att, rfl, -, hfol⟩ := schedulerTransition_ok hc
  exact .moved att (some row) hfol

theorem claimRecovery_kept {owner fence : String} {ttl : ℤ}
    (hc : claimRecovery c r x owner fence ttl now = .ok y) : Kept c r x now o y := by
  simp only [claimRecovery, bind_eq_ok] at hc
  obtain ⟨-, -, -, -, row, -, -, -, hc⟩ := hc
  obtain ⟨att, rfl, -, hfol⟩ := schedulerTransition_ok hc
  exact .moved att (some row) hfol

/-- A control that applies an action and moves the attempt. -/
theorem appliedControl_kept {a : Action} {next : Journal} {state : AttemptState} {l : Ledger}
    {z : Records} (hj : loadJournal c x = .ok x.current)
    (happ : appliedControl c x x.current a now = .ok (next, state))
    (hk : a.kind = .preventDispatch ∨ a.kind = .requestReconciliation ∨
      a.kind = .ownerSubmissionAbsent ∨ a.kind = .observationSeen)
    (hl : writeDispatchLedger c r x.ledger next a.kind = .ok l)
    (hz : controlJournal c { x with ledger := l } x.current next = .ok z)
    (hy : controlState z state now = .ok y) : Kept c r x now o y := by
  obtain ⟨e, happly⟩ := appliedControl_ok happ
  obtain ⟨rfl, -, -, hf⟩ := controlJournal_ok hz
  obtain ⟨att, rfl, -, hfol⟩ := controlState_ok hy
  exact .controlled next l att (.of_apply hj happly hf hk hl) hfol

theorem cancelLate_kept (hc : cancelLate x now = .ok y) : Kept c r x now o y := by
  simp only [cancelLate, bind_eq_ok] at hc
  obtain ⟨x1, hx1, hc⟩ := hc
  have hmid : ∃ a, x1 = { x with attempt := a } ∧ x.attempt.Follows a now := by
    unfold requestLate at hx1
    split_ifs at hx1
    · obtain ⟨att, rfl, -, hfol⟩ := controlState_ok hx1
      exact ⟨att, rfl, hfol⟩
    · cases hx1
      exact ⟨x.attempt, rfl, .refl _ _⟩
  obtain ⟨att, rfl, hfol⟩ := hmid
  obtain ⟨att', rfl, -, hfol'⟩ := controlState_ok hc
  exact .moved att' x.lease (hfol.trans hfol')

theorem cancelSubmitted_kept {uninvoked : Bool} (hj : loadJournal c x = .ok x.current)
    (hc : cancelSubmitted c x x.current uninvoked now = .ok y) : Kept c r x now o y := by
  simp only [cancelSubmitted, bind_eq_ok] at hc
  obtain ⟨-, -, x1, hx1, hc⟩ := hc
  obtain ⟨att, rfl, -, hfol⟩ := controlState_ok hx1
  split_ifs at hc with hphase
  · split at hc
    · obtain ⟨att', rfl, -, hfol'⟩ := controlState_ok hc
      exact .moved att' x.lease (hfol.trans hfol')
    · rename_i next state happ
      obtain ⟨e, happly⟩ := appliedControl_ok happ
      obtain ⟨rfl, -, -, hf⟩ := controlJournal_ok hc
      exact .controlled next x.ledger att (.of_apply hj happly hf (by simp)
        (writeDispatchLedger_unwritten (by simp))) hfol
  · simp only [pure_eq_ok] at hc
    subst hc
    exact .moved att x.lease hfol

theorem admitCancellation_kept {uninvoked : Bool}
    (hc : admitCancellation c r x uninvoked now = .ok y) : Kept c r x now o y := by
  unfold admitCancellation at hc
  by_cases hterm : x.attempt.state.orchestration.terminal = true
  · rw [if_pos hterm, pure_eq_ok] at hc
    exact hc ▸ .refl c r x now o
  · rw [if_neg hterm] at hc
    simp only [bind_eq_ok] at hc
    obtain ⟨-, -, j, hw, hc⟩ := hc
    obtain ⟨hj, rfl⟩ := controlWork_ok hw
    split_ifs at hc with hexec hstart
    · exact cancelLate_kept hc
    · simp only [cancelUnsubmitted, bind_eq_ok, Prod.exists] at hc
      obtain ⟨next, state, happ, z, hz, hc⟩ := hc
      exact appliedControl_kept hj happ (by simp) (writeDispatchLedger_unwritten (by simp)) hz hc
    · exact cancelSubmitted_kept hj hc

theorem admitReconciliation_kept {resolution : Option (Resolution × String)}
    (hc : admitReconciliation c r x resolution now = .ok y) : Kept c r x now o y := by
  unfold admitReconciliation at hc
  simp only at hc
  split_ifs at hc with hterm
  · simp only [pure_eq_ok] at hc
    exact hc ▸ .refl c r x now o
  · simp only [bind_eq_ok, Prod.exists] at hc
    obtain ⟨-, -, j, hw, -, -, next, state, happ, l, hl, z, hz, hc⟩ := hc
    obtain ⟨hj, rfl⟩ := controlWork_ok hw
    have hk : (reconciliationAction resolution).kind = .requestReconciliation ∨
        (reconciliationAction resolution).kind = .ownerSubmissionAbsent := by
      rcases resolution with - | ⟨⟨⟩, name⟩ <;> simp [reconciliationAction]
    have hl' : writeDispatchLedger c r x.ledger next (reconciliationAction resolution).kind =
        .ok l := by
      unfold reconciledLedger at hl
      split_ifs at hl with hkind
      · exact hl
      · cases hl
        exact writeDispatchLedger_unwritten (Or.inr (Or.inl (hk.resolve_right hkind)))
    exact appliedControl_kept hj happ (by tauto) hl' hz hc

theorem collectionCondition_kept {a : Attempt} {p : Option Problem}
    (hfol : x.attempt.Follows a now)
    (hc : collectionCondition c r { x with attempt := a } p = .ok y) : Kept c r x now o y := by
  simp only [collectionCondition, bind_eq_ok] at hc
  obtain ⟨j, hw, -, -, hc⟩ := hc
  obtain ⟨hj, rfl⟩ := controlWork_ok hw
  obtain ⟨rfl, hv, hver, hf⟩ := controlJournal_ok hc
  exact .controlled _ x.ledger a ⟨hj, hv, hf, hver, ⟨rfl, rfl, rfl, rfl, rfl, rfl⟩,
    fun hm => hm.of_same ⟨rfl, rfl, rfl, rfl, rfl, rfl⟩ fun _ => Iff.rfl⟩ hfol

theorem editCollection_kept {edit : CollectionEdit}
    (hc : editCollection c r x edit now = .ok y) : Kept c r x now o y := by
  cases edit with
  | claim =>
    simp only [editCollection, bind_eq_ok] at hc
    obtain ⟨-, -, -, -, -, -, hc⟩ := hc
    obtain ⟨att, rfl, -, hfol⟩ := controlState_ok hc
    exact .moved att x.lease hfol
  | complete completed =>
    simp only [editCollection, bind_eq_ok] at hc
    obtain ⟨-, -, -, -, next, -, x1, hx1, hc⟩ := hc
    obtain ⟨att, rfl, -, hfol⟩ := controlState_ok hx1
    exact collectionCondition_kept hfol hc
  | fail invalid p =>
    simp only [editCollection, bind_eq_ok] at hc
    obtain ⟨-, -, -, -, x1, hx1, hc⟩ := hc
    obtain ⟨att, rfl, -, hfol⟩ := controlState_ok hx1
    exact collectionCondition_kept hfol hc
  | discard p =>
    simp only [editCollection, bind_eq_ok] at hc
    obtain ⟨x1, hx1, hc⟩ := hc
    obtain ⟨att, rfl, -, hfol⟩ := controlState_ok hx1
    exact collectionCondition_kept hfol hc
  | cleaned =>
    simp only [editCollection] at hc
    split_ifs at hc
    · obtain ⟨att, rfl, -, hfol⟩ := controlState_ok hc
      exact .moved att x.lease hfol
    · simp only [pure_eq_ok] at hc
      exact hc ▸ .refl c r x now o
  | expire =>
    simp only [editCollection, bind_eq_ok] at hc
    obtain ⟨-, -, hc⟩ := hc
    obtain ⟨att, rfl, -, hfol⟩ := writeState_ok hc
    exact .moved att x.lease hfol

theorem authorizeExecution_kept {attemptID : String} {wall : ℤ} {id : FreshID}
    (hc : authorizeExecution r x attemptID wall id now = .ok y) : Kept c r x now o y := by
  simp only [authorizeExecution, bind_eq_ok, require_eq_ok, decide_eq_true_eq,
    Option.isNone_iff_eq_none] at hc
  obtain ⟨-, -, -, -, -, -, -, rfl, -, hnone, -, -, hc⟩ := hc
  split at hc
  · cases hc
  · rename_i inputs hinputs
    simp only [pure_eq_ok] at hc
    subst hc
    exact .granted _ (.authorized id inputs hnone hinputs)

theorem prepareExecution_kept {q : PrepareRequest} {id : FreshID}
    (hc : prepareExecution c r x q id now = .ok y) : Kept c r x now o y := by
  simp only [prepareExecution, gateRecord, bind_eq_ok, require_eq_ok, decide_eq_true_eq,
    Bool.and_eq_true, Option.isNone_iff_eq_none] at hc
  obtain ⟨-, hv, -, ⟨-, ⟨-, hid⟩, -⟩, -, hfuture, -, ⟨hhold, -⟩, -, -, -, -, -, hnone, hc⟩ := hc
  split at hc
  · cases hc
  · rename_i inputs hinputs
    simp only [bind_eq_ok, require_eq_ok, pure_eq_ok, Bool.and_eq_true, decide_eq_true_eq] at hc
    obtain ⟨-, ⟨-, hbytes⟩, rfl⟩ := hc
    exact .granted _ (.prepared q id inputs hnone hinputs hv hid hfuture hhold hbytes)

theorem startExecution_kept {q : StartRequest} {id : FreshID} {available : Bool}
    (hc : startExecution c r x q id available now = .ok y) : Kept c r x now o y := by
  simp only [startExecution, gateRecord, bind_eq_ok, require_eq_ok, decide_eq_true_eq,
    Bool.and_eq_true] at hc
  obtain ⟨-, hv, -, ⟨-, ⟨-, hid⟩, -⟩, gate, hgate, hc⟩ := hc
  obtain rfl := gate_of_load hgate
  cases hg : x.grants.gate r with
  | none => simp [hg] at hc
  | some gate =>
    obtain ⟨hr, p, hp, hrev, hat, -, hreq, hstart, -⟩ := rows_of_gate hg
    simp only [hg, startable, bind_eq_ok, require_eq_ok, pure_eq_ok, Bool.and_eq_true,
      decide_eq_true_eq, Option.isNone_iff_eq_none, Bool.not_eq_true'] at hc
    obtain ⟨-, ⟨-, ⟨-, hready⟩, -, hnone, -, hexp, -, hsame, -⟩, -, hfuture, -,
      ⟨⟨⟨-, hwall⟩, hstop⟩, hdeadline⟩, secret, hsecret, -, -, rfl⟩ := hc
    have hfresh : x.grants.start = none := by
      cases hs : x.grants.start with
      | none => rfl
      | some s =>
        rw [hnone, Grants.startAuthorization_eq hp hs, if_pos hr] at hstart
        cases hstart
    obtain ⟨at_, hat'⟩ := Option.isSome_iff_exists.mp hready
    simp only [Gate.expired, Bool.or_eq_false_iff, decide_eq_false_iff_not, not_le, hreq] at hexp
    refine .granted _ (.started q id p at_ secret hp hfresh hv hid ?_ (hat ▸ hat') hwall hfuture
      hstop hdeadline hexp.1 hsecret)
    simpa [← hsame, Grants.readyRevision, hp] using hrev

theorem supplyWorkloadSecrets_kept {m : Metadata} {id : FreshID}
    (hc : supplyWorkloadSecrets c r x m id now = .ok y) : Kept c r x now o y := by
  simp only [supplyWorkloadSecrets, gateRecord, bind_eq_ok, require_eq_ok, pure_eq_ok,
    decide_eq_true_eq, Bool.and_eq_true, Option.isNone_iff_eq_none] at hc
  obtain ⟨-, hv, -, ⟨-, ⟨-, hid⟩, -⟩, -, hslots, -, -, -, -, -, -, -, -, -,
    ⟨hfuture, hlife⟩, -, hnone, rfl⟩ := hc
  exact .granted _ (.supplied m id hnone hv hid hslots hfuture hlife)

theorem revokeWorkloadSecrets_kept {id : String}
    (hc : revokeWorkloadSecrets r x id now = .ok y) : Kept c r x now o y := by
  simp only [revokeWorkloadSecrets, bind_eq_ok, require_eq_ok, pure_eq_ok, Bool.and_eq_true,
    Option.isNone_iff_eq_none] at hc
  obtain ⟨s, hs, -, -, -, -, -, ⟨hcons, hrev⟩, rfl⟩ := hc
  exact .granted _ (.revoked s (loadSecret_eq_ok.mp hs).1 hcons hrev)

theorem silent_ok {e : Except Err Records} {h? : Option Handle} (hs : silent e = .ok (y, h?)) :
    e = .ok y ∧ h? = none := by
  cases e with
  | error e => cases hs
  | ok z =>
    cases hs
    exact ⟨rfl, rfl⟩

theorem issuing_ok {e : Except Err (Records × Handle)} {h? : Option Handle}
    (hs : issuing e = .ok (y, h?)) : ∃ h, e = .ok (y, h) ∧ h? = some h := by
  cases e with
  | error e => cases hs
  | ok z =>
    cases hs
    exact ⟨z.2, rfl, rfl⟩

/-- The steps of the journal a request offers. -/
def Request.offers : Request → Action → Prop
  | .commit _ a _, act => SameAnswer a act
  | _, _ => False

def Request.retries : Request → Bool
  | .retry => true
  | _ => false

/-- No transaction but a retry moves the pointer of the job. -/
theorem perform_kept {q : Request} {h? : Option Handle} (hq : q.retries = false)
    (hp : perform c r x now q = .ok (y, h?)) : Kept c r x now q.offers y := by
  cases q with
  | authorize => exact authorizeExecution_kept (silent_ok hp).1
  | prepare => exact prepareExecution_kept (silent_ok hp).1
  | start => exact startExecution_kept (silent_ok hp).1
  | supply => exact supplyWorkloadSecrets_kept (silent_ok hp).1
  | revoke => exact revokeWorkloadSecrets_kept (silent_ok hp).1
  | claimNext => exact claimNext_kept (silent_ok hp).1
  | claimRecovery => exact claimRecovery_kept (silent_ok hp).1
  | load k =>
    obtain ⟨h, hl, -⟩ := issuing_ok hp
    simp only [loadWork, bind_eq_ok, pure_eq_ok, Prod.mk.injEq] at hl
    obtain ⟨-, -, rfl, -⟩ := hl
    exact .refl c r x now _
  | renew h ttl =>
    obtain ⟨h', hl, -⟩ := issuing_ok hp
    simp only [renewDispatch, bind_eq_ok, pure_eq_ok, Prod.mk.injEq] at hl
    obtain ⟨-, -, row, -, rfl, -⟩ := hl
    exact .moved x.attempt (some row) (.refl _ _)
  | yield h delay =>
    have hl := (silent_ok hp).1
    simp only [yieldDispatch, bind_eq_ok, pure_eq_ok] at hl
    obtain ⟨-, -, -, -, row, -, rfl⟩ := hl
    exact .moved x.attempt (some row) (.refl _ _)
  | consume =>
    obtain ⟨h', hl, -⟩ := issuing_ok hp
    exact consumeAuthorization_kept hl
  | commit =>
    obtain ⟨h', hl, -⟩ := issuing_ok hp
    obtain ⟨act, next, g, l, att, rfl, hoffer, hcommit, hfol⟩ := commitDispatch_ok hl
    exact ⟨.committed act next g l att hoffer hcommit hfol, rfl⟩
  | cancelled =>
    obtain ⟨h', hl, -⟩ := issuing_ok hp
    exact commitCancellation_kept hl
  | cancel => exact admitCancellation_kept (silent_ok hp).1
  | reconcile => exact admitReconciliation_kept (silent_ok hp).1
  | collect => exact editCollection_kept (silent_ok hp).1
  | retry => cases hq

/-- **Inversion**: every transaction is one of the listed changes. -/
theorem perform_change {q : Request} {h? : Option Handle}
    (hp : perform c r x now q = .ok (y, h?)) : Change c r x now q.offers y := by
  by_cases hq : q.retries = false
  · exact (perform_kept hq hp).change
  · cases q with
    | retry =>
      have hl := (silent_ok hp).1
      simp only [retry, bind_eq_ok, pure_eq_ok] at hl
      obtain ⟨-, -, -, -, rfl⟩ := hl
      exact .retired
    | _ => exact absurd rfl hq

/-- A transaction at the time its clock hands out, which also sets the next floor. -/
theorem transact_eq_ok {tx : Tx} {h? : Option Handle} (ht : x.transact c r tx = .ok (y, h?)) :
    ∃ now z, write x.floor tx.wall = .ok (now, y.floor) ∧
      perform c r x now tx.request = .ok (z, h?) ∧ y = { z with floor := y.floor } := by
  simp only [Records.transact, bind_eq_ok, pure_eq_ok, Prod.mk.injEq, Prod.exists] at ht
  obtain ⟨now, next, hw, z, h, hp, rfl, rfl⟩ := ht
  exact ⟨now, z, hw, hp, rfl⟩

/-- One accepted transaction: its time is at or after every earlier one, and the floor is past
it. -/
theorem step_change {tx : Tx} (hs : x.step c r tx = some y) :
    ∃ now z, ofMilli x.floor ≤ now ∧ now ≤ ofMilli y.floor ∧ validTime now = true ∧
      Change c r x now tx.request.offers z ∧ y = { z with floor := y.floor } := by
  obtain ⟨⟨y, h?⟩, hy, rfl⟩ := Option.map_eq_some_iff.mp hs
  obtain ⟨now, z, hw, hp, heq⟩ := transact_eq_ok (toOption_eq_some hy)
  obtain ⟨hle, -, hfloor, hv⟩ := write_eq_ok hw
  exact ⟨now, z, hle, hfloor ▸ le_ofMilli_nextFloor now, hv, perform_change hp, heq⟩

end Inversion

end Store
end ComputeRelay
