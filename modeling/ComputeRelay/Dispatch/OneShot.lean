import Mathlib.Tactic
import ComputeRelay.Lib.Run
import ComputeRelay.Dispatch.Cases

/-!
# One-shot mutation intents

What `apply` fixes for good. Along a run of actions, refused ones skipped, the preparation intent
and the submission intent are each recorded at most once, and what they pin (plan, preparation id,
staging resource, start authorization, remote reference) never changes.

* `apply_ok` reads an accepted call: the arguments were admissible, the step is one of the cases
  and the result is valid.
* `Keeps` is the frame of one step, `apply_keeps` proves it and `run_keeps` extends it to runs.
* `one_shot_intents` is the main result.
-/

namespace ComputeRelay
namespace Dispatch

open Domain Provider Scheduler

/-- The pair a run of the journal machine works on. -/
abbrev Config := Journal × AttemptState

/-- Offer one action at one time. -/
def advance (c : Codec) (x : Config) (l : Action × ℤ) : Option Config :=
  match apply c x.1 x.2 l.1 l.2 with
  | .ok (j, t, _) => some (j, t)
  | .error _ => none

/-- The journal of an attempt nothing has happened to. -/
def localJournal : Journal := { phase := .local_ }

theorem local_valid (c : Provider.Codec) : localJournal.valid c = true := by
  simp [localJournal, Journal.valid, Journal.submissionRule, Journal.detailRule,
    Journal.preparationRule, Journal.startRule, Journal.countRule, Journal.unplannedRule,
    Journal.detail, maxFailures]

section Inversion

variable {c : Codec} {old j : Journal} {s t : AttemptState} {a : Action} {now : ℤ} {e : EventType}

theorem admissible_iff : admissible c old s now = true ↔
    old.valid c.toCodec = true ∧ s.validate = true ∧ validTime now = true ∧
      old.version ≠ maxInt64 ∧ ∃ n, c.journalBytes old = some n ∧ n ≤ maxJournalBytes := by
  simp only [admissible, Bool.and_eq_true, decide_eq_true_eq, Option.any_eq_true, and_assoc, ne_eq]

theorem apply_ok (h : apply c old s a now = .ok (j, t, e)) :
    admissible c old s now = true ∧ ∃ d, StepCase c old s a now d ∧ j = committed d.journal ∧
      t = d.next ∧ e = d.event ∧ j.valid c.toCodec = true ∧ s.Moves t := by
  obtain ⟨hadm, h⟩ := ok_of_guard h
  simp only [Bool.not_eq_true', Bool.not_eq_false] at hadm
  refine ⟨hadm, ?_⟩
  cases hd : step c old s a now with
  | error err =>
    rw [hd] at h
    cases h
  | ok d =>
    rw [hd] at h
    simp only [Except.bind, finish] at h
    split_ifs at h with hg
    rw [Bool.and_eq_true, AttemptState.moves_iff] at hg
    cases h
    exact ⟨d, step_cases hd, rfl, rfl, rfl, hg.1, hg.2⟩

theorem advance_eq_some {x y : Config} {l : Action × ℤ} (h : advance c x l = some y) :
    ∃ e, apply c x.1 x.2 l.1 l.2 = .ok (y.1, y.2, e) := by
  unfold advance at h
  split at h
  · next j t e he =>
    cases h
    exact ⟨e, he⟩
  · cases h

end Inversion

/-! ### The frame of a step -/

/-- What a journal has fixed stays fixed in `j`. -/
structure Keeps (old j : Journal) : Prop where
  started : old.submitStarted = true → j.submitStarted = true
  plan : ∀ p, old.plan = some p → j.plan = some p
  preparationID : old.preparationID ≠ "" → j.preparationID = old.preparationID
  start : ∀ x, old.startAuthorization = some x → j.startAuthorization = some x
  remote : ∀ r, old.remote = some r → j.remote = some r
  resource : ∀ p, old.prepared = some p → ∃ q, j.prepared = some q ∧ q.resource = p.resource

theorem Keeps.refl (j : Journal) : Keeps j j :=
  ⟨id, fun _ h => h, fun _ => rfl, fun _ h => h, fun _ h => h, fun p h => ⟨p, h, rfl⟩⟩

theorem Keeps.trans {i j k : Journal} (h1 : Keeps i j) (h2 : Keeps j k) : Keeps i k where
  started h := h2.started (h1.started h)
  plan p h := h2.plan p (h1.plan p h)
  preparationID h := by
    have hj := h1.preparationID h
    rw [h2.preparationID (by rw [hj]; exact h), hj]
  start x h := h2.start x (h1.start x h)
  remote r h := h2.remote r (h1.remote r h)
  resource p h := by
    obtain ⟨q, hq, hqr⟩ := h1.resource p h
    obtain ⟨r, hr, hrr⟩ := h2.resource q hq
    exact ⟨r, hr, hrr.trans hqr⟩

/-- A journal that agrees with `old` on the fixed fields keeps them. -/
theorem Keeps.of_eq {old j : Journal} (h1 : j.submitStarted = old.submitStarted)
    (h2 : j.plan = old.plan) (h3 : j.preparationID = old.preparationID)
    (h4 : j.startAuthorization = old.startAuthorization) (h5 : j.remote = old.remote)
    (h6 : j.prepared = old.prepared) : Keeps old j where
  started h := h1.trans h
  plan _ h := h2.trans h
  preparationID _ := h3
  start _ h := h4.trans h
  remote _ h := h5.trans h
  resource p h := ⟨p, h6.trans h, rfl⟩

theorem preparationID_of_unplanned {c : Provider.Codec} {j : Journal} (hv : j.valid c = true)
    (hp : j.plan = none) : j.preparationID = "" := by
  simp only [Journal.valid, hp, Journal.unplannedRule, Bool.and_eq_true, decide_eq_true_eq] at hv
  tauto

theorem start_of_unstarted {c : Provider.Codec} {j : Journal} (hv : j.valid c = true)
    (hs : j.submitStarted = false) : j.startAuthorization = none := by
  cases h : j.startAuthorization with
  | none => rfl
  | some x => simp [Journal.valid, Journal.startRule, h, hs] at hv

theorem StepCase.keeps {c : Codec} {old : Journal} {s : AttemptState} {a : Action} {now : ℤ}
    {d : Draft} (hv : old.valid c.toCodec = true) (h : StepCase c old s a now d) :
    Keeps old d.journal := by
  cases h with
  | refused | prevented | expired | reobserved | abandoned | absenceNoted | vanished =>
    exact .of_eq rfl rfl rfl rfl rfl rfl
  | rejected | ambiguous | absent | disowned => exact .of_eq rfl rfl rfl rfl rfl rfl
  | reopened j kind journal =>
    rcases journal with ⟨-, rfl⟩ | ⟨-, -, -, -, -, -, rfl⟩ <;>
      exact .of_eq rfl rfl rfl rfl rfl rfl
  | intended plan _ _ _ fresh =>
    refine ⟨id, ?_, ?_, fun _ h => h, fun _ h => h, fun p h => ⟨p, h, rfl⟩⟩
    · intro p hp
      rw [fresh] at hp
      cases hp
    · intro hne
      exact absurd (preparationID_of_unplanned hv fresh) hne
  | exposed plan p _ _ _ _ _ _ same =>
    exact ⟨id, fun _ h => h, fun _ => rfl, fun _ h => h, fun _ h => h,
      fun q hq => ⟨p, rfl, (same q hq).symm⟩⟩
  | staged plan p _ _ _ _ _ _ same =>
    exact ⟨id, fun _ h => h, fun _ => rfl, fun _ h => h, fun _ h => h,
      fun q hq => ⟨p, rfl, (same q hq).symm⟩⟩
  | submitted p _ _ started =>
    refine ⟨fun _ => rfl, fun _ h => h, fun _ => rfl, ?_, fun _ h => h, fun p h => ⟨p, h, rfl⟩⟩
    intro x hx
    rw [start_of_unstarted hv started] at hx
    cases hx
  | accepted plan o remote _ _ _ _ unbound =>
    refine ⟨id, fun _ h => h, fun _ => rfl, fun _ h => h, ?_, fun p h => ⟨p, h, rfl⟩⟩
    intro r hr
    rw [unbound] at hr
    cases hr
  | observed remote obs j t _ _ _ _ _ _ _ _ journal =>
    obtain ⟨p, n, rfl⟩ := journal
    exact .of_eq rfl rfl rfl rfl rfl rfl
  | localFault name code p =>
    obtain ⟨q, hd | hd⟩ := localFault_cases (faultJournal old name now) old s code p now <;>
      rw [hd] <;> exact .of_eq rfl rfl rfl rfl rfl rfl
  | remoteFault name code p =>
    rcases remoteFault_cases (faultJournal old name now) old s code p with hd | hd <;>
      rw [hd] <;> exact .of_eq rfl rfl rfl rfl rfl rfl

theorem apply_keeps {c : Codec} {old j : Journal} {s t : AttemptState} {a : Action} {now : ℤ}
    {e : EventType} (h : apply c old s a now = .ok (j, t, e)) : Keeps old j := by
  obtain ⟨hadm, d, hd, rfl, -⟩ := apply_ok h
  have hk := hd.keeps (admissible_iff.mp hadm).1
  exact ⟨hk.started, hk.plan, hk.preparationID, hk.start, hk.remote, hk.resource⟩

theorem run_keeps (c : Codec) (x : Config) (as : List (Action × ℤ)) :
    Keeps x.1 (Run.run (advance c) x as).1 := by
  refine Run.run_rel (R := fun x y : Config => Keeps x.1 y.1) (P := fun _ => True)
    (fun x => .refl x.1) (fun _ _ _ => .trans) trivial ?_ as
  intro y l z _ hz
  obtain ⟨e, he⟩ := advance_eq_some hz
  exact ⟨trivial, apply_keeps he⟩

/-! ### The two intents -/

section Intents

variable {c : Codec} {old : Journal} {s : AttemptState} {a : Action} {now : ℤ} {d : Draft}

/-- A preparation intent needs a journal without a plan and leaves one with a plan. -/
theorem StepCase.plan_of_beginPreparation (h : StepCase c old s a now d)
    (hk : a.kind = .beginPreparation) : old.plan = none ∧ d.journal.plan ≠ none := by
  cases h with
  | intended plan _ _ _ fresh => exact ⟨fresh, by simp⟩
  | _ => simp_all

/-- A submission intent needs a journal without one, and staging that is ready and private. -/
theorem StepCase.started_of_beginSubmission (h : StepCase c old s a now d)
    (hk : a.kind = .beginSubmission) :
    (old.submitStarted = false ∧ d.journal.submitStarted = true) ∧
      ∃ p, old.prepared = some p ∧ p.ready = true ∧ p.private_ = true := by
  cases h with
  | submitted p _ _ started prepared ready hidden =>
    exact ⟨⟨started, rfl⟩, p, prepared, ready, hidden⟩
  | _ => simp_all

theorem StepCase.version_eq (h : StepCase c old s a now d) : d.journal.version = old.version := by
  cases h with
  | reopened j kind journal => rcases journal with ⟨-, rfl⟩ | ⟨-, -, -, -, -, -, rfl⟩ <;> rfl
  | observed remote obs j t _ _ _ _ _ _ _ _ journal =>
    obtain ⟨p, n, rfl⟩ := journal
    rfl
  | localFault name code p =>
    obtain ⟨q, hd | hd⟩ := localFault_cases (faultJournal old name now) old s code p now <;>
      rw [hd] <;> rfl
  | remoteFault name code p =>
    rcases remoteFault_cases (faultJournal old name now) old s code p with hd | hd <;>
      rw [hd] <;> rfl
  | _ => rfl

/-- The labels that offer an action of one kind. -/
def ofKind (k : Kind) (l : Action × ℤ) : Bool := l.1.kind = k

/-- At most one preparation intent is accepted, and then the journal has a plan. -/
theorem accepted_beginPreparation (c : Codec) (x : Config) (as : List (Action × ℤ)) :
    (Run.accepted (advance c) x as).countP (ofKind .beginPreparation) ≤ 1 ∧
      (0 < (Run.accepted (advance c) x as).countP (ofKind .beginPreparation) →
        (Run.run (advance c) x as).1.plan ≠ none) := by
  refine Run.accepted_countP_le_one (q := fun y : Config => y.1.plan ≠ none) ?_ ?_ as
  · intro y l z hz hl
    obtain ⟨e, he⟩ := advance_eq_some hz
    obtain ⟨-, d, hd, hj, -⟩ := apply_ok he
    obtain ⟨h1, h2⟩ := hd.plan_of_beginPreparation (by simpa [ofKind] using hl)
    exact ⟨not_not.mpr h1, by rw [hj]; exact h2⟩
  · intro y l z hz hy
    obtain ⟨e, he⟩ := advance_eq_some hz
    obtain ⟨p, hp⟩ := Option.ne_none_iff_exists'.mp hy
    simp [(apply_keeps he).plan p hp]

/-- At most one submission intent is accepted, and then the journal records it. -/
theorem accepted_beginSubmission (c : Codec) (x : Config) (as : List (Action × ℤ)) :
    (Run.accepted (advance c) x as).countP (ofKind .beginSubmission) ≤ 1 ∧
      (0 < (Run.accepted (advance c) x as).countP (ofKind .beginSubmission) →
        (Run.run (advance c) x as).1.submitStarted = true) := by
  refine Run.accepted_countP_le_one (q := fun y : Config => y.1.submitStarted = true) ?_ ?_ as
  · intro y l z hz hl
    obtain ⟨e, he⟩ := advance_eq_some hz
    obtain ⟨-, d, hd, hj, -⟩ := apply_ok he
    obtain ⟨⟨h1, h2⟩, -⟩ := hd.started_of_beginSubmission (by simpa [ofKind] using hl)
    exact ⟨by simp [h1], by rw [hj]; exact h2⟩
  · intro y l z hz hy
    obtain ⟨e, he⟩ := advance_eq_some hz
    exact (apply_keeps he).started hy

end Intents

/-- **One-shot mutation intents.** In every run from a local journal, whatever is offered:

* at most one preparation intent and at most one submission intent are accepted;
* an accepted action raises the version by one and leaves a valid journal and a valid state, and a
  submission intent is accepted only over staging that is ready and private;
* whatever is offered afterwards, the journal keeps what it has fixed, and neither intent is
  accepted a second time. -/
theorem one_shot_intents (c : Codec) (s : AttemptState) (as : List (Action × ℤ)) :
    let x := Run.run (advance c) (localJournal, s) as
    let hist := Run.accepted (advance c) (localJournal, s) as
    (hist.countP (ofKind .beginPreparation) ≤ 1 ∧ hist.countP (ofKind .beginSubmission) ≤ 1) ∧
    (∀ a now j t e, apply c x.1 x.2 a now = .ok (j, t, e) →
      j.version = x.1.version + 1 ∧ j.valid c.toCodec = true ∧ t.validate = true ∧
      (a.kind = .beginSubmission →
        ∃ p, x.1.prepared = some p ∧ p.ready = true ∧ p.private_ = true)) ∧
    ∀ bs, let y := Run.run (advance c) x bs
      Keeps x.1 y.1 ∧
      (0 < hist.countP (ofKind .beginPreparation) →
        ∀ a now r, a.kind = .beginPreparation → apply c y.1 y.2 a now ≠ .ok r) ∧
      (0 < hist.countP (ofKind .beginSubmission) →
        ∀ a now r, a.kind = .beginSubmission → apply c y.1 y.2 a now ≠ .ok r) := by
  intro x hist
  obtain ⟨hprep, hplan⟩ := accepted_beginPreparation c (localJournal, s) as
  obtain ⟨hsub, hstarted⟩ := accepted_beginSubmission c (localJournal, s) as
  refine ⟨⟨hprep, hsub⟩, ?_, ?_⟩
  · intro a now j t e h
    obtain ⟨-, d, hd, hj, -, -, hv, hm⟩ := apply_ok h
    refine ⟨?_, hv, hm.next, fun hk => (hd.started_of_beginSubmission hk).2⟩
    rw [hj]
    exact congrArg (· + 1) hd.version_eq
  · intro bs y
    have hkeeps : Keeps x.1 y.1 := run_keeps c x bs
    refine ⟨hkeeps, ?_, ?_⟩
    · rintro hpos a now ⟨j, t, e⟩ hk h
      obtain ⟨p, hp⟩ := Option.ne_none_iff_exists'.mp (hplan hpos)
      obtain ⟨-, d, hd, -⟩ := apply_ok h
      exact absurd (hd.plan_of_beginPreparation hk).1 (by simp [hkeeps.plan p hp])
    · rintro hpos a now ⟨j, t, e⟩ hk h
      obtain ⟨-, d, hd, -⟩ := apply_ok h
      exact absurd (hd.started_of_beginSubmission hk).1.1
        (by simp [hkeeps.started (hstarted hpos)])

end Dispatch
end ComputeRelay
