import Mathlib.Tactic
import ComputeRelay.Dispatch.Control

/-!
# Two inventories of one name

A submission is declared absent by a second inventory that does not list its name, a grace after the
first. The journal keeps the time of the first inventory and the name in two fields.

* `StepCase.inventory` says what one step does to the two fields: they stay, an inventory sets them
  together, or the name alone is replaced by the one a reply or a fault reports.
* `Pairs` is the condition under which the name is not replaced behind the time.
* `absence_after_two_inventories` is the result for every run whose steps meet it, and
  `absence_of_renamed_submission` a run that does not.
-/

namespace ComputeRelay
namespace Dispatch

open Domain Provider Scheduler

/-- The name an ambiguous reply carries. -/
def Action.repliedName (a : Action) : Option String :=
  match a.submission with
  | none => none
  | some o =>
    if o.status = .unknown then o.problem.map (·.publicDetails.get resourceNameDetail) else none

/-- Behind the time of a first inventory, and before a reference is accepted, neither a fault nor an
ambiguous reply reports another name. -/
def Pairs (j : Journal) (a : Action) : Prop :=
  j.submissionAbsenceObservedAt ≠ none → j.remote = none →
    (a.kind = .fault → a.reportedName = "" ∨ a.reportedName = j.submissionResourceName) ∧
    (a.kind = .submissionSeen → ∀ name, a.repliedName = some name →
      name = j.submissionResourceName)

instance (j : Journal) (a : Action) : Decidable (Pairs j a) :=
  have : Decidable (∀ name, a.repliedName = some name → name = j.submissionResourceName) :=
    decidable_of_iff (a.repliedName.all (· = j.submissionResourceName))
      (by simp [Option.all_eq_true])
  inferInstanceAs (Decidable (_ → _ → _ ∧ _))

section Step

variable {c : Codec} {old : Journal} {s : AttemptState} {a : Action} {now : ℤ} {d : Draft}

theorem unseen_of_unstarted (hv : old.valid c.toCodec = true) (hs : old.submitStarted = false) :
    old.submissionAbsenceObservedAt = none := by
  have h := (Journal.sound_of_valid hv).submission
  simp only [Journal.submissionRule, Bool.and_eq_true, hs] at h
  cases hseen : old.submissionAbsenceObservedAt with
  | none => rfl
  | some t => simp [hseen] at h

/-- A report of the recorded name, or the first of a name, behind a first inventory. -/
theorem name_of_seen (hv : old.valid c.toCodec = true) {t : ℤ}
    (hseen : old.submissionAbsenceObservedAt = some t) {name : String}
    (hname : old.submissionResourceName = "" ∨ old.submissionResourceName = name) :
    name = old.submissionResourceName := by
  have h := (Journal.sound_of_valid hv).submission
  simp only [Journal.submissionRule, Bool.and_eq_true, hseen, Option.all_some,
    decide_eq_true_eq] at h
  exact (hname.resolve_left h.2.2).symm

/-- **The two fields.** A time in the journal after a step was there before, with the same name, or
is the time of this inventory, with its name. -/
theorem StepCase.inventory (hv : old.valid c.toCodec = true) (hp : Pairs old a)
    (h : StepCase c old s a now d) {t : ℤ}
    (ht : d.journal.submissionAbsenceObservedAt = some t) :
    (old.submissionAbsenceObservedAt = some t ∧
      d.journal.submissionResourceName = old.submissionResourceName) ∨
    (a.kind = .submissionAbsenceSeen ∧ t = now ∧
      d.journal.submissionResourceName = a.resourceName) := by
  cases h with
  | refused | prevented | expired | reobserved | intended | exposed | staged | abandoned
  | submitted | accepted | rejected | vanished => exact .inl ⟨ht, rfl⟩
  | reopened j kind journal =>
    rcases journal with ⟨-, rfl⟩ | ⟨-, -, -, -, -, -, rfl⟩
    · exact .inl ⟨ht, rfl⟩
    · cases ht
  | ambiguous plan o p kind offer _ _ unbound _ _ status problem_eq =>
    have hseen : old.submissionAbsenceObservedAt = some t := ht
    refine .inl ⟨hseen, (hp (by simp [hseen]) unbound).2 kind _ ?_⟩
    simp [Action.repliedName, offer, status, problem_eq, Dispatch.ambiguous]
  | absenceNoted kind _ _ _ _ _ _ _ same =>
    cases hseen : old.submissionAbsenceObservedAt with
    | none =>
      simp only [absenceDeferred, hseen, Option.isNone_none, if_true, Option.some.injEq] at ht
      exact .inr ⟨kind, ht.symm, rfl⟩
    | some u =>
      simp only [absenceDeferred, hseen, Option.isNone_some, Bool.false_eq_true, if_false] at ht
      exact .inl ⟨ht, name_of_seen hv hseen same⟩
  | absent first _ _ _ _ _ _ _ _ same seen => exact .inl ⟨ht, name_of_seen hv ht same⟩
  | disowned _ _ _ _ _ _ _ same => exact .inl ⟨ht, name_of_seen hv ht same⟩
  | observed remote obs j u _ _ _ _ _ _ _ _ journal =>
    obtain ⟨p, n, rfl⟩ := journal
    exact .inl ⟨ht, rfl⟩
  | localFault name code p _ _ _ fresh =>
    have hnone := unseen_of_unstarted hv (unstarted_of_unplanned hv fresh)
    obtain ⟨q, hd | hd⟩ := localFault_cases (faultJournal old name now) old s code p now <;>
      rw [hd] at ht <;> simp [hnone] at ht
  | remoteFault name code p plan kind _ _ _ names =>
    have hseen : old.submissionAbsenceObservedAt = some t := by
      rcases remoteFault_cases (faultJournal old name now) old s code p with hd | hd <;>
        rw [hd] at ht <;> exact ht
    have hname : name = old.submissionResourceName := by
      rcases names with hn | ⟨-, unbound, hne, hn⟩
      · exact hn
      · exact hn.trans (((hp (by simp [hseen]) unbound).1 kind).resolve_left (hn ▸ hne))
    refine .inl ⟨hseen, ?_⟩
    rcases remoteFault_cases (faultJournal old name now) old s code p with hd | hd <;>
      rw [hd] <;> exact hname

/-- The owner's attestation is never forgotten. -/
theorem StepCase.owner (h : StepCase c old s a now d)
    (ho : old.ownerSubmissionPresent = true ∨
      (a.kind = .requestReconciliation ∧ a.ownerPresent = true)) :
    d.journal.ownerSubmissionPresent = true := by
  cases h with
  | reobserved kind owner => rcases ho with ho | ⟨-, ho⟩ <;> simp_all
  | reopened j kind journal =>
    rcases journal with ⟨hn, rfl⟩ | ⟨-, -, -, -, -, -, rfl⟩
    · rcases ho with ho | ⟨-, ho⟩
      · exact ho
      · rw [hn] at ho
        cases ho
    · rfl
  | observed remote obs j u kind _ _ _ _ _ _ _ journal =>
    obtain ⟨p, n, rfl⟩ := journal
    simpa [kind] using ho
  | localFault name code p kind =>
    obtain ⟨q, hd | hd⟩ := localFault_cases (faultJournal old name now) old s code p now <;>
      rw [hd] <;> simpa [kind] using ho
  | remoteFault name code p plan kind =>
    rcases remoteFault_cases (faultJournal old name now) old s code p with hd | hd <;>
      rw [hd] <;> simpa [kind] using ho
  | _ => simp_all [Dispatch.accepted, Dispatch.rejected, Dispatch.ambiguous]

/-- An inventory that rejects comes a grace after the recorded time and names what is recorded. -/
theorem StepCase.rejecting (hv : old.valid c.toCodec = true) (h : StepCase c old s a now d)
    (hk : a.kind = .submissionAbsenceSeen) (hr : d.journal.phase = .rejected) :
    old.ownerSubmissionPresent = false ∧ ∃ first, old.submissionAbsenceObservedAt = some first ∧
      first + submissionAbsenceGrace ≤ now ∧ a.resourceName = old.submissionResourceName := by
  cases h with
  | absenceNoted => cases hr
  | absent first _ _ _ _ owner _ _ _ same seen grace =>
    exact ⟨owner, first, seen, grace, name_of_seen hv seen same⟩
  | _ => simp_all

end Step

/-! ### Runs -/

/-- What the journal records of the accepted actions. -/
structure Inventoried (c : Provider.Codec) (hist : List (Action × ℤ)) (x : Config) : Prop where
  journal : x.1.valid c = true
  owner : ∀ l ∈ hist, l.1.kind = .requestReconciliation → l.1.ownerPresent = true →
    x.1.ownerSubmissionPresent = true
  seen : ∀ t, x.1.submissionAbsenceObservedAt = some t → ∃ b, (b, t) ∈ hist ∧
    b.kind = .submissionAbsenceSeen ∧ b.resourceName = x.1.submissionResourceName

theorem Inventoried.advance {c : Codec} {hist : List (Action × ℤ)} {x y : Config} {l : Action × ℤ}
    (h : Inventoried c.toCodec hist x) (hp : Pairs x.1 l.1) (hy : advance c x l = some y) :
    Inventoried c.toCodec (hist ++ [l]) y := by
  obtain ⟨e, he⟩ := advance_eq_some hy
  obtain ⟨-, d, hd, hj, -, -, hv, -⟩ := apply_ok he
  refine ⟨hv, ?_, ?_⟩
  · intro b hb hk ho
    rw [hj]
    refine hd.owner ?_
    rcases List.mem_append.mp hb with hb | hb
    · exact .inl (h.owner b hb hk ho)
    · obtain rfl := List.mem_singleton.mp hb
      exact .inr ⟨hk, ho⟩
  · intro t ht
    rw [hj] at ht ⊢
    rcases hd.inventory h.journal hp ht with ⟨hold, hname⟩ | ⟨hk, rfl, hname⟩
    · obtain ⟨b, hb, hkind, hres⟩ := h.seen t hold
      exact ⟨b, List.mem_append_left _ hb, hkind, hres.trans hname.symm⟩
    · exact ⟨l.1, List.mem_append_right _ (List.mem_singleton_self _), hk, hname.symm⟩

theorem run_inventoried (c : Codec) (s : AttemptState) (as : List (Action × ℤ))
    (h : Run.Along (advance c) (fun x l => Pairs x.1 l.1) (localJournal, s) as) :
    Inventoried c.toCodec (Run.accepted (advance c) (localJournal, s) as)
      (Run.run (advance c) (localJournal, s) as) :=
  Run.along_history (P := Inventoried c.toCodec)
    ⟨rfl, by simp, by simp [localJournal]⟩ (fun _ _ _ _ hx hp hy => hx.advance hp hy) as h

/-- **Absence after two inventories of one name.** In every run from a local journal in which no
accepted fault or ambiguous reply reports another name behind a first inventory: an inventory of a
name that moves the journal to rejected comes at least a grace after an earlier accepted inventory
of the same name, and no accepted reconciliation before it attested that the submission exists. -/
theorem absence_after_two_inventories (c : Codec) (s : AttemptState) (as : List (Action × ℤ))
    (hpairs : Run.Along (advance c) (fun x l => Pairs x.1 l.1) (localJournal, s) as)
    (a : Action) (now : ℤ) (j : Journal) (t : AttemptState) (e : EventType)
    (hk : a.kind = .submissionAbsenceSeen) :
    let x := Run.run (advance c) (localJournal, s) as
    let hist := Run.accepted (advance c) (localJournal, s) as
    apply c x.1 x.2 a now = .ok (j, t, e) → j.phase = .rejected →
    (∃ b first, (b, first) ∈ hist ∧ b.kind = .submissionAbsenceSeen ∧
      b.resourceName = a.resourceName ∧ first + submissionAbsenceGrace ≤ now) ∧
    ∀ l ∈ hist, ¬(l.1.kind = .requestReconciliation ∧ l.1.ownerPresent = true) := by
  intro x hist happ hr
  have h : Inventoried c.toCodec hist x := run_inventoried c s as hpairs
  obtain ⟨-, d, hd, rfl, -⟩ := apply_ok happ
  obtain ⟨howner, first, hseen, hgrace, hname⟩ := hd.rejecting h.journal hk hr
  refine ⟨?_, ?_⟩
  · obtain ⟨b, hb, hkind, hres⟩ := h.seen first hseen
    exact ⟨b, first, hb, hkind, hres.trans hname.symm, hgrace⟩
  · rintro l hl ⟨hkind, hpresent⟩
    rw [h.owner l hl hkind hpresent] at howner
    cases howner

def sampleInventory (name : String) : Action :=
  { kind := .submissionAbsenceSeen, resourceName := name }

/-- The sample up to the first inventory without its kernel. -/
def sampleInventoried : List (Action × ℤ) :=
  sampleSubmission ++ [(sampleLostReply, 0), (sampleInventory "kernel", 0)]

theorem absence_of_inventoried_sample :
    let x := Run.run (advance sampleCodec) (localJournal, initialAttemptState) sampleInventoried
    (∃ j t e, apply sampleCodec x.1 x.2 (sampleInventory "kernel") submissionAbsenceGrace =
      .ok (j, t, e) ∧ j.phase = .rejected) ∧
    ∃ b first, (b, first) ∈ Run.accepted (advance sampleCodec) (localJournal, initialAttemptState)
        sampleInventoried ∧ b.kind = .submissionAbsenceSeen ∧ b.resourceName = "kernel" ∧
      first + submissionAbsenceGrace ≤ submissionAbsenceGrace := by
  intro x
  have hrun : Run.Along (advance sampleCodec) (fun x l => Pairs x.1 l.1)
        (localJournal, initialAttemptState) sampleInventoried ∧
      (advance sampleCodec x (sampleInventory "kernel", submissionAbsenceGrace)).any
        (fun y => y.1.phase = .rejected) = true := by decide +kernel
  obtain ⟨y, hy, hr⟩ := (Option.any_eq_true ..).mp hrun.2
  obtain ⟨e, he⟩ := advance_eq_some hy
  have hphase : y.1.phase = .rejected := by simpa using hr
  exact ⟨⟨y.1, y.2, e, he, hphase⟩, (absence_after_two_inventories sampleCodec initialAttemptState
    sampleInventoried hrun.1 (sampleInventory "kernel") submissionAbsenceGrace y.1 y.2 e rfl he
    hphase).1⟩

/-- Behind the first inventory a fault reports another name. -/
def sampleRenamed : List (Action × ℤ) :=
  sampleInventoried ++ [({ kind := .fault, code := some .providerUnreachable,
                           details := some ((∅ : Details).insert resourceNameDetail "other") }, 0)]

/-- **Absence after one inventory.** A fault that reports another name replaces the recorded one and
leaves the time of the first inventory, so the first inventory of the new name rejects. -/
theorem absence_of_renamed_submission :
    let x := Run.run (advance sampleCodec) (localJournal, initialAttemptState) sampleRenamed
    (∃ j t e, apply sampleCodec x.1 x.2 (sampleInventory "other") submissionAbsenceGrace =
      .ok (j, t, e) ∧ j.phase = .rejected) ∧
    ∀ l ∈ Run.accepted (advance sampleCodec) (localJournal, initialAttemptState) sampleRenamed,
      ¬(l.1.kind = .submissionAbsenceSeen ∧ l.1.resourceName = "other") := by
  intro x
  have hrun : (advance sampleCodec x (sampleInventory "other", submissionAbsenceGrace)).any
        (fun y => y.1.phase = .rejected) = true ∧
      ∀ l ∈ Run.accepted (advance sampleCodec) (localJournal, initialAttemptState) sampleRenamed,
        ¬(l.1.kind = .submissionAbsenceSeen ∧ l.1.resourceName = "other") := by decide +kernel
  obtain ⟨y, hy, hr⟩ := (Option.any_eq_true ..).mp hrun.1
  obtain ⟨e, he⟩ := advance_eq_some hy
  exact ⟨⟨y.1, y.2, e, he, by simpa using hr⟩, hrun.2⟩

end Dispatch
end ComputeRelay
