import Mathlib.Tactic
import ComputeRelay.Store.Coherence

/-!
# What a commit writes, the next load accepts

`loadDispatch` and `controlWork` cross-check the records and report any disagreement as corruption.
Coherent records pass all of these checks but three, each of which depends on the provider's
answers: that the journal loads, that the ledger matches it (`Records.Intact`), and that the
readiness revision of the staging answer in the journal is the one the gate has recorded
(`ReadyAgrees`).

* The gate records the revision of the first answer that is ready and private. An answer that is
  ready but not private any more has no revision; it is committed, and sets the journal's attention,
  without a look at the gate. `exposes` singles out the commits of such an answer once the gate
  holds a revision.
* The ledger holds the texts of an answer as they came, the journal holds them as JSON. They are the
  same only where the texts are UTF-8, and no check of an answer asks for that; `garbles` singles
  out the commits of answers that are not.

In runs without such commits everything that is committed can be loaded again; after one of them no
claim can load the attempt (`reload_unless_spoiled`).
-/

namespace ComputeRelay
namespace Store

open Domain Provider Scheduler Dispatch Fallible

/-- The readers never report corruption, under any claim and at any time from here on. -/
def Records.Reloads (c : Codec) (r : FrozenJob) (x : Records) : Prop :=
  (∀ k now, ofMilli x.floor ≤ now → loadDispatch c r x k now ≠ .error .corrupt) ∧
    controlWork c r x ≠ .error .corrupt

/-- The commit of a staging answer that is ready but not private, for a job with a separate start
whose gate has already recorded a revision. -/
def exposes (r : FrozenJob) (x : Records) (tx : Tx) : Bool :=
  match tx.request with
  | .commit _ a _ => r.separateStart && a.kind = .preparationSeen &&
      a.prepared.any (fun p => p.ready && !p.private_) && x.grants.readyRevision ≠ ""
  | _ => false

/-- The commit of an answer with a text that is no UTF-8. -/
def garbles (tx : Tx) : Bool :=
  match tx.request with
  | .commit _ a _ => a.kind = .preparationSeen && a.prepared.any (!·.resource.utf8) ||
      a.accepts.any (!·.utf8)
  | _ => false

/-- The journal loads, and the ledger matches it. -/
structure Records.Intact (c : Codec) (r : FrozenJob) (x : Records) : Prop where
  journal : loadJournal c x = .ok x.current
  ledger : x.ledger.Matches c r x.current

/-- The ready staging answer of the journal is the one the gate has recorded. -/
def ReadyAgrees (c : Codec) (r : FrozenJob) (x : Records) : Prop :=
  r.separateStart = true → ∀ p, x.current.prepared = some p → p.ready = true →
    p.readinessRevision c.toDispatch.toCodec = x.grants.readyRevision

/-! ### Texts that are read back -/

section Texts

/-- The texts of a journal are UTF-8. -/
def utf8 (j : Journal) : Bool := j.prepared.all (·.resource.utf8) && j.remote.all (·.utf8)

theorem utf8_iff {j : Journal} : utf8 j = true ↔
    (∀ p, j.prepared = some p → p.resource.utf8 = true) ∧
      ∀ r, j.remote = some r → r.utf8 = true := by
  simp [utf8, Option.all_eq_true]

theorem utf8_reread (j : Journal) : utf8 j.reread = true := by
  rw [utf8_iff]
  constructor
  · intro p hp
    obtain ⟨q, -, rfl⟩ := Option.map_eq_some_iff.mp hp
    exact Octets.utf8_reread q.resource
  · intro r hr
    obtain ⟨q, -, rfl⟩ := Option.map_eq_some_iff.mp hr
    simp [RemoteReference.utf8, RemoteReference.reread, Octets.utf8_reread]

theorem Records.utf8_current (x : Records) : utf8 x.current = true := by
  unfold Records.current
  cases x.journal with
  | none => rfl
  | some j => exact utf8_reread j

theorem map_eq_self {α : Type} {f : α → α} {o : Option α} (h : ∀ a, o = some a → f a = a) :
    o.map f = o := by
  cases o with
  | none => rfl
  | some a => rw [Option.map_some, h a rfl]

/-- A valid journal of UTF-8 texts is read as it was written. -/
theorem reread_of_utf8 {c : Provider.Codec} {j : Journal} (hv : j.valid c = true)
    (h : utf8 j = true) : j.reread = j := by
  obtain ⟨hprepared, hremote⟩ := utf8_iff.mp h
  have hp : j.prepared.map Prepared.reread = j.prepared :=
    map_eq_self fun p hp => by rw [Prepared.reread, Octets.utf8_iff.mp (hprepared p hp)]
  have hr : j.remote.map RemoteReference.reread = j.remote :=
    map_eq_self fun r hr => RemoteReference.reread_eq_iff.mpr (hremote r hr)
  have ho : j.observation.map Observation.reread = j.observation := by
    refine map_eq_self fun o ho => ?_
    cases hplan : j.plan with
    | none =>
      have := Journal.valid_unplanned hv hplan
      simp [Journal.unplannedRule, ho] at this
    | some plan =>
      -- an observation is of the reference of its journal
      obtain ⟨r, hr, hobs⟩ := (Journal.planned_of_valid hv hplan).observed o ho
      have hsame : o.remote = r := by
        simp only [Observation.validate, Bool.and_eq_true, decide_eq_true_eq] at hobs
        exact hobs.1.1.1.1.1.1.1.2
      rw [Observation.reread, hsame, RemoteReference.reread_eq_iff.mpr (hremote r hr), ← hsame]
  rw [Journal.reread, hp, hr, ho]

variable {c : Codec} {r : FrozenJob} {x : Records} {now : ℤ} {next : Journal} {l : Ledger}

theorem ControlEdit.reread_eq (edit : ControlEdit c r x next l) : next.reread = next := by
  refine reread_of_utf8 edit.valid ?_
  have hx := x.utf8_current
  rw [utf8, edit.same.prepared, edit.same.remote]
  exact hx

theorem Commit.reread_eq {act : Action} {g : Grants} (commit : Commit c r x now act next g l)
    (hprepared : act.kind = .preparationSeen → act.prepared.all (·.resource.utf8) = true)
    (hremote : act.accepts.all (·.utf8) = true) : next.reread = next := by
  refine reread_of_utf8 commit.valid ?_
  have hx := x.utf8_current
  rw [utf8, Bool.and_eq_true] at hx ⊢
  constructor
  · rcases commit.recorded.prepared_cases with ⟨hk, p, hp, hnext⟩ | ⟨-, hsame⟩
    · rw [hnext, ← hp]
      exact hprepared hk
    · rw [hsame]
      exact hx.1
  · rcases commit.recorded.remote_cases with hsame | hsame
    · rw [hsame]
      exact hx.2
    · rw [hsame]
      exact hremote

/-- An answer that is not garbled is read back. -/
theorem Commit.reread_of_offers {act : Action} {g : Grants} {tx : Tx}
    (commit : Commit c r x now act next g l) (offered : tx.request.offers act)
    (h : garbles tx = false) : next.reread = next := by
  cases hreq : tx.request with
  | commit handle a exhausted =>
    rw [hreq] at offered
    simp only [garbles, hreq, Bool.or_eq_false_iff, Bool.and_eq_false_iff,
      decide_eq_false_iff_not, Option.any_eq_false, Bool.not_eq_false'] at h
    refine commit.reread_eq (fun hk => ?_) ?_
    · rw [offered.kind] at hk
      rw [offered.prepared]
      exact (Option.all_eq_true ..).mpr (h.1.resolve_left (not_not.mpr hk))
    · rw [offered.accepts]
      exact (Option.all_eq_true ..).mpr h.2
  | _ =>
    rw [hreq] at offered
    exact offered.elim

end Texts

/-! ### Coherent records load -/

section Loading

variable {c : Codec} {r : FrozenJob} {x : Records} {now : ℤ}

theorem readinessRevision_exposed {c : Provider.Codec} {p : Prepared} (h : p.private_ = false) :
    p.readinessRevision c = "" := by
  simp [Prepared.readinessRevision, h]

/-- The receipt of a sound start shows what its row says. -/
theorem Grants.Sound.startReceipt_iff {g : Grants} (h : g.Sound r now) :
    (g.start.map (·.toGrant)).any (·.receiptStatus = .consumed) = true ↔ g.StartUsed := by
  cases hs : g.start with
  | none => simp [Grants.StartUsed, hs]
  | some s =>
    obtain ⟨-, -, -, -, -, htidy, -⟩ := h.start s hs
    simp [Grants.StartUsed, hs, htidy.receiptStatus_eq]

/-- Consumed authority of a job with a separate start stands behind a gate. -/
theorem Grants.Authorized.gate {g : Grants} (h : g.Authorized r) (hr : r.separateStart = true) :
    ∃ gate, g.gate r = some gate := by
  obtain ⟨a, ha, -⟩ := h
  simp only [authorityKind, hr, if_true, Grants.row, Option.map_eq_some_iff] at ha
  obtain ⟨p, hp, -⟩ := ha
  simp [Grants.gate, hr, hp]

theorem Coherent.gateAgrees (h : Coherent c r x now) (hready : ReadyAgrees c r x)
    (hr : r.separateStart = true) (hauth : x.grants.Authorized r) :
    gateAgrees c x.current (x.grants.gate r) = true := by
  obtain ⟨gate, hgate⟩ := hauth.gate hr
  obtain ⟨-, p, -, hrev, -, -, -, hstart, hreceipt⟩ := rows_of_gate hgate
  have hused := h.grants.startReceipt_iff
  rw [← hreceipt] at hused
  simp only [Store.gateAgrees, hgate, Option.any_some, Bool.and_eq_true, Bool.not_eq_true',
    Option.any_eq_false, Bool.and_eq_false_iff, decide_eq_false_iff_not, not_not, hrev]
  refine ⟨fun p hp => ?_, ?_⟩
  · -- the revision of the staging answer
    cases hp' : p.ready with
    | false => exact Or.inl rfl
    | true => exact Or.inr (by simpa using hready hr p hp hp')
  · -- the receipt of the start
    cases hs : x.current.submitStarted with
    | false =>
      have hnot : ¬x.grants.StartUsed := by simp [← h.submitted hr, hs]
      simpa [hs] using mt hused.mp hnot
    | true =>
      obtain ⟨heq, hsome⟩ := h.authority hr hs
      rw [heq] at hsome
      simp [hused.mpr ((h.submitted hr).mp hs), hsome, heq, hstart]

/-- Coherent records with an agreed readiness pass the checks of a load. -/
theorem Coherent.checkLoaded (h : Coherent c r x now) (hx : x.Intact c r)
    (hready : ReadyAgrees c r x) :
    checkLoaded c r x x.current (x.grants.gate r) now ≠ .error .corrupt := by
  intro herr
  unfold Store.checkLoaded at herr
  cases hplan : x.current.plan with
  | none => simp [hplan, require_eq_error] at herr
  | some plan =>
    obtain ⟨hmatch, hauth⟩ := h.plan plan hplan
    have hgate : (!r.separateStart || Store.gateAgrees c x.current (x.grants.gate r)) = true := by
      cases hr : r.separateStart with
      | false => rfl
      | true => simp [h.gateAgrees hready hr hauth]
    have hstatus := h.grants.authorized_iff.mpr hauth
    have hledger := hx.ledger plan hplan
    simp [hplan, bind_eq_error, require_eq_error, hgate, hstatus, hmatch, hledger] at herr

theorem checkWorkLease_ne_corrupt {row : Option LeaseRow} {want : WorkLease} :
    checkWorkLease .dispatch row want now ≠ .error .corrupt := by
  unfold checkWorkLease
  cases row with
  | none => simp [WorkKind.lost]
  | some current =>
    dsimp only
    split_ifs <;> simp [WorkKind.lost]

theorem Coherent.owned (h : Coherent c r x now) (k : Claim) :
    ownedDispatchClaim r x k now ≠ .error .corrupt := by
  intro herr
  simp [ownedDispatchClaim, bind_eq_error, require_eq_error, checkWorkLease_ne_corrupt,
    not_lt.mpr h.updated] at herr

theorem Coherent.loadDispatch (h : Coherent c r x now) (hx : x.Intact c r)
    (hready : ReadyAgrees c r x) (k : Claim) : loadDispatch c r x k now ≠ .error .corrupt := by
  have hplanned : (x.current.plan.isNone || x.barrier) = true := by
    rw [h.barrier]
    cases x.current.plan <;> rfl
  have hbarrier : (x.current.plan.isSome || !x.barrier || endedLocally x.current) = true := by
    rw [h.barrier]
    cases x.current.plan <;> rfl
  intro herr
  simp only [Store.loadDispatch, bind_eq_error, hx.journal, h.grants.load_gate, require_eq_error,
    hplanned, hbarrier, Bool.true_eq_false, reduceCtorEq, false_and, false_or, Except.ok.injEq,
    exists_eq_left'] at herr
  rcases herr with hown | ⟨-, -, -, -, -, -, hcheck | ⟨-, -, hpure⟩⟩
  · exact h.owned k hown
  · exact h.checkLoaded hx hready hcheck
  · cases hpure

theorem Coherent.controlWork (h : Coherent c r x now) (hx : x.Intact c r) :
    controlWork c r x ≠ .error .corrupt := by
  intro herr
  simp only [Store.controlWork, bind_eq_error, hx.journal, reduceCtorEq, false_or, Except.ok.injEq,
    exists_eq_left'] at herr
  cases hplan : x.current.plan with
  | none =>
    simp only [hplan, bind_eq_error, require_eq_error, reduceCtorEq, and_false, false_or] at herr
    obtain ⟨-, -, hpure⟩ := herr
    cases hpure
  | some plan =>
    obtain ⟨hmatch, -⟩ := h.plan plan hplan
    have hbarrier : x.barrier = true := by rw [h.barrier, hplan]; rfl
    simp only [hplan, bind_eq_error, require_eq_error, hbarrier, hmatch, hx.ledger plan hplan,
      Bool.and_self, Bool.true_eq_false, false_and, false_or] at herr
    obtain ⟨-, -, -, -, hpure⟩ := herr
    cases hpure

/-- The checks behind the gate fail when one of them does. -/
theorem checkLoaded_corrupt {j : Journal} {gate : Option Gate} {plan : Plan}
    (hplan : j.plan = some plan) (h : (r.separateStart = true ∧ Store.gateAgrees c j gate = false) ∨
      checkDispatchLedger c r x.ledger j plan = false) :
    Store.checkLoaded c r x j gate now = .error .corrupt := by
  simp only [Store.checkLoaded, hplan, require]
  rcases h with ⟨hr, hgate⟩ | hledger
  · simp [hr, hgate, bind, Except.bind]
  · simp only [hledger, Bool.false_eq_true, if_false]
    split_ifs <;> rfl

theorem loadJournal_cases (c : Codec) (x : Records) :
    loadJournal c x = .ok x.current ∨ loadJournal c x = .error .corrupt := by
  unfold loadJournal Records.current
  cases x.journal with
  | none => exact .inl rfl
  | some j =>
    simp only [require]
    split_ifs
    · exact .inl rfl
    · exact .inr rfl

/-- No owner of coherent records loads a journal that fails a check. -/
theorem Coherent.loadDispatch_corrupt (h : Coherent c r x now) {k : Claim} {plan : Plan}
    (hown : ownedDispatchClaim r x k now = .ok ()) (hplan : x.current.plan = some plan)
    (hcheck : (r.separateStart = true ∧
        Store.gateAgrees c x.current (x.grants.gate r) = false) ∨
      checkDispatchLedger c r x.ledger x.current plan = false) :
    Store.loadDispatch c r x k now = .error .corrupt := by
  have hbarrier : x.barrier = true := by rw [h.barrier, hplan]; rfl
  have hchecked : Store.checkLoaded c r x x.current (x.grants.gate r) now = .error .corrupt :=
    checkLoaded_corrupt hplan hcheck
  rcases loadJournal_cases c x with hload | hload
  · simp [Store.loadDispatch, hown, hload, hplan, hbarrier, h.grants.load_gate, hchecked, require,
      bind, Except.bind]
  · simp [Store.loadDispatch, hown, hload, bind, Except.bind]

end Loading

/-! ### The journal and the ledger -/

section Intact

variable {c : Codec} {r : FrozenJob} {x y : Records} {now : ℤ} {tx : Tx}

theorem intact_admitted (c : Codec) (r : FrozenJob) (now : ℤ) : (admitted now).Intact c r :=
  ⟨rfl, matches_unplanned rfl⟩

/-- A row that is read as it was written loads. -/
theorem Records.Intact.written {next : Journal} (hv : next.valid c.toDispatch.toCodec = true)
    (hf : fits c next = true) (hread : next.reread = next) (hx : x.journal = some next)
    (hl : x.ledger.Matches c r next) : x.Intact c r := by
  have hcurrent : x.current = next := by rw [Records.current, hx, Option.map_some, hread]; rfl
  constructor
  · refine loadJournal_eq_ok.mpr ⟨rfl, fun k hk => ?_⟩
    obtain rfl : next = k := by simpa [hx] using hk
    exact ⟨hf, by rw [hread]; exact hv⟩
  · rw [hcurrent]
    exact hl

/-- **Step lemma.** Only garbled texts separate the journal from the ledger. -/
theorem Change.intact (hc : Change c r x now tx.request.offers y) (hgarbles : garbles tx = false)
    (h : x.Intact c r) : y.Intact c r := by
  cases hc with
  | moved | retired | granted => exact ⟨h.journal, h.ledger⟩
  | controlled next l a edit follows =>
    exact .written edit.valid edit.size edit.reread_eq rfl (edit.ledger h.ledger)
  | committed act next g l a offered commit follows =>
    -- the only change that brings texts of the provider
    exact .written commit.valid commit.size (commit.reread_of_offers offered hgarbles) rfl
      (matches_write h.ledger (valid_of_load h.journal) commit.recorded commit.ledger)

theorem step_intact (hs : x.step c r tx = some y) (hgarbles : garbles tx = false)
    (h : x.Intact c r) : y.Intact c r := by
  obtain ⟨now, z, -, -, -, hchange, hy⟩ := step_change hs
  have hz := hchange.intact hgarbles h
  rw [hy]
  exact ⟨hz.journal, hz.ledger⟩

theorem checkDispatchLedger_staged {l l' : Ledger} {next : Journal} {plan : Plan} {p : Prepared}
    (hw : writeDispatchLedger c r l next .preparationSeen = .ok l') (hplan : next.plan = some plan)
    (hp : next.prepared = some p) (hgarbled : p.resource.utf8 = false) :
    checkDispatchLedger c r l' next.reread plan = false := by
  simp only [writeDispatchLedger, hplan, hp, Ledger.staged] at hw
  split_ifs at hw with hany
  cases hw
  obtain ⟨row, hrow, hid⟩ := (Option.any_eq_true ..).mp hany
  -- the row keeps the bytes of the answer, the journal is read back from JSON
  have hne : p.resource ≠ p.resource.reread := fun heq => by
    rw [← Bool.not_eq_true, Octets.utf8_iff] at hgarbled
    exact hgarbled heq.symm
  have href : stagingRef next.reread = p.resource.reread := by
    simp [stagingRef, Journal.reread, hp, Prepared.reread]
  simp only [decide_eq_true_eq] at hid
  simp [checkDispatchLedger, checkResource, href, hrow, Resource.update, hid, hne]

theorem checkDispatchLedger_reported {l l' : Ledger} {next : Journal} {plan : Plan}
    {remote : RemoteReference} (hw : writeDispatchLedger c r l next .submissionSeen = .ok l')
    (hplan : next.plan = some plan) (hstarted : next.submitStarted = true)
    (hr : next.remote = some remote) (hgarbled : remote.utf8 = false) :
    checkDispatchLedger c r l' next.reread plan = false := by
  have hne : remote ≠ remote.reread := fun heq => by
    rw [← Bool.not_eq_true, ← RemoteReference.reread_eq_iff] at hgarbled
    exact hgarbled heq.symm
  simp only [writeDispatchLedger, hplan, Ledger.reported] at hw
  cases hi : l.intent with
  | none => simp [hi] at hw
  | some i =>
    simp only [hi] at hw
    split_ifs at hw
    cases hw
    have hremote : next.reread.remote = some remote.reread := by simp [Journal.reread, hr]
    have hstarted' : next.reread.submitStarted = true := hstarted
    simp [checkDispatchLedger, hstarted', checkSubmission, hr, hremote, hne]

theorem step_of_commit {handle : Handle} {a : Action} {exhausted : Bool}
    (hs : x.step c r tx = some y) (hreq : tx.request = .commit handle a exhausted) :
    ∃ now act next, SameAnswer a act ∧ Commit c r x now act next y.grants y.ledger ∧
      y.current = next.reread := by
  obtain ⟨h?, ht⟩ := step_eq_some.mp hs
  obtain ⟨now, z, -, hp, hyz⟩ := transact_eq_ok ht
  rw [hreq] at hp
  obtain ⟨h', hl, -⟩ := issuing_ok hp
  obtain ⟨act, next, g, l, att, rfl, same, commit, -⟩ := commitDispatch_ok hl
  have hgrants : y.grants = g := by rw [hyz]
  have hledger : y.ledger = l := by rw [hyz]
  exact ⟨now, act, next, same, by rwa [hgrants, hledger], by rw [hyz]; rfl⟩

/-- Answers come behind a plan. -/
theorem exists_plan {c : Provider.Codec} {j : Journal} (hv : j.valid c = true)
    (h : j.prepared ≠ none ∨ j.remote ≠ none) : ∃ plan, j.plan = some plan := by
  cases hplan : j.plan with
  | some plan => exact ⟨plan, rfl⟩
  | none =>
    have := Journal.valid_unplanned hv hplan
    simp only [Journal.unplannedRule, Bool.and_eq_true, Option.isNone_iff_eq_none] at this
    obtain ⟨⟨⟨-, hprepared⟩, hremote⟩, -⟩ := this
    exact absurd h (not_or.mpr ⟨not_not.mpr hprepared, not_not.mpr hremote⟩)

/-- After the commit of a garbled answer no claim can load the attempt. -/
theorem corrupt_of_garbles (h : x.Coheres c r) (hgarbles : garbles tx = true)
    (hs : x.step c r tx = some y) {k : Claim} (hnow : ofMilli y.floor ≤ now)
    (hown : ownedDispatchClaim r y k now = .ok ()) :
    loadDispatch c r y k now = .error .corrupt := by
  have hy : Coherent c r y now := (step_coheres h hs).1.mono hnow
  cases hreq : tx.request with
  | commit handle a exhausted =>
    obtain ⟨at_, act, next, same, commit, hcurrent⟩ := step_of_commit hs hreq
    have hledger := commit.ledger
    simp only [garbles, hreq, Bool.or_eq_true, Bool.and_eq_true, decide_eq_true_eq,
      Option.any_eq_true, Bool.not_eq_true'] at hgarbles
    rcases hgarbles with ⟨hk, p, hp, hgarbled⟩ | ⟨remote, haccepts, hgarbled⟩
    · -- a staging answer
      have hkind : act.kind = .preparationSeen := same.kind.trans hk
      have hprepared : next.prepared = some p := by
        rw [commit.recorded.prepared_eq hkind, same.prepared, hp]
      obtain ⟨plan, hplan⟩ := exists_plan commit.valid (.inl (by simp [hprepared]))
      rw [hkind] at hledger
      refine hy.loadDispatch_corrupt hown (by rw [hcurrent]; exact hplan) (.inr ?_)
      rw [hcurrent]
      exact checkDispatchLedger_staged hledger hplan hprepared hgarbled
    · -- the reference of an accepted submission
      obtain ⟨hkind, hstarted, hremote⟩ :=
        commit.recorded.of_accepts (same.accepts.trans haccepts)
      obtain ⟨plan, hplan⟩ := exists_plan commit.valid (.inr (by simp [hremote]))
      rw [hkind] at hledger
      refine hy.loadDispatch_corrupt hown (by rw [hcurrent]; exact hplan) (.inr ?_)
      rw [hcurrent]
      exact checkDispatchLedger_reported hledger hplan hstarted hremote hgarbled
  | _ => simp [garbles, hreq] at hgarbles

end Intact

/-! ### The readiness of the journal and of the gate -/

section Readiness

variable {c : Codec} {r : FrozenJob} {x y : Records} {now : ℤ} {tx : Tx} {o : Action → Prop}

/-- A commit leaves the revision of its answer in the gate, unless the answer is exposed. -/
theorem Commit.readyAgrees {act : Action} {next : Journal} {g : Grants} {l : Ledger}
    (commit : Commit c r x now act next g l) (h : ReadyAgrees c r x) (hr : r.separateStart = true)
    (hexposed : ∀ p, act.kind = .preparationSeen → act.prepared = some p → p.ready = true →
      p.private_ = false → x.grants.readyRevision = "")
    {p : Prepared} (hp : next.prepared = some p) (hready : p.ready = true) :
    p.readinessRevision c.toDispatch.toCodec = g.readyRevision := by
  rcases commit.recorded.prepared_cases with ⟨hk, q, hq, hnext⟩ | ⟨hk, hold⟩
  · -- a new answer is recorded by the gate, or it is not private and there is no revision yet
    obtain rfl : q = p := by simpa [hnext] using hp
    rcases commit.answers with ⟨q', -, hq', -, -, hrev⟩ | ⟨hopen, hsame⟩
    · obtain rfl : q = q' := by simpa [hq] using hq'
      exact hrev hr
    · have hprivate : q.private_ = false := by
        simpa [hready] using hopen q hk hq
      rw [readinessRevision_exposed hprivate, hsame, hexposed q hk hq hready hprivate]
  · rcases commit.answers with ⟨q, hk', -⟩ | ⟨-, hsame⟩
    · exact absurd hk' hk
    · rw [hsame]
      exact h hr p (hold ▸ hp) hready

/-- **Step lemma.** Only an exposed answer separates the journal from the gate. -/
theorem Change.readyAgrees (hc : Change c r x now tx.request.offers y)
    (hexposes : exposes r x tx = false) (hgarbles : garbles tx = false) (h : ReadyAgrees c r x) :
    ReadyAgrees c r y := by
  cases hc with
  | moved | retired => exact h
  | granted g step =>
    intro hr p hp hready
    exact (h hr p hp hready).trans step.readyRevision.symm
  | controlled next l a edit follows =>
    intro hr p hp hready
    have hp : next.reread.prepared = some p := hp
    rw [edit.reread_eq] at hp
    exact h hr p (edit.same.prepared.symm.trans hp) hready
  | committed act next g l a offered commit follows =>
    intro hr p hp hready
    have hp : next.reread.prepared = some p := hp
    rw [commit.reread_of_offers offered hgarbles] at hp
    refine commit.readyAgrees h hr (fun q hk hq hqr hqp => ?_) hp hready
    cases hreq : tx.request with
    | commit handle a' exhausted =>
      rw [hreq] at offered
      have hk' : a'.kind = .preparationSeen := offered.kind.symm.trans hk
      have hq' : a'.prepared = some q := offered.prepared.symm.trans hq
      simpa [exposes, hreq, hr, hk', hq', hqr, hqp] using hexposes
    | _ =>
      rw [hreq] at offered
      exact offered.elim

theorem step_readyAgrees (hs : x.step c r tx = some y) (hexposes : exposes r x tx = false)
    (hgarbles : garbles tx = false) (h : ReadyAgrees c r x) : ReadyAgrees c r y := by
  obtain ⟨now, z, -, -, -, hchange, hy⟩ := step_change hs
  have hz := hchange.readyAgrees hexposes hgarbles h
  rw [hy]
  exact hz

/-- Coherent records with an agreed readiness load. -/
theorem Records.Coheres.reloads (h : x.Coheres c r) (hx : x.Intact c r)
    (hready : ReadyAgrees c r x) : x.Reloads c r :=
  ⟨fun k _ hnow => (h.mono hnow).loadDispatch hx hready k, Coherent.controlWork h hx⟩

/-- After the commit of an exposed answer no claim can load the attempt. -/
theorem corrupt_of_exposes (h : x.Coheres c r) (hexposes : exposes r x tx = true)
    (hs : x.step c r tx = some y) {k : Claim} (hnow : ofMilli y.floor ≤ now)
    (hown : ownedDispatchClaim r y k now = .ok ()) :
    loadDispatch c r y k now = .error .corrupt := by
  have hy : Coherent c r y now := (step_coheres h hs).1.mono hnow
  cases hreq : tx.request with
  | commit handle a exhausted =>
    obtain ⟨at_, act, next, same, commit, hcurrent⟩ := step_of_commit hs hreq
    simp only [exposes, hreq, Bool.and_eq_true, decide_eq_true_eq, Option.any_eq_true,
      Bool.not_eq_true', ne_eq] at hexposes
    obtain ⟨⟨⟨hr, hk⟩, p, hprep, hready, hprivate⟩, hrev⟩ := hexposes
    have hprepared : next.prepared = some p := by
      rw [commit.recorded.prepared_eq (same.kind.trans hk), same.prepared, hprep]
    have hread : y.current.prepared = some p.reread := by
      rw [hcurrent, Journal.reread, hprepared]
      rfl
    have hsame : y.grants.readyRevision = x.grants.readyRevision := by
      rcases commit.answers with ⟨q, -, hq, -, hq', -⟩ | ⟨-, hsame⟩
      · obtain rfl : p = q := by simpa [same.prepared, hprep] using hq
        simp [hprivate] at hq'
      · exact hsame
    obtain ⟨plan, hplan⟩ := exists_plan commit.valid (.inl (by simp [hprepared]))
    refine hy.loadDispatch_corrupt hown (by rw [hcurrent]; exact hplan) (.inl ⟨hr, ?_⟩)
    -- the gate holds a revision, the answer of the journal has none
    cases hg : y.grants.gate r with
    | none => rfl
    | some gate =>
      obtain ⟨-, q, -, hgrev, -⟩ := rows_of_gate hg
      have hnone : p.reread.readinessRevision c.toDispatch.toCodec = "" :=
        readinessRevision_exposed hprivate
      have hready' : p.reread.ready = true := hready
      rw [hsame] at hgrev
      simp [gateAgrees, hread, hready', hnone, hgrev, hrev]
  | _ => simp [exposes, hreq] at hexposes

end Readiness

/-- **What a commit writes, the next load accepts**, in every run from admission that commits no
exposed and no garbled answer; and the commit of one is the end of all loads under the claims that
own the attempt then. -/
theorem reload_unless_spoiled (c : Codec) (r : FrozenJob) (now : ℤ) (txs : List Tx)
    (h : Run.Along (Records.step c r) (fun x tx => exposes r x tx = false ∧ garbles tx = false)
      (admitted now) txs) :
    let x := Run.run (Records.step c r) (admitted now) txs
    x.Reloads c r ∧ ∀ tx y, exposes r x tx = true ∨ garbles tx = true → x.step c r tx = some y →
      ∀ k at_, ofMilli y.floor ≤ at_ → ownedDispatchClaim r y k at_ = .ok () →
        loadDispatch c r y k at_ = .error .corrupt := by
  intro x
  have hx : x.Coheres c r := coheres_run (coherent_admitted c r now) txs
  obtain ⟨hintact, hready⟩ : x.Intact c r ∧ ReadyAgrees c r x := by
    refine Run.along_history (P := fun _ x => Records.Intact c r x ∧ ReadyAgrees c r x) ?_ ?_ txs h
    · refine ⟨intact_admitted c r now, ?_⟩
      rintro - p ⟨⟩
    · rintro hist y tx z ⟨hy, hready⟩ ⟨hexposes, hgarbles⟩ hs
      exact ⟨step_intact hs hgarbles hy, step_readyAgrees hs hexposes hgarbles hready⟩
  refine ⟨hx.reloads hintact hready, fun tx y hspoiled hs k at_ hat hown => ?_⟩
  rcases hspoiled with hexposes | hgarbles
  · exact corrupt_of_exposes hx hexposes hs hat hown
  · exact corrupt_of_garbles hx hgarbles hs hat hown

/-- Reconciliation reopens staging that is ready, for another look at it. -/
def sampleReopened : List Tx := sampleReady ++ [⟨0, .reconcile none⟩]

/-- The same staging answer, no longer private. -/
def samplePublic : Prepared := { sampleVerified with private_ := false }

def sampleExposure : Tx :=
  ⟨0, .commit ⟨sampleClaim 3, 3⟩ { kind := .preparationSeen, prepared := some samplePublic } false⟩

/-- The reopened sample loads; its exposure would be accepted. -/
theorem reopened_sample_reloads :
    let x := Run.run (sampleStep true) (admitted 0) sampleReopened
    x.Reloads sampleEncoders (sampleJob true) ∧ x.current.phase = .staging ∧
      exposes (sampleJob true) x sampleExposure = true := by
  have h := reload_unless_spoiled sampleEncoders (sampleJob true) 0 sampleReopened
  have hrun : Run.Along (sampleStep true)
      (fun x tx => exposes (sampleJob true) x tx = false ∧ garbles tx = false)
      (admitted 0) sampleReopened ∧
      (Run.run (sampleStep true) (admitted 0) sampleReopened).current.phase = .staging ∧
      exposes (sampleJob true) (Run.run (sampleStep true) (admitted 0) sampleReopened)
        sampleExposure = true := by
    decide
  exact ⟨(h hrun.1).1, hrun.2⟩

/-- A staging answer whose resource is the byte 255 validates and is committed, and is not the one
that is read back. -/
def sampleGarbled : Prepared := { sampleVerified with resource := ⟨[255]⟩ }

example :
    let x := Run.run (sampleStep true) (admitted 0) (sampleReady.dropLast ++
      [⟨0, .commit ⟨sampleClaim 2, 1⟩
        { kind := .preparationSeen, prepared := some sampleGarbled } false⟩])
    sampleGarbled.validate sampleCodec.toCodec samplePlan "intent" = true ∧
      x.journal.bind (·.prepared) = some sampleGarbled ∧
      x.current.prepared = some { sampleVerified with resource := "�" } := by
  decide +kernel

/-- An answer that validates is committed by the owner of the attempt, who then cannot load it. -/
theorem exposed_sample_corrupt :
    let x := Run.run (sampleStep true) (admitted 0) (sampleReopened ++ [sampleExposure])
    samplePublic.validate sampleCodec.toCodec samplePlan "intent" = true ∧
      x.current.prepared = some samplePublic ∧
      ownedDispatchClaim (sampleJob true) x (sampleClaim 4) (ofMilli x.floor) = .ok () ∧
      loadDispatch sampleEncoders (sampleJob true) x (sampleClaim 4) (ofMilli x.floor) =
        .error .corrupt ∧
      ¬x.Reloads sampleEncoders (sampleJob true) := by
  have hrun : ∀ x, Run.run (sampleStep true) (admitted 0) (sampleReopened ++ [sampleExposure]) = x →
      samplePublic.validate sampleCodec.toCodec samplePlan "intent" = true ∧
      x.current.prepared = some samplePublic ∧
      (ownedDispatchClaim (sampleJob true) x (sampleClaim 4) (ofMilli x.floor)).toOption = some () ∧
      (match loadDispatch sampleEncoders (sampleJob true) x (sampleClaim 4) (ofMilli x.floor) with
        | .error e => some e
        | .ok _ => none) = some .corrupt := by
    rintro x rfl
    decide +kernel
  intro x
  obtain ⟨hvalid, hprepared, hown, hload⟩ := hrun x rfl
  have hcorrupt : loadDispatch sampleEncoders (sampleJob true) x (sampleClaim 4) (ofMilli x.floor) =
      .error .corrupt := by
    split at hload <;> simp_all
  exact ⟨hvalid, hprepared, toOption_eq_some hown, hcorrupt,
    fun h => h.1 (sampleClaim 4) _ le_rfl hcorrupt⟩

end Store
end ComputeRelay
