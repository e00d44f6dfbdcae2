import Mathlib.Tactic
import ComputeRelay.Store.Grants

/-!
# Sound grants

`Grants.Sound r g t` says that the rows of one attempt, whose times are at most `t`, pass every
check at every later time, that status and times agree, and that a start grant and its secret are
consumed together.

* `Sound.load_gate`: sound rows always load.
* `Granting` and `GateStep` list what transactions do to the rows, the former on their own, the
  latter together with a step of the journal. `Granting.sound` and `GateStep.sound` are the step
  lemmas.
* `Grant.Later` orders the states of one row; `Granting.later` and `GateStep.later` say that a row
  only goes from granted to consumed or revoked.
-/

namespace ComputeRelay
namespace Store

open Domain Provider Scheduler

/-! ### The history of a row -/

/-- Status and times of a row agree. -/
structure Grant.Tidy (g : Grant) : Prop where
  consumed : g.status = .consumed ↔ g.consumedAt.isSome = true
  revoked : g.status = .revoked ↔ g.revokedAt.isSome = true

/-- `g'` is a later state of the row `g`: nothing happens to a row that is consumed or revoked. -/
def Grant.Later (g g' : Grant) : Prop :=
  g' = g ∨ (g.status = .granted ∧ g'.authorizationID = g.authorizationID ∧
    g'.createdAt = g.createdAt ∧ g'.expiresAtMs = g.expiresAtMs ∧ g'.status ≠ .granted)

theorem Grant.Later.refl (g : Grant) : g.Later g := Or.inl rfl

theorem Grant.Later.trans {g g' g'' : Grant} (h : g.Later g') (h' : g'.Later g'') :
    g.Later g'' := by
  rcases h with rfl | ⟨hs, hid, hc, he, hn⟩
  · exact h'
  · rcases h' with rfl | ⟨hs', -⟩
    · exact Or.inr ⟨hs, hid, hc, he, hn⟩
    · exact absurd hs' hn

section Rows

variable {r : FrozenJob} {g g' : Grant} {now t : ℤ}

theorem Grant.later_consume (h : g.consume now = some g') : g.Later g' := by
  obtain ⟨⟨hs, -⟩, rfl⟩ := Grant.consume_eq_some.mp h
  exact Or.inr ⟨hs, rfl, rfl, rfl, by simp⟩

theorem Grant.tidy_fresh (id : FreshID) (expires : Option ℤ) : (fresh id now expires).Tidy := by
  constructor <;> simp [fresh]

theorem Grant.tidy_consume (h : g.consume now = some g') : g'.Tidy := by
  obtain ⟨⟨-, -, hr, -⟩, rfl⟩ := Grant.consume_eq_some.mp h
  constructor <;> simp [hr]

/-- A consumed row shows as consumed on its receipt. -/
theorem Grant.Tidy.receiptStatus_eq (h : g.Tidy) :
    g.receiptStatus = .consumed ↔ g.status = .consumed := by
  rw [h.consumed, Grant.receiptStatus]
  split_ifs with hc <;> simp [hc]

end Rows

/-! ### The history of a secret -/

namespace SecretGrant

variable {r : FrozenJob} {x : SecretGrant} {now t : ℤ}

/-- The receipt of a revocation. -/
def revokedReceipt (x : SecretGrant) (at_ : ℤ) : SecretReceipt :=
  { x.original with status := .revoked, revokedAt := some at_ }

/-- What `traced` says of a row whose first receipt is valid. -/
structure Traced (x : SecretGrant) (now : ℤ) : Prop where
  created : x.createdAt ≤ now
  exclusive : x.consumedAt = none ∨ x.revokedAt = none
  consumed : ∀ t, x.consumedAt = some t → x.createdAt ≤ t ∧ t ≤ now
  revoked : ∀ t, x.revokedAt = some t → x.createdAt ≤ t ∧ t ≤ now
  revocation : ∀ t, x.revokedAt = some t → x.revocation = some (x.revokedReceipt t)

theorem current_of_consumed {a : ℤ} (h : x.consumedAt = some a) :
    x.current now = { x.original with status := .consumed, consumedAt := some a } := by
  simp [current, h]

theorem current_of_revoked {b : ℤ} (hc : x.consumedAt = none) (hr : x.revokedAt = some b) :
    x.current now = x.revokedReceipt b := by
  simp [current, hc, hr, revokedReceipt]

theorem current_of_live (hc : x.consumedAt = none) (hr : x.revokedAt = none) :
    x.current now = { x.original with
      status := if instant x.metadata.expiresAt ≤ now then .expired else .granted } := by
  simp only [current, hc, hr]
  split_ifs <;> rfl

theorem current_consumed_iff : (x.current now).status = .consumed ↔ x.consumedAt.isSome = true := by
  cases hc : x.consumedAt with
  | some a => simp [current_of_consumed hc]
  | none =>
    cases hr : x.revokedAt with
    | some b => simp [current_of_revoked hc hr, revokedReceipt]
    | none =>
      rw [current_of_live hc hr]
      dsimp only
      split_ifs <;> simp

theorem validate_iff {s : SecretReceipt} : s.validate = true ↔
    validOpaqueID s.authorizationID = true ∧ s.metadata.validate = true ∧ s.createdAt ≠ zeroTime ∧
      decide (s.status = .consumed) = s.consumedAt.isSome ∧
      decide (s.status = .revoked) = s.revokedAt.isSome ∧
      (∀ t, s.consumedAt = some t → s.createdAt ≤ t) ∧ ∀ t, s.revokedAt = some t →
        s.createdAt ≤ t := by
  simp only [SecretReceipt.validate, Bool.and_eq_true, decide_eq_true_eq, Option.all_eq_true,
    and_assoc]

/-- A receipt with what has happened since is valid when the times are in order. -/
theorem validate_current_iff (hv : x.original.validate = true)
    (hx : x.consumedAt = none ∨ x.revokedAt = none) : (x.current now).validate = true ↔
      (∀ t, x.consumedAt = some t → x.createdAt ≤ t) ∧
        ∀ t, x.revokedAt = some t → x.createdAt ≤ t := by
  obtain ⟨hid, hm, hz, -⟩ := validate_iff.mp hv
  rw [validate_iff]
  cases hc : x.consumedAt with
  | some a =>
    have hr : x.revokedAt = none := hx.resolve_left (by simp [hc])
    simp [current_of_consumed hc, hr, hid, hm, hz]
    simp [original]
  | none =>
    cases hr : x.revokedAt with
    | some b =>
      simp [current_of_revoked hc hr, revokedReceipt, hid, hm, hz]
      simp [original]
    | none =>
      rw [current_of_live hc hr]
      dsimp only
      split_ifs <;> simp [hid, hm, hz] <;> simp [original]

theorem traced_iff (hv : x.original.validate = true) : x.traced now = true ↔ x.Traced now := by
  have hshow : x.traced now = true ↔ x.createdAt ≤ now ∧
      (x.consumedAt = none ∨ x.revokedAt = none) ∧
      (∀ t, x.consumedAt = some t → t ≤ now) ∧ (∀ t, x.revokedAt = some t → t ≤ now) ∧
      (x.revokedAt = none ∨ x.revocation = some (x.current now)) ∧
      (x.current now).validate = true := by
    simp only [traced, Bool.and_eq_true, decide_eq_true_eq, Option.all_eq_true, Bool.or_eq_true,
      Option.isNone_iff_eq_none, Bool.not_eq_true', Bool.and_eq_false_iff,
      Option.isSome_eq_false_iff, and_assoc]
  rw [hshow]
  constructor
  · rintro ⟨h1, hx, h2, h3, h4, h5⟩
    obtain ⟨h6, h7⟩ := (validate_current_iff hv hx).mp h5
    refine ⟨h1, hx, fun t ht => ⟨h6 t ht, h2 t ht⟩, fun t ht => ⟨h7 t ht, h3 t ht⟩, ?_⟩
    intro t ht
    have hc : x.consumedAt = none := hx.resolve_right (by simp [ht])
    rw [h4.resolve_left (by simp [ht]), current_of_revoked hc ht]
  · intro h
    refine ⟨h.created, h.exclusive, fun t ht => (h.consumed t ht).2, fun t ht => (h.revoked t ht).2,
      ?_, (validate_current_iff hv h.exclusive).mpr
        ⟨fun t ht => (h.consumed t ht).1, fun t ht => (h.revoked t ht).1⟩⟩
    cases hr : x.revokedAt with
    | none => exact Or.inl rfl
    | some b =>
      have hc : x.consumedAt = none := h.exclusive.resolve_right (by simp [hr])
      exact Or.inr (by rw [h.revocation b hr, current_of_revoked hc hr])

theorem Traced.mono (h : x.Traced t) (hle : t ≤ now) : x.Traced now where
  created := h.created.trans hle
  exclusive := h.exclusive
  consumed u hu := ⟨(h.consumed u hu).1, (h.consumed u hu).2.trans hle⟩
  revoked u hu := ⟨(h.revoked u hu).1, (h.revoked u hu).2.trans hle⟩
  revocation := h.revocation

theorem valid_of_agrees (h : x.agrees r = true) : x.original.validate = true := by
  simp only [agrees, Bool.and_eq_true] at h
  tauto

theorem lt_expiry_of_consume {g : Grant} (ha : x.agrees r = true)
    (h : x.toGrant.consume now = some g) : now < instant x.metadata.expiresAt := by
  obtain ⟨⟨-, -, -, he⟩, -⟩ := Grant.consume_eq_some.mp h
  simp only [agrees, Bool.and_eq_true, decide_eq_true_eq] at ha
  have hms := ha.1.1.2
  rw [hms, Option.all_some, decide_eq_true_eq, ← lt_ofMilli_iff] at he
  exact he.trans_le (ofMilli_le_iff.mpr le_rfl)

end SecretGrant

/-! ### Sound rows -/

section Starts

variable {r : FrozenJob} {p : PrepareGrant} {s : StartGrant} {x : SecretGrant} {now t : ℤ}

/-- The secret behind a start is the one it was granted with, consumed at the same instant. -/
theorem StartGrant.secretAgrees_iff : s.secretAgrees r p x now = true ↔
    s.secretMatches r p x = true ∧ x.consumedAt = s.consumedAt := by
  rw [StartGrant.secretAgrees, Bool.and_eq_true]
  refine and_congr_right fun _ => ?_
  cases hs : s.consumedAt with
  | none =>
    simp only [Option.isSome_none, Bool.false_eq_true, if_false, ne_eq, decide_not,
      Bool.not_eq_true', decide_eq_false_iff_not, SecretGrant.current_consumed_iff]
    simp
  | some a =>
    simp only [Option.isSome_some, if_true, Bool.and_eq_true, decide_eq_true_eq,
      SecretGrant.current_consumed_iff]
    constructor
    · exact fun h => h.2
    · intro h
      simp [h]

theorem PrepareGrant.readyTraced_mono (h : p.readyTraced t = true) (hle : t ≤ now) :
    p.readyTraced now = true := by
  revert h
  unfold PrepareGrant.readyTraced
  split
  · exact id
  · simp only [Bool.and_eq_true, decide_eq_true_eq]
    exact fun h => ⟨h.1, h.2.trans hle⟩
  · exact id

theorem PrepareGrant.sound_iff : p.sound r now = true ↔ p.receiptValid = true ∧
    p.agrees r = true ∧ p.past now = true ∧ p.readyTraced now = true := by
  simp [PrepareGrant.sound, and_assoc]

theorem PrepareGrant.sound_mono (h : p.sound r t = true) (hle : t ≤ now) :
    p.sound r now = true := by
  rw [PrepareGrant.sound_iff] at h ⊢
  exact ⟨h.1, h.2.1, Grant.past_mono h.2.2.1 hle, PrepareGrant.readyTraced_mono h.2.2.2 hle⟩

theorem ExecutionGrant.traced_mono {e : ExecutionGrant} (h : e.traced t = true) (hle : t ≤ now) :
    e.traced now = true := by
  simp only [ExecutionGrant.traced, Bool.and_eq_true, decide_eq_true_eq, Option.all_eq_true] at h ⊢
  exact ⟨⟨h.1.1, h.1.2.trans hle⟩, fun u hu => ⟨(h.2 u hu).1, (h.2 u hu).2.trans hle⟩⟩

end Starts

/-- Rows whose times are at most `t` and that load at every later time. -/
structure Grants.Sound (r : FrozenJob) (g : Grants) (t : ℤ) : Prop where
  execution : ∀ e, g.execution = some e →
    e.agrees r = true ∧ e.traced t = true ∧ e.toGrant.Tidy ∧ e.revokedAt = none
  prepare : ∀ p, g.prepare = some p →
    p.sound r t = true ∧ p.toGrant.Tidy ∧ p.revokedAt = none
  start : ∀ s, g.start = some s → ∃ p, g.prepare = some p ∧ s.receiptValid = true ∧
    s.agrees r p = true ∧ s.past t = true ∧ s.toGrant.Tidy ∧ s.revokedAt = none
  secret : ∀ x, g.secret = some x → x.agrees r = true ∧ x.Traced t ∧ x.toGrant.Tidy ∧
    ∀ u, x.consumedAt = some u → u < instant x.metadata.expiresAt
  /-- A start of a job with secrets was granted with one of them. -/
  paired : ∀ s p, g.start = some s → g.prepare = some p →
    if r.workloadSecrets = [] then s.request.secretAuthorizationID = ""
    else ∃ x, g.secret = some x ∧ s.secretMatches r p x = true ∧ x.consumedAt = s.consumedAt
  unused : g.start = none → ∀ x, g.secret = some x → x.consumedAt = none

namespace Grants.Sound

variable {r : FrozenJob} {g : Grants} {now t : ℤ}

theorem empty (r : FrozenJob) (t : ℤ) : Grants.Sound r {} t := by
  constructor <;> simp

theorem mono (h : g.Sound r t) (hle : t ≤ now) : g.Sound r now where
  execution e he := by
    obtain ⟨h1, h2, h3⟩ := h.execution e he
    exact ⟨h1, ExecutionGrant.traced_mono h2 hle, h3⟩
  prepare p hp := by
    obtain ⟨h1, h2⟩ := h.prepare p hp
    exact ⟨PrepareGrant.sound_mono h1 hle, h2⟩
  start s hs := by
    obtain ⟨p, hp, h1, h2, h3, h4⟩ := h.start s hs
    exact ⟨p, hp, h1, h2, Grant.past_mono h3 hle, h4⟩
  secret x hx := by
    obtain ⟨h1, h2, h3⟩ := h.secret x hx
    exact ⟨h1, h2.mono hle, h3⟩
  paired := h.paired
  unused := h.unused

theorem load_gate (h : g.Sound r now) : loadExecutionGate r g now = .ok (g.gate r) := by
  suffices hok : ∃ gate, loadExecutionGate r g now = .ok gate by
    obtain ⟨gate, hgate⟩ := hok
    rw [hgate, gate_of_load hgate]
  unfold loadExecutionGate
  cases hr : r.separateStart with
  | false => exact ⟨none, by simp⟩
  | true =>
    cases hp : g.prepare with
    | none => exact ⟨none, by simp⟩
    | some p =>
      cases hs : g.start with
      | none => exact ⟨some p.gate, by simp [(h.prepare p hp).1]⟩
      | some s =>
        obtain ⟨p', hp', hv, ha, hpast, -⟩ := h.start s hs
        obtain rfl : p = p' := by simpa [hp] using hp'
        have hsec : ∃ secret, startSecret r g p s now = .ok secret := by
          have hpair := h.paired s p hs hp
          by_cases hslots : r.workloadSecrets = []
          · rw [if_pos hslots] at hpair
            exact ⟨none, startSecret_eq_ok.mpr (by simp [hslots, hpair])⟩
          · rw [if_neg hslots] at hpair
            obtain ⟨x, hx, hm, hc⟩ := hpair
            obtain ⟨hxa, hxt, -⟩ := h.secret x hx
            have hxv := SecretGrant.valid_of_agrees hxa
            refine ⟨some x, startSecret_eq_ok.mpr ?_⟩
            rw [if_neg hslots]
            exact ⟨x, rfl, hx, hxa, (SecretGrant.traced_iff hxv).mpr hxt,
              StartGrant.secretAgrees_iff.mpr ⟨hm, hc⟩⟩
        obtain ⟨secret, hsec⟩ := hsec
        exact ⟨some (p.started r s secret),
          by simp [(h.prepare p hp).1, hv, ha, hpast, hsec, Except.map]⟩

/-- The readiness of a sound preparation was recorded before. -/
theorem readyAt_le (h : g.Sound r t) {p : PrepareGrant} (hp : g.prepare = some p) {at_ : ℤ}
    (hat : p.readyAt = some at_) : at_ ≤ t := by
  have hready := (PrepareGrant.sound_iff.mp (h.prepare p hp).1).2.2.2
  unfold PrepareGrant.readyTraced at hready
  split at hready
  · simp_all
  · simp_all
  · cases hready

theorem start_none (h : g.Sound r t)
    (hp : ∀ p, g.prepare = some p → p.readyRevision = none) : g.start = none := by
  cases hs : g.start with
  | none => rfl
  | some s =>
    obtain ⟨p, hprep, -, ha, -⟩ := h.start s hs
    simp only [StartGrant.agrees, StartRequest.validate, hp p hprep, Option.getD_none,
      Bool.and_eq_true, decide_eq_true_eq] at ha
    obtain ⟨⟨⟨⟨⟨⟨⟨⟨hq, -⟩, hrev⟩, -⟩, -⟩, -⟩, -⟩, -⟩, -⟩ := ha
    rw [hrev] at hq
    simp [show validSHA256Digest "" = false by decide] at hq

end Grants.Sound

/-! ### What transactions do to the rows -/

theorem secretForStart_ok {r : FrozenJob} {row secret : Option SecretGrant} {id revision : String}
    {now : ℤ} (h : secretForStart r row id revision now = .ok secret) :
    if r.workloadSecrets = [] then id = "" ∧ secret = none
    else ∃ x, secret = some x ∧ row = some x ∧ x.authorizationID = id ∧ x.consumedAt = none ∧
      x.metadata.readinessRevision = revision ∧ now < instant x.metadata.expiresAt ∧
      matchSecretSlots r.workloadSecrets x.metadata = true := by
  unfold secretForStart at h
  by_cases hslots : r.workloadSecrets = []
  · simp only [hslots, if_true] at h ⊢
    split_ifs at h with hid
    cases h
    exact ⟨not_not.mp hid, rfl⟩
  · simp only [hslots, if_false] at h ⊢
    split_ifs at h with hid
    split at h
    · cases h
    · cases h
    · rename_i x hx
      split_ifs at h with hg
      simp only [not_or, not_not, not_le, Bool.not_eq_true', Bool.not_eq_false] at hg
      obtain ⟨hid', hstatus, hrev, hexp, hmatch⟩ := hg
      cases h
      obtain ⟨hrow, -⟩ := loadSecret_eq_ok.mp hx
      refine ⟨x, rfl, hrow, hid', ?_, hrev, hexp, hmatch⟩
      by_contra hne
      have hused : (x.current now).status = .consumed :=
        SecretGrant.current_consumed_iff.mpr (Option.isSome_iff_ne_none.mpr hne)
      rw [hstatus] at hused
      cases hused

/-- Changes of the rows that go with no step of the journal. -/
inductive Granting (r : FrozenJob) (g : Grants) (now : ℤ) : Grants → Prop
  | kept : Granting r g now g
  | authorized (id : FreshID) (inputs : String) (fresh : g.execution = none)
      (frozen : r.inputsSHA256 = some inputs) :
      Granting r g now { g with execution := some {
        toGrant := .fresh id now, binding := r.profile, account := r.accountScope, inputs
        nonce := r.attemptNonce, wallSeconds := r.remoteWallSeconds } }
  | prepared (q : PrepareRequest) (id : FreshID) (inputs : String) (fresh : g.prepare = none)
      (frozen : r.inputsSHA256 = some inputs) (valid : q.validate = true)
      (attempt : q.attemptID = r.attemptID) (future : now < instant q.readyUntil)
      (hold : instant q.readyUntil ≤ now + maxReadyHold)
        (bytes : r.objectBytes ≤ q.maxStagedBytes) :
      Granting r g now { g with prepare := some {
        toGrant := .fresh id now, request := q, binding := r.profile
        account := r.accountScope, inputs, nonce := r.attemptNonce
        reservedBytes := r.objectBytes, readyUntilMs := unixMilli (instant q.readyUntil) } }
  | started (q : StartRequest) (id : FreshID) (p : PrepareGrant) (at_ : ℤ)
      (secret : Option SecretGrant) (prepare : g.prepare = some p) (fresh : g.start = none)
      (valid : q.validate = true) (attempt : q.attemptID = r.attemptID)
      (revision : q.readinessRevision = p.readyRevision.getD "") (ready : p.readyAt = some at_)
      (wall : q.maxRemoteWallSeconds ≤ r.remoteWallSeconds)
      (future : now < instant q.executionDeadline)
      (stop : instant q.executionDeadline ≤ now + q.maxRemoteWallSeconds * Rfc3339.second)
      (deadline : r.deadline.all (instant q.executionDeadline ≤ ·) = true)
      (held : now < instant p.request.readyUntil)
      (material : secretForStart r g.secret q.secretAuthorizationID q.readinessRevision now =
        .ok secret) :
      Granting r g now { g with start := some { toGrant := .fresh id now, request := q } }
  | supplied (m : Metadata) (id : FreshID) (fresh : g.secret = none) (valid : m.validate = true)
      (attempt : m.attemptID = r.attemptID)
      (slots : matchSecretSlots r.workloadSecrets m = true) (future : now < instant m.expiresAt)
      (lifetime : instant m.expiresAt ≤ now + maxLifetime) :
      Granting r g now { g with secret := some {
        toGrant := .fresh id now (some (unixMilli (instant m.expiresAt))), metadata := m } }
  | revoked (x : SecretGrant) (row : g.secret = some x) (unconsumed : x.consumedAt = none)
      (unrevoked : x.revokedAt = none) :
      Granting r g now { g with secret := some { x with
        status := .revoked, revokedAt := some now
        revocation := some { x.current now with status := .revoked, revokedAt := some now } } }
  | executed (e : ExecutionGrant) (used : Grant) (row : g.execution = some e)
      (consume : e.toGrant.consume now = some used) :
      Granting r g now { g with execution := some { e with toGrant := used } }
  | staged (p : PrepareGrant) (used : Grant) (row : g.prepare = some p)
      (consume : p.toGrant.consume now = some used) :
      Granting r g now { g with prepare := some { p with toGrant := used } }

/-- Changes of the rows within a step of the journal. -/
inductive GateStep (r : FrozenJob) (g : Grants) (now : ℤ) : Grants → Prop
  | kept : GateStep r g now g
  | readied (p : PrepareGrant) (revision : String) (row : g.prepare = some p)
      (unready : p.readyRevision = none) (used : p.consumedAt.isSome = true)
      (valid : validSHA256Digest revision = true) :
      GateStep r g now { g with
        prepare := some { p with readyRevision := some revision, readyAt := some now } }
  | submitted (s : StartGrant) (used : Grant) (row : g.start = some s)
      (consume : s.toGrant.consume now = some used) (slots : r.workloadSecrets = []) :
      GateStep r g now { g with start := some { s with toGrant := used } }
  | delivered (s : StartGrant) (used : Grant) (x : SecretGrant) (spent : Grant)
      (row : g.start = some s) (consume : s.toGrant.consume now = some used)
      (secret : g.secret = some x) (spend : x.toGrant.consume now = some spent)
      (slots : r.workloadSecrets ≠ []) :
      GateStep r g now { g with
        start := some { s with toGrant := used }, secret := some { x with toGrant := spent } }

theorem ne_zeroTime {now : ℤ} (h : validTime now = true) : now ≠ zeroTime := by
  have := ((validTime_iff now).mp h).1
  have hz : zeroTime < 0 := by decide
  omega

section Steps

variable {r : FrozenJob} {g g' : Grants} {now : ℤ}

/-- **Step lemma.** Transactions on the rows keep them sound. -/
theorem Granting.sound (h : g.Sound r now) (ht : validTime now = true)
    (hstep : Granting r g now g') : g'.Sound r now := by
  have hz := ne_zeroTime ht
  cases hstep with
  | kept => exact h
  | authorized id inputs fresh frozen =>
    refine { h with execution := ?_ }
    rintro e ⟨⟩
    refine ⟨?_, ?_, Grant.tidy_fresh id none, rfl⟩
    · simp [ExecutionGrant.agrees, frozen]
    · simp [ExecutionGrant.traced, Grant.fresh, ht]
  | prepared q id inputs fresh frozen valid attempt future hold bytes =>
    have hstart : g.start = none := h.start_none fun p hp => by simp [fresh] at hp
    refine { h with prepare := ?_, start := ?_, paired := ?_ }
    · rintro p ⟨⟩
      refine ⟨PrepareGrant.sound_iff.mpr ⟨Grant.receiptValid_fresh id hz none, ?_, ?_, rfl⟩,
        Grant.tidy_fresh id none, rfl⟩
      · simp only [PrepareGrant.agrees, Bool.and_eq_true, decide_eq_true_eq]
        exact ⟨⟨⟨⟨⟨⟨⟨⟨⟨⟨valid, attempt⟩, frozen⟩, trivial⟩, trivial⟩, trivial⟩, trivial⟩, bytes⟩,
          trivial⟩, future⟩, hold⟩
      · simp [Grant.past, Grant.fresh]
    · intro s hs
      simp [hstart] at hs
    · intro s p hs
      simp [hstart] at hs
  | started q id p at_ secret prepare fresh valid attempt revision ready wall future stop deadline
      held material =>
    have hat := h.readyAt_le prepare ready
    have hsec := secretForStart_ok material
    refine { h with start := ?_, paired := ?_, unused := by simp }
    · rintro s ⟨⟩
      refine ⟨p, prepare, Grant.receiptValid_fresh id hz none, ?_, ?_,
        Grant.tidy_fresh id none, rfl⟩
      · simp only [StartGrant.agrees, Bool.and_eq_true, decide_eq_true_eq]
        refine ⟨⟨⟨⟨⟨⟨⟨⟨valid, attempt⟩, revision⟩, ?_⟩, wall⟩, future⟩, stop⟩, deadline⟩, held⟩
        rw [ready, Option.any_some]
        exact decide_eq_true hat
      · simp [Grant.past, Grant.fresh]
    · rintro s p' ⟨⟩ hp'
      obtain rfl : p = p' := by simpa [prepare] using hp'
      split_ifs at hsec ⊢ with hslots
      · exact hsec.1
      · obtain ⟨x, -, hrow, hid, hc, hrev, hexp, hmatch⟩ := hsec
        have hcreated := (h.secret x hrow).2.1.created
        refine ⟨x, hrow, ?_, hc⟩
        simp only [StartGrant.secretMatches, Bool.and_eq_true, decide_eq_true_eq]
        exact ⟨⟨⟨⟨hid.symm, hrev.trans revision⟩, hmatch⟩, hexp⟩, hcreated⟩
  | supplied m id fresh valid attempt slots future lifetime =>
    have hslots : r.workloadSecrets ≠ [] := by
      intro hnil
      simp [matchSecretSlots, hnil] at slots
    have hstart : g.start = none := by
      cases hs : g.start with
      | none => rfl
      | some s =>
        obtain ⟨p, hp, -⟩ := h.start s hs
        have hpair := h.paired s p hs hp
        rw [if_neg hslots, fresh] at hpair
        simp at hpair
    refine { h with secret := ?_, paired := ?_, unused := ?_ }
    · rintro x ⟨⟩
      refine ⟨?_, ⟨le_rfl, Or.inl rfl, by simp [Grant.fresh], by simp [Grant.fresh],
        by simp [Grant.fresh]⟩, Grant.tidy_fresh id _, by simp [Grant.fresh]⟩
      simp only [SecretGrant.agrees, Bool.and_eq_true, decide_eq_true_eq]
      refine ⟨⟨⟨⟨SecretGrant.validate_iff.mpr ⟨id.2, valid, hz, rfl, rfl, ?_⟩, attempt⟩, rfl⟩,
        future⟩, lifetime⟩
      simp [SecretGrant.original]
    · intro s p hs
      simp [hstart] at hs
    · rintro - x ⟨⟩
      rfl
  | revoked x row unconsumed unrevoked =>
    obtain ⟨ha, htr, htidy, -⟩ := h.secret x row
    refine { h with secret := ?_, paired := ?_, unused := ?_ }
    · rintro y ⟨⟩
      refine ⟨ha, ?_, ⟨?_, by simp⟩, ?_⟩
      · refine ⟨htr.created, Or.inl unconsumed, by simp [unconsumed], ?_, ?_⟩
        · rintro t ⟨⟩
          exact ⟨htr.created, le_rfl⟩
        · rintro t ⟨⟩
          rw [SecretGrant.current_of_live unconsumed unrevoked]
          rfl
      · simp [unconsumed]
      · simp [unconsumed]
    · intro s p hs hp
      have hpair := h.paired s p hs hp
      split_ifs at hpair ⊢ with hslots
      · exact hpair
      · obtain ⟨y, hy, hm, hc⟩ := hpair
        obtain rfl : x = y := by simpa [row] using hy
        exact ⟨_, rfl, hm, hc⟩
    · rintro hs y ⟨⟩
      exact unconsumed
  | executed e used row consume =>
    obtain ⟨ha, htr, -, hrev⟩ := h.execution e row
    obtain ⟨⟨-, -, -, -⟩, hused⟩ := Grant.consume_eq_some.mp consume
    refine { h with execution := ?_ }
    rintro e' ⟨⟩
    refine ⟨ha, ?_, Grant.tidy_consume consume, by rw [hused]; exact hrev⟩
    simp only [ExecutionGrant.traced, Bool.and_eq_true, decide_eq_true_eq] at htr
    simp [ExecutionGrant.traced, hused, htr.1.1.1, htr.1.2]
  | staged p used row consume =>
    obtain ⟨hsound, -, hrev⟩ := h.prepare p row
    obtain ⟨hv, ha, hpast, hready⟩ := PrepareGrant.sound_iff.mp hsound
    obtain ⟨hv', hpast'⟩ := Grant.receiptValid_consume consume hv hpast
    obtain ⟨⟨-, hnone, -, -⟩, hused⟩ := Grant.consume_eq_some.mp consume
    -- an unconsumed preparation has no recorded readiness
    have hrnone : p.readyRevision = none ∧ p.readyAt = none := by
      unfold PrepareGrant.readyTraced at hready
      split at hready
      · rename_i h1 h2
        exact ⟨h1, h2⟩
      · simp [hnone] at hready
      · cases hready
    have hstart : g.start = none := h.start_none fun q hq => by
      obtain rfl : p = q := by simpa [row] using hq
      exact hrnone.1
    refine { h with prepare := ?_, start := ?_, paired := ?_ }
    · rintro q ⟨⟩
      refine ⟨PrepareGrant.sound_iff.mpr ⟨hv', ?_, hpast', ?_⟩, Grant.tidy_consume consume, ?_⟩
      · simpa only [PrepareGrant.agrees, hused] using ha
      · simp [PrepareGrant.readyTraced, hrnone.1, hrnone.2]
      · rw [hused]
        exact hrev
    · intro s hs
      simp [hstart] at hs
    · intro s q hs
      simp [hstart] at hs

/-- **Step lemma.** A step of the journal keeps the rows sound. -/
theorem GateStep.sound (h : g.Sound r now) (hstep : GateStep r g now g') : g'.Sound r now := by
  cases hstep with
  | kept => exact h
  | readied p revision row unready used valid =>
    obtain ⟨hsound, htidy, hrev⟩ := h.prepare p row
    obtain ⟨hv, ha, hpast, -⟩ := PrepareGrant.sound_iff.mp hsound
    have hstart : g.start = none := h.start_none fun q hq => by
      obtain rfl : p = q := by simpa [row] using hq
      exact unready
    obtain ⟨u, hu⟩ := Option.isSome_iff_exists.mp used
    have hle : u ≤ now := by
      simp only [Grant.past, hu, Option.all_some, Bool.and_eq_true, decide_eq_true_eq] at hpast
      exact hpast.2
    refine { h with prepare := ?_, start := ?_, paired := ?_ }
    · rintro q ⟨⟩
      refine ⟨PrepareGrant.sound_iff.mpr ⟨hv, ha, hpast, ?_⟩, htidy, hrev⟩
      simp [PrepareGrant.readyTraced, valid, hu, hle]
    · intro s hs
      simp [hstart] at hs
    · intro s q hs
      simp [hstart] at hs
  | submitted s used row consume slots =>
    obtain ⟨p, hp, hv, ha, hpast, -, hrev⟩ := h.start s row
    obtain ⟨hv', hpast'⟩ := Grant.receiptValid_consume consume hv hpast
    obtain ⟨-, hused⟩ := Grant.consume_eq_some.mp consume
    refine { h with start := ?_, paired := ?_, unused := by simp }
    · rintro s' ⟨⟩
      refine ⟨p, hp, hv', ?_, hpast', Grant.tidy_consume consume, by rw [hused]; exact hrev⟩
      simpa only [StartGrant.agrees, hused] using ha
    · rintro s' q ⟨⟩ hq
      have hpair := h.paired s q row hq
      rw [if_pos slots] at hpair ⊢
      exact hpair
  | delivered s used x spent row consume secret spend slots =>
    obtain ⟨p, hp, hv, ha, hpast, -, hrev⟩ := h.start s row
    obtain ⟨hxa, hxt, -, -⟩ := h.secret x secret
    obtain ⟨hv', hpast'⟩ := Grant.receiptValid_consume consume hv hpast
    obtain ⟨-, hused⟩ := Grant.consume_eq_some.mp consume
    obtain ⟨⟨-, -, hunrevoked, -⟩, hspent⟩ := Grant.consume_eq_some.mp spend
    have hexp := SecretGrant.lt_expiry_of_consume hxa spend
    refine { h with start := ?_, secret := ?_, paired := ?_, unused := by simp }
    · rintro s' ⟨⟩
      refine ⟨p, hp, hv', ?_, hpast', Grant.tidy_consume consume, by rw [hused]; exact hrev⟩
      simpa only [StartGrant.agrees, hused] using ha
    · rintro y ⟨⟩
      refine ⟨?_, ⟨?_, Or.inr ?_, ?_, ?_, ?_⟩, Grant.tidy_consume spend, ?_⟩
      · simpa only [SecretGrant.agrees, SecretGrant.original, hspent] using hxa
      · rw [hspent]
        exact hxt.created
      · rw [hspent]
        exact hunrevoked
      · rintro u hu
        obtain rfl : now = u := by simpa [hspent] using hu
        rw [hspent]
        exact ⟨hxt.created, le_rfl⟩
      · simp [hspent, hunrevoked]
      · simp [hspent, hunrevoked]
      · rintro u hu
        obtain rfl : now = u := by simpa [hspent] using hu
        exact hexp
    · rintro s' q ⟨⟩ hq
      have hpair := h.paired s q row hq
      rw [if_neg slots] at hpair ⊢
      obtain ⟨y, hy, hm, -⟩ := hpair
      obtain rfl : x = y := by simpa [secret] using hy
      refine ⟨_, rfl, ?_, by rw [hspent, hused]⟩
      simpa only [StartGrant.secretMatches, hused, hspent] using hm

/-! ### What stays -/

/-- Every row of `g` is in `g'`, in a later state. -/
def Grants.Later (g g' : Grants) : Prop :=
  ∀ k a, g.row k = some a → ∃ b, g'.row k = some b ∧ a.Later b

theorem Grants.Later.refl (g : Grants) : g.Later g := fun _ a h => ⟨a, h, .refl a⟩

theorem Grants.Later.trans {g g' g'' : Grants} (h : g.Later g') (h' : g'.Later g'') :
    g.Later g'' := by
  intro k a ha
  obtain ⟨b, hb, hab⟩ := h k a ha
  obtain ⟨d, hd, hbd⟩ := h' k b hb
  exact ⟨d, hd, hab.trans hbd⟩

/-- Rows that differ in one kind only. -/
theorem Grants.later_of_row (k : GrantKind) (hk : ∀ a, g.row k = some a →
    ∃ b, g'.row k = some b ∧ a.Later b) (hrest : ∀ l, l ≠ k → g'.row l = g.row l) : g.Later g' := by
  intro l a ha
  by_cases hl : l = k
  · subst hl
    exact hk a ha
  · exact ⟨a, by rw [hrest l hl, ha], .refl a⟩

theorem Grant.Tidy.granted {a : Grant} (h : a.Tidy) (hc : a.consumedAt = none)
    (hr : a.revokedAt = none) : a.status = .granted := by
  have h1 := h.consumed
  have h2 := h.revoked
  cases hs : a.status <;> simp_all

theorem Granting.later (h : g.Sound r now) (hstep : Granting r g now g') : g.Later g' := by
  cases hstep with
  | kept => exact .refl g
  | authorized id inputs fresh =>
    exact Grants.later_of_row .execution (by simp [Grants.row, fresh])
      (by intro l hl; cases l <;> simp_all [Grants.row])
  | prepared q id inputs fresh =>
    exact Grants.later_of_row .prepare (by simp [Grants.row, fresh])
      (by intro l hl; cases l <;> simp_all [Grants.row])
  | started q id p at_ secret prepare fresh =>
    exact Grants.later_of_row .start (by simp [Grants.row, fresh])
      (by intro l hl; cases l <;> simp_all [Grants.row])
  | supplied m id fresh =>
    exact Grants.later_of_row .secret (by simp [Grants.row, fresh])
      (by intro l hl; cases l <;> simp_all [Grants.row])
  | revoked x row unconsumed unrevoked =>
    have hgranted := (h.secret x row).2.2.1.granted unconsumed unrevoked
    refine Grants.later_of_row .secret ?_ (by intro l hl; cases l <;> simp_all [Grants.row])
    simp [Grants.row, row, Grant.Later, hgranted]
  | executed e used row consume =>
    refine Grants.later_of_row .execution ?_ (by intro l hl; cases l <;> simp_all [Grants.row])
    simpa [Grants.row, row] using Grant.later_consume consume
  | staged p used row consume =>
    refine Grants.later_of_row .prepare ?_ (by intro l hl; cases l <;> simp_all [Grants.row])
    simpa [Grants.row, row] using Grant.later_consume consume

theorem GateStep.later (hstep : GateStep r g now g') : g.Later g' := by
  cases hstep with
  | kept => exact .refl g
  | readied p revision row =>
    refine Grants.later_of_row .prepare ?_ (by intro l hl; cases l <;> simp_all [Grants.row])
    simpa [Grants.row, row] using Grant.Later.refl p.toGrant
  | submitted s used row consume =>
    refine Grants.later_of_row .start ?_ (by intro l hl; cases l <;> simp_all [Grants.row])
    simpa [Grants.row, row] using Grant.later_consume consume
  | delivered s used x spent row consume secret spend =>
    have h1 : g.Later { g with start := some { s with toGrant := used } } := by
      refine Grants.later_of_row .start ?_ (by intro l hl; cases l <;> simp_all [Grants.row])
      simpa [Grants.row, row] using Grant.later_consume consume
    refine h1.trans (Grants.later_of_row .secret ?_
      (by intro l hl; cases l <;> simp_all [Grants.row]))
    simpa [Grants.row, secret] using Grant.later_consume spend

/-- The kind of grant that permits preparation. -/
def authorityKind (r : FrozenJob) : GrantKind := if r.separateStart then .prepare else .execution

/-- The grant that permits preparation is consumed. -/
def Grants.Authorized (r : FrozenJob) (g : Grants) : Prop :=
  ∃ a, g.row (authorityKind r) = some a ∧ a.status = .consumed

theorem Grants.Authorized.later (h : g.Authorized r) (hl : g.Later g') : g'.Authorized r := by
  obtain ⟨a, ha, hs⟩ := h
  obtain ⟨b, hb, rfl | ⟨hg, -⟩⟩ := hl _ a ha
  · exact ⟨b, hb, hs⟩
  · rw [hs] at hg
    cases hg

/-- Sound rows grant exactly what `dispatchAuthorization` reads from them. -/
theorem Grants.Sound.authorized_iff (h : g.Sound r now) :
    (dispatchAuthorization r g (g.gate r) now).toOption = some .consumed ↔ g.Authorized r := by
  unfold dispatchAuthorization Grants.Authorized authorityKind
  cases hr : r.separateStart with
  | true =>
    cases hp : g.prepare with
    | none => simp [Grants.gate, hr, hp, Grants.row, Except.toOption]
    | some p =>
      have hprep : (g.gate r).map (·.preparation) = some p.toGrant := by
        cases hs : g.start <;>
          simp [Grants.gate, hr, hp, hs, PrepareGrant.gate, PrepareGrant.started]
      obtain ⟨gate, hgate, hpre⟩ := Option.map_eq_some_iff.mp hprep
      have htidy := (h.prepare p hp).2.1
      simp [hgate, hpre, Grants.row, hp, Except.toOption, htidy.receiptStatus_eq]
  | false =>
    cases he : g.execution with
    | none => simp [Grants.row, he, Except.toOption]
    | some e =>
      obtain ⟨ha, ht, htidy, hrev⟩ := h.execution e he
      have hunrevoked : e.status ≠ .revoked := by
        intro hs
        have hsome := htidy.revoked.mp hs
        simp [hrev] at hsome
      simp [Grants.row, he, Except.toOption, ha, ht, hunrevoked]

/-- The start grant is consumed. -/
def Grants.StartUsed (g : Grants) : Prop := ∃ s, g.start = some s ∧ s.status = .consumed

/-- The start authority rebuilt from the rows. -/
def Grants.startAuthorization (r : FrozenJob) (g : Grants) : Option StartAuthorization :=
  (g.gate r).bind (·.start)

theorem Grants.startAuthorization_eq {p : PrepareGrant} {s : StartGrant} (hp : g.prepare = some p)
    (hs : g.start = some s) : g.startAuthorization r =
      if r.separateStart then
        some (s.authorization r p (if r.workloadSecrets = [] then none else g.secret))
      else none := by
  cases hr : r.separateStart <;>
    simp [Grants.startAuthorization, Grants.gate, hr, hp, hs, PrepareGrant.started]

/-- The revision the gate holds ready; empty before any. -/
def Grants.readyRevision (g : Grants) : String := (g.prepare.bind (·.readyRevision)).getD ""

/-- Nothing but a submission consumes the start grant. -/
theorem Granting.startUsed (hstep : Granting r g now g') : g'.StartUsed ↔ g.StartUsed := by
  cases hstep with
  | started q id p at_ secret prepare fresh => simp [Grants.StartUsed, fresh, Grant.fresh]
  | _ => rfl

theorem Granting.readyRevision (hstep : Granting r g now g') :
    g'.readyRevision = g.readyRevision := by
  cases hstep with
  | prepared q id inputs fresh => simp [Grants.readyRevision, fresh]
  | staged p used row => simp [Grants.readyRevision, row]
  | _ => rfl

/-- Once a start is granted, the authority it stands for does not change. -/
theorem Granting.startAuthorization (h : g.Sound r now) (hstep : Granting r g now g')
    (hs : g.start ≠ none) : g'.startAuthorization r = g.startAuthorization r := by
  obtain ⟨s, hs⟩ := Option.ne_none_iff_exists'.mp hs
  obtain ⟨p, hp, -⟩ := h.start s hs
  cases hstep with
  | kept | authorized | executed => rfl
  | prepared q id inputs fresh => simp [hp] at fresh
  | started q id p at_ secret prepare fresh => simp [hs] at fresh
  | supplied m id fresh valid attempt slots =>
    have hslots : r.workloadSecrets ≠ [] := by
      intro hnil
      simp [matchSecretSlots, hnil] at slots
    have hpair := h.paired s p hs hp
    rw [if_neg hslots, fresh] at hpair
    simp at hpair
  | revoked x row =>
    rw [Grants.startAuthorization_eq hp hs, row]
    refine (Grants.startAuthorization_eq (p := p) (s := s) (by exact hp) (by exact hs)).trans ?_
    by_cases hslots : r.workloadSecrets = [] <;> simp [hslots, StartGrant.authorization]
  | staged q used row consume =>
    obtain rfl : p = q := by simpa [hp] using row
    rw [Grants.startAuthorization_eq hp hs]
    exact Grants.startAuthorization_eq (p := { p with toGrant := used }) (s := s) rfl hs

/-- A step of the journal keeps the start authority, also when it consumes it. -/
theorem GateStep.startAuthorization (h : g.Sound r now) (hstep : GateStep r g now g')
    (hs : g.start ≠ none) : g'.startAuthorization r = g.startAuthorization r := by
  obtain ⟨s, hs⟩ := Option.ne_none_iff_exists'.mp hs
  obtain ⟨p, hp, -⟩ := h.start s hs
  cases hstep with
  | kept => rfl
  | readied q revision row unready =>
    have := h.start_none fun p' hp' => by
      obtain rfl : q = p' := by simpa [row] using hp'
      exact unready
    simp [hs] at this
  | submitted s' used row consume slots =>
    obtain rfl : s = s' := by simpa [hs] using row
    obtain ⟨-, hused⟩ := Grant.consume_eq_some.mp consume
    rw [Grants.startAuthorization_eq hp hs]
    refine (Grants.startAuthorization_eq (p := p) (s := { s with toGrant := used })
      (by exact hp) rfl).trans ?_
    simp only [StartGrant.authorization, StartGrant.stop, hused]
  | delivered s' used x spent row consume secret spend slots =>
    obtain rfl : s = s' := by simpa [hs] using row
    obtain ⟨-, hused⟩ := Grant.consume_eq_some.mp consume
    obtain ⟨-, hspent⟩ := Grant.consume_eq_some.mp spend
    rw [Grants.startAuthorization_eq hp hs]
    refine (Grants.startAuthorization_eq (p := p) (s := { s with toGrant := used })
      (by exact hp) rfl).trans ?_
    simp only [StartGrant.authorization, StartGrant.stop, hused, hspent, slots, secret, if_false,
      Option.map_some]

end Steps

end Store
end ComputeRelay
