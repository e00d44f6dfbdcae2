import Mathlib.Tactic
import ComputeRelay.Dispatch.Journal
import ComputeRelay.Lib.Run
import ComputeRelay.Store.Clock

/-!
# Work leases

The four operations of `internal/store/sqlite/work_lease.go` on the row of one kind and key. The
lease in the row is named by its generation, its fence, its owner and its context; the expiry is
renewable and kept in milliseconds, while the time of a transaction has nanoseconds.

* `claimWorkLease`, `checkWorkLease`, `renewWorkLease` and `releaseWorkLease` are the operations,
  with their guarded updates as the SQL has them.
* `Leases` is the row together with all leases issued so far, `Leases.call` one operation on it.
* `Leases.Sound` is the invariant; `Dead` says that an issued lease is over, and `dead_call` that
  this is for good.
* `leases_fenced` is the main result.
-/

namespace ComputeRelay
namespace Store

open Scheduler

inductive WorkKind
  | dispatch | collection | cleanup
  deriving DecidableEq

/-- `workLease.lost`. -/
def WorkKind.lost : WorkKind → Err
  | .dispatch => .leaseLost
  | .collection => .collectionLeaseLost
  | .cleanup => .cleanupLeaseLost

/-- What names a lease: everything in `workLease` but its kind, its key and its expiry. -/
structure WorkLease where
  owner : String
  fence : String
  generation : ℤ
  operationID : Option String
  attemptRevision : Option ℤ
  deriving DecidableEq

/-- A row of the table `work_leases`. -/
structure LeaseRow extends WorkLease where
  untilMs : ℤ
  held : Bool
  deriving DecidableEq

/-- The row is held and its expiry is after `now`. -/
def LeaseRow.live (r : LeaseRow) (now : ℤ) : Bool := r.held && now < ofMilli r.untilMs

theorem LeaseRow.live_eq_false {r : LeaseRow} {now : ℤ} :
    r.live now = false ↔ r.held = false ∨ ofMilli r.untilMs ≤ now := by
  simp [LeaseRow.live, Bool.and_eq_false_iff, -Bool.and_eq_false_imp]

/-- An SQL update of the row under a condition, with the number of rows it affects. -/
def LeaseRow.update (r : LeaseRow) (condition : Bool) (set : LeaseRow → LeaseRow) : LeaseRow × ℕ :=
  if condition then (set r, 1) else (r, 0)

/-- `leaseUpdate`: exactly one row must be affected. -/
def leaseUpdate (k : WorkKind) (r : LeaseRow × ℕ) : Except Err LeaseRow :=
  if r.2 ≠ 1 then .error k.lost else .ok r.1

/-- The update behind a claim of a row that exists. -/
def claimUpdate (old new : LeaseRow) (now : ℤ) : LeaseRow × ℕ :=
  old.update (old.generation = new.generation - 1 ∧
    (old.held = false ∨ old.untilMs ≤ unixMilli now))
    fun _ => new

/-- The generation of a row, zero before there is one. -/
def rowGeneration (row : Option LeaseRow) : ℤ := (row.map fun old => old.generation).getD 0

/-- The row a claim writes. -/
def claimedRow (row : Option LeaseRow) (want : WorkLease) (fence : String) (now ttl : ℤ) :
    LeaseRow :=
  { want with
    generation := rowGeneration row + 1
    fence
    untilMs := unixMilli (now + ttl)
    held := true }

/-- `claimWorkLease`; the fence is drawn at random. -/
def claimWorkLease (k : WorkKind) (row : Option LeaseRow) (want : WorkLease) (fence : String)
    (now ttl : ℤ) : Except Err LeaseRow :=
  if row.any fun old => old.held && now < ofMilli old.untilMs then .error k.lost
  else if rowGeneration row = Dispatch.maxInt64 then .error .conflict
  else
    let new := claimedRow row want fence now ttl
    if !validTime (ofMilli new.untilMs) ∨ ¬now < ofMilli new.untilMs then .error .invalid
    else match row with
      | none => .ok new
      | some old => leaseUpdate k (claimUpdate old new now)

/-- `checkWorkLease`. -/
def checkWorkLease (k : WorkKind) (row : Option LeaseRow) (want : WorkLease) (now : ℤ) :
    Except Err LeaseRow :=
  match row with
  | none => .error k.lost
  | some current =>
    if !current.held ∨ ¬now < ofMilli current.untilMs ∨
        current.generation ≠ want.generation ∨ current.fence ≠ want.fence ∨
        current.owner ≠ want.owner ∨ current.operationID ≠ want.operationID ∨
        current.attemptRevision ≠ want.attemptRevision then .error k.lost
    else .ok current

/-- The condition of the updates behind a renewal and a release. -/
def ownedUpdate (r : LeaseRow) (want : WorkLease) (now : ℤ) (set : LeaseRow → LeaseRow) :
    LeaseRow × ℕ :=
  r.update (r.generation = want.generation ∧ r.fence = want.fence ∧ r.held = true ∧
    unixMilli now < r.untilMs) set

/-- `renewWorkLease`. -/
def renewWorkLease (k : WorkKind) (row : Option LeaseRow) (want : WorkLease) (now ttl : ℤ) :
    Except Err LeaseRow :=
  match checkWorkLease k row want now with
  | .error e => .error e
  | .ok current =>
    let untilMs := unixMilli (now + ttl)
    if !validTime (ofMilli untilMs) then .error .invalid
    else
      let untilMs := if untilMs < current.untilMs then current.untilMs else untilMs
      leaseUpdate k (ownedUpdate current want now fun r => { r with untilMs })

/-- `releaseWorkLease`. -/
def releaseWorkLease (k : WorkKind) (row : Option LeaseRow) (want : WorkLease) (now : ℤ) :
    Except Err LeaseRow :=
  match checkWorkLease k row want now with
  | .error e => .error e
  | .ok current => leaseUpdate k (ownedUpdate current want now fun r => { r with held := false })

/-! ### What each operation does -/

section Operations

variable {k : WorkKind} {row : Option LeaseRow} {want : WorkLease} {fence : String}
variable {now ttl : ℤ} {r r' : LeaseRow}

theorem checkWorkLease_eq_ok : checkWorkLease k row want now = .ok r ↔
    row = some r ∧ r.live now = true ∧ r.toWorkLease = want := by
  unfold checkWorkLease LeaseRow.live
  cases row with
  | none => simp
  | some current =>
    obtain ⟨⟨owner, fence, generation, operation, revision⟩, untilMs, held⟩ := current
    obtain ⟨owner', fence', generation', operation', revision'⟩ := want
    simp only [Option.some.injEq]
    split_ifs with h
    · simp only [false_iff, not_and]
      rintro rfl hlive heq
      simp only [WorkLease.mk.injEq] at heq
      simp_all
      omega
    · simp only [Except.ok.injEq]
      constructor
      · rintro rfl
        simp_all
      · rintro ⟨rfl, -⟩
        rfl

theorem leaseUpdate_update {condition : Bool} {set : LeaseRow → LeaseRow} :
    leaseUpdate k (r.update condition set) = .ok r' ↔ condition = true ∧ r' = set r := by
  cases condition <;> simp [leaseUpdate, LeaseRow.update, eq_comm]

/-- The Go check and the SQL check of a renewal or a release agree: an update behind a check that
passed affects the row. -/
theorem leaseUpdate_owned {set : LeaseRow → LeaseRow} (hlive : r.live now = true)
    (heq : r.toWorkLease = want) : leaseUpdate k (ownedUpdate r want now set) = .ok (set r) := by
  subst heq
  simp only [LeaseRow.live, Bool.and_eq_true, decide_eq_true_eq, lt_ofMilli_iff] at hlive
  exact leaseUpdate_update.mpr ⟨by simp [hlive], rfl⟩

theorem renewWorkLease_eq_ok (h : renewWorkLease k row want now ttl = .ok r') :
    ∃ r, checkWorkLease k row want now = .ok r ∧ r.untilMs ≤ r'.untilMs ∧
      r' = { r with untilMs := r'.untilMs } := by
  unfold renewWorkLease at h
  split at h
  · cases h
  · rename_i current hcheck
    refine ⟨current, hcheck, ?_⟩
    obtain ⟨-, hlive, heq⟩ := checkWorkLease_eq_ok.mp hcheck
    simp only at h
    split_ifs at h with hvalid hshort <;> rw [leaseUpdate_owned hlive heq] at h <;> cases h
    · exact ⟨le_rfl, rfl⟩
    · exact ⟨not_lt.mp hshort, rfl⟩

theorem releaseWorkLease_eq_ok (h : releaseWorkLease k row want now = .ok r') :
    ∃ r, checkWorkLease k row want now = .ok r ∧ r' = { r with held := false } := by
  unfold releaseWorkLease at h
  split at h
  · cases h
  · rename_i current hcheck
    obtain ⟨-, hlive, heq⟩ := checkWorkLease_eq_ok.mp hcheck
    rw [leaseUpdate_owned hlive heq] at h
    cases h
    exact ⟨current, hcheck, rfl⟩

/-- The Go check and the SQL check of a claim agree. -/
theorem claimUpdate_affects (want : WorkLease) (fence : String) (ttl : ℤ)
    (h : r.live now = false) :
    (claimUpdate r (claimedRow (some r) want fence now ttl) now).2 = 1 := by
  rw [LeaseRow.live_eq_false, ofMilli_le_iff] at h
  simp [claimUpdate, LeaseRow.update, claimedRow, rowGeneration, h]

theorem leaseUpdate_claim (h : r.live now = false) :
    leaseUpdate k (claimUpdate r (claimedRow (some r) want fence now ttl) now) =
      .ok (claimedRow (some r) want fence now ttl) := by
  have hcount := claimUpdate_affects want fence ttl h
  unfold claimUpdate LeaseRow.update at hcount ⊢
  split_ifs at hcount ⊢
  rfl

theorem claimWorkLease_eq_ok (h : claimWorkLease k row want fence now ttl = .ok r') :
    (∀ r, row = some r → r.live now = false) ∧ r' = claimedRow row want fence now ttl ∧
      now < ofMilli r'.untilMs := by
  unfold claimWorkLease at h
  split_ifs at h with hlive hmax
  have hfree : ∀ r, row = some r → r.live now = false := by
    rintro r rfl
    simpa [LeaseRow.live] using hlive
  simp only at h
  split_ifs at h with huntil
  have hlt : now < ofMilli (claimedRow row want fence now ttl).untilMs := by
    by_contra hn
    exact huntil (.inr hn)
  cases row with
  | none =>
    cases h
    exact ⟨hfree, rfl, hlt⟩
  | some r =>
    simp only [leaseUpdate_claim (hfree r rfl), Except.ok.injEq] at h
    subst h
    exact ⟨hfree, rfl, hlt⟩

/-- A ttl of a millisecond reaches past the present, rounding included. -/
theorem lt_ofMilli_add (h : milli ≤ ttl) : now < ofMilli (unixMilli (now + ttl)) := by
  have hle : unixMilli (now + milli) ≤ unixMilli (now + ttl) := unixMilli_mono (by omega)
  have hadd : unixMilli (now + milli) = unixMilli now + 1 :=
    Int.add_ediv_of_dvd_right (dvd_refl milli)
  rw [lt_ofMilli_iff]
  omega

/-- **When a claim succeeds.** -/
theorem claimWorkLease_ok_iff (httl : milli ≤ ttl)
    (hvalid : validTime (ofMilli (unixMilli (now + ttl))) = true)
    (hmax : rowGeneration row ≠ Dispatch.maxInt64) :
    (∃ r', claimWorkLease k row want fence now ttl = .ok r') ↔
      ∀ r, row = some r → r.held = false ∨ ofMilli r.untilMs ≤ now := by
  constructor
  · rintro ⟨r', h⟩ r hr
    exact LeaseRow.live_eq_false.mp ((claimWorkLease_eq_ok h).1 r hr)
  · intro h
    have hlt : now < ofMilli (unixMilli (now + ttl)) := lt_ofMilli_add httl
    refine ⟨claimedRow row want fence now ttl, ?_⟩
    unfold claimWorkLease
    cases row with
    | none =>
      rw [if_neg (by simp), if_neg hmax, if_neg (by simp [claimedRow, hvalid, hlt])]
    | some r =>
      have hfree : r.live now = false := LeaseRow.live_eq_false.mpr (h r rfl)
      rw [if_neg (by simpa [LeaseRow.live] using hfree), if_neg hmax,
        if_neg (by simp [claimedRow, hvalid, hlt])]
      exact leaseUpdate_claim hfree

end Operations

/-! ### Sequences of calls -/

inductive Call
  | claim (want : WorkLease) (fence : String) (ttl : ℤ)
  | renew (want : WorkLease) (ttl : ℤ)
  | release (want : WorkLease)
  | check (want : WorkLease)

/-- The row of one kind and key, and every lease a claim has returned. -/
structure Leases where
  row : Option LeaseRow
  issued : List WorkLease

/-- One call at a time; a call that fails changes nothing. -/
def Leases.call (k : WorkKind) (x : Leases) : ℤ × Call → Option Leases
  | (now, .claim want fence ttl) =>
    (claimWorkLease k x.row want fence now ttl).toOption.map fun r =>
      ⟨some r, x.issued ++ [r.toWorkLease]⟩
  | (now, .renew want ttl) =>
    (renewWorkLease k x.row want now ttl).toOption.map fun r => { x with row := some r }
  | (now, .release want) =>
    (releaseWorkLease k x.row want now).toOption.map fun r => { x with row := some r }
  | (now, .check want) => (checkWorkLease k x.row want now).toOption.map fun _ => x

/-- What a successful call does. -/
inductive Leases.Step (x : Leases) (now : ℤ) : Leases → Prop
  | claimed (r : LeaseRow) (free : ∀ old, x.row = some old → old.live now = false)
      (next : r.generation = rowGeneration x.row + 1) :
      Step x now ⟨some r, x.issued ++ [r.toWorkLease]⟩
  | renewed (r : LeaseRow) (untilMs : ℤ) (row : x.row = some r) (live : r.live now = true)
      (longer : r.untilMs ≤ untilMs) : Step x now { x with row := some { r with untilMs } }
  | released (r : LeaseRow) (row : x.row = some r) (live : r.live now = true) :
      Step x now { x with row := some { r with held := false } }
  | checked : Step x now x

theorem toOption_eq_some {α : Type} {e : Except Err α} {a : α} (h : e.toOption = some a) :
    e = .ok a := by
  cases e with
  | error _ => cases h
  | ok b => cases h; rfl

theorem Leases.call_step {k : WorkKind} {x y : Leases} {now : ℤ} {l : Call}
    (h : x.call k (now, l) = some y) : x.Step now y := by
  cases l with
  | claim want fence ttl =>
    obtain ⟨r, hr, rfl⟩ := Option.map_eq_some_iff.mp h
    obtain ⟨hfree, rfl, -⟩ := claimWorkLease_eq_ok (toOption_eq_some hr)
    exact .claimed _ hfree rfl
  | renew want ttl =>
    obtain ⟨r', hr, rfl⟩ := Option.map_eq_some_iff.mp h
    obtain ⟨r, hcheck, hle, heq⟩ := renewWorkLease_eq_ok (toOption_eq_some hr)
    obtain ⟨hrow, hlive, -⟩ := checkWorkLease_eq_ok.mp hcheck
    rw [heq]
    exact .renewed r _ hrow hlive hle
  | release want =>
    obtain ⟨r', hr, rfl⟩ := Option.map_eq_some_iff.mp h
    obtain ⟨r, hcheck, rfl⟩ := releaseWorkLease_eq_ok (toOption_eq_some hr)
    obtain ⟨hrow, hlive, -⟩ := checkWorkLease_eq_ok.mp hcheck
    exact .released r hrow hlive
  | check want =>
    obtain ⟨r, -, rfl⟩ := Option.map_eq_some_iff.mp h
    exact .checked

/-- The leases issued so far have increasing generations, and the row carries the last of them. -/
structure Leases.Sound (x : Leases) : Prop where
  ordered : (x.issued.map (·.generation)).Pairwise (· < ·)
  current : ∀ t ∈ x.issued, ∃ r, x.row = some r ∧
    (t.generation < r.generation ∨ t = r.toWorkLease)

theorem Leases.Sound.le_rowGeneration {x : Leases} (h : x.Sound) {t : WorkLease}
    (ht : t ∈ x.issued) : t.generation ≤ rowGeneration x.row := by
  obtain ⟨r, hr, hlt | rfl⟩ := h.current t ht
  · simpa [rowGeneration, hr] using hlt.le
  · simp [rowGeneration, hr]

theorem Leases.Sound.step {x y : Leases} {now : ℤ} (h : x.Sound) (hs : x.Step now y) :
    y.Sound := by
  cases hs with
  | claimed r _ next =>
    have hlt : ∀ t ∈ x.issued, t.generation < r.generation := by
      intro t ht
      have := h.le_rowGeneration ht
      omega
    refine ⟨?_, ?_⟩
    · rw [List.map_append, List.pairwise_append]
      refine ⟨h.ordered, by simp, ?_⟩
      intro a ha b hb
      obtain ⟨t, ht, rfl⟩ := List.mem_map.mp ha
      obtain rfl : b = r.generation := by simpa using hb
      exact hlt t ht
    · intro t ht
      rcases List.mem_append.mp ht with ht | ht
      · exact ⟨r, rfl, .inl (hlt t ht)⟩
      · exact ⟨r, rfl, .inr (by simpa using ht)⟩
  | renewed r untilMs row | released r row =>
    refine ⟨h.ordered, fun t ht => ?_⟩
    obtain ⟨r', hr', hcur⟩ := h.current t ht
    cases row.symm.trans hr'
    exact ⟨_, rfl, hcur⟩
  | checked => exact h

theorem sound_run (k : WorkKind) (ls : List (ℤ × Call)) :
    (Run.run (Leases.call k) ⟨none, []⟩ ls).Sound :=
  Run.run_invariant (P := Leases.Sound) ⟨List.Pairwise.nil, fun t ht => by cases ht⟩
    (fun _ _ _ h hs => h.step (Leases.call_step hs)) ls

/-- The lease is over: superseded, released or expired by `now`. -/
def Dead (x : Leases) (t : WorkLease) (now : ℤ) : Prop :=
  ∃ r, x.row = some r ∧
    (t.generation < r.generation ∨ (t = r.toWorkLease ∧ r.live now = false))

theorem LeaseRow.live_mono {r : LeaseRow} {now later : ℤ} (h : r.live now = false)
    (hle : now ≤ later) : r.live later = false := by
  rw [LeaseRow.live_eq_false] at h ⊢
  exact h.imp_right hle.trans'

/-- An issued lease that fails its check is over. -/
theorem Leases.Sound.dead {k : WorkKind} {x : Leases} (h : x.Sound) {t : WorkLease} {now : ℤ}
    (ht : t ∈ x.issued) (hfail : ∀ r, checkWorkLease k x.row t now ≠ .ok r) : Dead x t now := by
  obtain ⟨r, hr, hlt | rfl⟩ := h.current t ht
  · exact ⟨r, hr, .inl hlt⟩
  · refine ⟨r, hr, .inr ⟨rfl, ?_⟩⟩
    by_contra hlive
    exact hfail r (checkWorkLease_eq_ok.mpr ⟨hr, by simpa using hlive, rfl⟩)

theorem Dead.check {k : WorkKind} {x : Leases} {t : WorkLease} {now later : ℤ} (h : Dead x t now)
    (hle : now ≤ later) (r : LeaseRow) : checkWorkLease k x.row t later ≠ .ok r := by
  intro hok
  obtain ⟨hrow, hlive, rfl⟩ := checkWorkLease_eq_ok.mp hok
  obtain ⟨r', hr', hdead⟩ := h
  cases hrow.symm.trans hr'
  rcases hdead with hlt | ⟨-, hover⟩
  · exact absurd hlt (lt_irrefl _)
  · rw [LeaseRow.live_mono hover hle] at hlive
    cases hlive

/-- No later call brings a lease back. -/
theorem Dead.step {x y : Leases} {t : WorkLease} {now later : ℤ} (h : Dead x t now)
    (hle : now ≤ later) (hs : x.Step later y) : Dead y t now := by
  obtain ⟨r, hr, hdead⟩ := h
  cases hs with
  | claimed r' _ next =>
    have hgen : rowGeneration x.row = r.generation := by simp [rowGeneration, hr]
    refine ⟨r', rfl, .inl ?_⟩
    rcases hdead with hlt | ⟨rfl, -⟩ <;> omega
  | renewed r' untilMs row live | released r' row live =>
    cases row.symm.trans hr
    rcases hdead with hlt | ⟨-, hover⟩
    · exact ⟨_, rfl, .inl hlt⟩
    · rw [LeaseRow.live_mono hover hle] at live
      cases live
  | checked => exact ⟨r, hr, hdead⟩

theorem Dead.run {k : WorkKind} {x : Leases} {t : WorkLease} {now : ℤ} (h : Dead x t now)
    (ls : List (ℤ × Call)) (hle : ∀ l ∈ ls, now ≤ l.1) :
    Dead (Run.run (Leases.call k) x ls) t now := by
  induction ls generalizing x with
  | nil => exact h
  | cons l ls ih =>
    refine ih ?_ fun l' hl' => hle l' (List.mem_cons_of_mem _ hl')
    cases hs : x.call k l with
    | none => exact h
    | some y => exact h.step (hle l List.mem_cons_self) (Leases.call_step hs)

/-- The lease passes `checkWorkLease`. -/
def Passes (k : WorkKind) (x : Leases) (t : WorkLease) (now : ℤ) : Prop :=
  ∃ r, checkWorkLease k x.row t now = .ok r

theorem Passes.unique {k : WorkKind} {x : Leases} {t u : WorkLease} {now : ℤ}
    (ht : Passes k x t now) (hu : Passes k x u now) : t = u := by
  obtain ⟨r, hr⟩ := ht
  obtain ⟨r', hr'⟩ := hu
  obtain ⟨hrow, -, rfl⟩ := checkWorkLease_eq_ok.mp hr
  obtain ⟨hrow', -, rfl⟩ := checkWorkLease_eq_ok.mp hr'
  cases hrow.symm.trans hrow'
  rfl

/-- **Work leases are fenced.** The store hands times that never decrease to its committed
transactions, whatever the wall clock reads, and so to the calls among them. For calls at such
times, by any owners:

* the generations of the issued leases strictly increase;
* at most one lease passes the check;
* an issued lease that has failed the check never passes again;
* with a ttl of a millisecond, a valid expiry and a generation below the maximum, a claim succeeds
  exactly when the row is absent, released or expired, and its guarded update then affects exactly
  one row;
* a renewal succeeds only for the lease that passes the check, and never shortens the expiry. -/
theorem leases_fenced (k : WorkKind) (floor : ℤ) (txs : List Transaction)
    (before after : List (ℤ × Call)) (now later : ℤ)
    (sorted : (before.map Prod.fst ++ now :: (after.map Prod.fst ++ [later])).Pairwise (· ≤ ·)) :
    let x := Run.run (Leases.call k) ⟨none, []⟩ before
    let y := Run.run (Leases.call k) x after
    (∀ times : List ℤ, times.Sublist (commits floor txs) → times.Pairwise (· ≤ ·)) ∧
    (x.issued.map (·.generation)).Pairwise (· < ·) ∧
    (∀ t u, Passes k x t now → Passes k x u now → t = u) ∧
    (∀ t ∈ x.issued, ¬Passes k x t now → ¬Passes k y t later) ∧
    (∀ want fence ttl, milli ≤ ttl → validTime (ofMilli (unixMilli (now + ttl))) = true →
      rowGeneration x.row ≠ Dispatch.maxInt64 →
      ((∃ r, claimWorkLease k x.row want fence now ttl = .ok r) ↔
        ∀ old, x.row = some old → old.held = false ∨ ofMilli old.untilMs ≤ now) ∧
      ∀ old, x.row = some old → (old.held = false ∨ ofMilli old.untilMs ≤ now) →
        (claimUpdate old (claimedRow x.row want fence now ttl) now).2 = 1) ∧
    (∀ t ttl r, renewWorkLease k x.row t now ttl = .ok r →
      ∃ old, x.row = some old ∧ old.live now = true ∧ old.toWorkLease = t ∧
        r.toWorkLease = t ∧ old.untilMs ≤ r.untilMs) := by
  intro x y
  have hx : x.Sound := sound_run k before
  refine ⟨fun times h => (commits_sorted floor txs).sublist h, hx.ordered,
    fun t u => Passes.unique, ?_, ?_, ?_⟩
  · intro t ht hfail hpass
    have hdead : Dead x t now := hx.dead ht fun r hr => hfail ⟨r, hr⟩
    have hrest := (List.pairwise_cons.mp (List.pairwise_append.mp sorted).2.1).1
    have hafter : ∀ l ∈ after, now ≤ l.1 := fun l hl =>
      hrest l.1 (List.mem_append_left _ (List.mem_map_of_mem hl))
    obtain ⟨r, hr⟩ := hpass
    exact (hdead.run after hafter).check (hrest later (by simp)) r hr
  · intro want fence ttl httl hvalid hmax
    refine ⟨claimWorkLease_ok_iff httl hvalid hmax, fun old hold hover => ?_⟩
    rw [hold]
    exact claimUpdate_affects want fence ttl (LeaseRow.live_eq_false.mpr hover)
  · intro t ttl r hr
    obtain ⟨old, hcheck, hle, heq⟩ := renewWorkLease_eq_ok hr
    obtain ⟨hrow, hlive, rfl⟩ := checkWorkLease_eq_ok.mp hcheck
    exact ⟨old, hrow, hlive, rfl, by rw [heq], hle⟩

def sampleWorker (owner : String) : WorkLease := ⟨owner, "", 0, none, none⟩

/-- A claim that expires, and the claim of a second owner. -/
def sampleHandover : List (ℤ × Call) :=
  [(0, .claim (sampleWorker "first") "f1" (2 * milli)),
   (3 * milli + 1, .claim (sampleWorker "second") "f2" (2 * milli))]

theorem leases_fenced_handover :
    let x := Run.run (Leases.call .dispatch) ⟨none, []⟩ sampleHandover
    ⟨"first", "f1", 1, none, none⟩ ∈ x.issued ∧
      ¬Passes .dispatch x ⟨"first", "f1", 1, none, none⟩ (4 * milli) := by
  have h := leases_fenced .dispatch 0 [] (sampleHandover.take 1) (sampleHandover.drop 1)
    (3 * milli) (4 * milli) (by decide)
  refine ⟨by decide, h.2.2.2.1 _ (by decide) ?_⟩
  rintro ⟨r, hr⟩
  obtain ⟨hrow, hlive, -⟩ := checkWorkLease_eq_ok.mp hr
  cases hrow
  exact absurd hlive (by decide)

end Store
end ComputeRelay
