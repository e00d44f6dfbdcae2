import Mathlib.Tactic
import ComputeRelay.Lib.Greedy
import ComputeRelay.Lib.TextOrder
import ComputeRelay.Store.Generations

/-!
# Evictions by last use

`QueueStorageEvictions` (`storage_eviction.go`) goes once through the idle generations, in the order
of `last_used_at`, and queues the deletion of what the scan shows to be unused until the bytes and
both counts are within their limits. The loop is a greedy selection, and the query sorts the
instants as texts. The key of an eviction names the object and the scan, so an object that was
evicted after a scan and retained cannot be evicted after the same scan again: the insertion fails
and with it the call.
-/

namespace ComputeRelay
namespace Store

open Fallible Scheduler

variable {δ : Type} [DecidableEq δ]

/-! ### The rows of the query -/

/-- A row of the query for candidates. -/
structure EvictionRow (δ : Type) where
  candidate : EvictionCandidate δ
  used : Option ℤ
  deriving DecidableEq

namespace EvictionRow

def object (r : EvictionRow δ) : StorageObject δ := r.candidate.object

/-- The column `last_used_at`; it is empty before the first use. -/
def usedAt (r : EvictionRow δ) : String := r.used.elim "" Rfc3339.formatNano

/-- The instant of the last use, before all others when there was none. -/
def instant (r : EvictionRow δ) : WithBot ℤ := r.used.elim ⊥ fun t => (t : WithBot ℤ)

/-- The text of one instant ends, in its second, where the fraction of the other goes on. -/
def Clips (a b : EvictionRow δ) : Prop :=
  ∃ t ∈ a.used, ∃ u ∈ b.used, Rfc3339.Clips t u

instance (a b : EvictionRow δ) : Decidable (a.Clips b) :=
  inferInstanceAs (Decidable (∃ t ∈ a.used, ∃ u ∈ b.used, Rfc3339.Clips t u))

end EvictionRow

/-- The query `eligible` of `QueueStorageEvictions`, with the column it sorts by. -/
def Usage.eligible (u : Usage δ) (scope : StorageScope) : List (EvictionRow δ) :=
  ((u.storage.caches.filter fun g => g.key.scope = scope && g.idle u.storage).map fun g =>
    ⟨⟨.volume g.volumeName, g.key, g.id, g.operationID⟩, u.lastUsed g.id⟩) ++
  (u.storage.images.filter fun g => g.key.scope = scope && g.idle u.storage).filterMap fun g =>
    g.expectedImageID.map fun i => ⟨⟨.image i, g.key, g.id, g.operationID⟩, u.lastUsed g.id⟩

/-- An answer to the query. Rows of one text are ordered by their object, which is left open
here. -/
structure Usage.Answers (u : Usage δ) (scope : StorageScope) (rows : List (EvictionRow δ)) :
    Prop where
  perm : rows.Perm (u.eligible scope)
  sorted : rows.Pairwise fun a b => a.usedAt ≤ b.usedAt

theorem Usage.eligible_candidates (u : Usage δ) (scope : StorageScope) :
    (u.eligible scope).map (·.candidate) = evictionCandidates u.storage scope := by
  simp [Usage.eligible, evictionCandidates, List.map_filterMap, Function.comp_def]

/-- Every instant in the table is the time of a transaction. -/
def Usage.Dated (u : Usage δ) : Prop := ∀ id, ∀ t ∈ u.lastUsed id, validTime t = true

theorem dated_update {lastUsed : String → Option ℤ} {now : ℤ} {id : String}
    (h : ∀ id, ∀ t ∈ lastUsed id, validTime t = true) (hnow : validTime now = true) :
    ∀ i, ∀ t ∈ Function.update lastUsed id (some now) i, validTime t = true := by
  intro i t ht
  by_cases hi : i = id
  · subst hi
    rw [Function.update_self, Option.mem_some_iff] at ht
    rwa [← ht]
  · rw [Function.update_of_ne hi] at ht
    exact h i t ht

variable {D : Digests δ} {u v : Usage δ} {scope : StorageScope}

theorem Usage.Dated.step {tx : UsageTx δ} (hu : u.Dated) (h : u.step D tx = some v) : v.Dated := by
  obtain ⟨now, w, next, hnow, hw, rfl⟩ := Usage.step_perform h
  cases hq : tx.request with
  | storage q =>
    rw [hq] at hw
    simp only [Usage.perform, bind_eq_ok, pure_eq_ok] at hw
    obtain ⟨s, -, rfl⟩ := hw
    cases q with
    | markImageReady id => exact dated_update hu hnow
    | _ => exact hu
  | recordMount attempt known containerID =>
    rw [hq] at hw
    simp only [Usage.perform, recordMount, bind_eq_ok] at hw
    obtain ⟨g, -, _, -, _, -, hw⟩ := hw
    split at hw
    · simp only [bind_eq_ok, pure_eq_ok] at hw
      obtain ⟨_, -, rfl⟩ := hw
      exact hu
    · obtain rfl := pure_eq_ok.mp hw
      exact dated_update hu hnow
  | touchImage id =>
    rw [hq] at hw
    simp only [Usage.perform, touchImage, bind_eq_ok, pure_eq_ok] at hw
    obtain ⟨_, -, rfl⟩ := hw
    exact dated_update hu hnow

theorem dated_run (D : Digests δ) (txs : List (UsageTx δ)) :
    (Run.run (Usage.step D) {} txs).Dated :=
  Run.run_invariant (fun _ _ h => by cases h) (fun _ _ _ => Usage.Dated.step) txs

/-! ### Texts and instants -/

namespace EvictionRow

variable {a b : EvictionRow δ}

omit [DecidableEq δ] in
theorem Clips.lt (h : a.Clips b) : a.instant < b.instant := by
  obtain ⟨t, ht, u, hu, hclips⟩ := h
  rw [Option.mem_def] at ht hu
  simpa [instant, ht, hu] using hclips.lt

/-- The instant is the time of a transaction. -/
def Dated (r : EvictionRow δ) : Prop := ∀ t ∈ r.used, validTime t = true

omit [DecidableEq δ] in
theorem Dated.year (h : a.Dated) {t : ℤ} (ht : t ∈ a.used) :
    0 ≤ Rfc3339.year t ∧ Rfc3339.year t ≤ 9999 := by
  obtain ⟨hlo, hhi⟩ := (validTime_iff t).mp (h t ht)
  exact Rfc3339.year_mem_of_lt hlo (hhi.trans (by decide))

omit [DecidableEq δ] in
theorem Clips.usedAt_lt (ha : a.Dated) (hb : b.Dated) (h : a.Clips b) : b.usedAt < a.usedAt := by
  obtain ⟨t, ht, u, hu, hclips⟩ := h
  have hlt := (Rfc3339.formatNano_lt_iff (hb.year hu) (ha.year ht)).mpr (.inr hclips)
  rw [Option.mem_def] at ht hu
  simpa [usedAt, ht, hu] using hlt

omit [DecidableEq δ] in
/-- A row whose text comes first was used first, unless its text goes on in the second of the
other. -/
theorem instant_le_or_clips (ha : a.Dated) (hb : b.Dated) (h : a.usedAt ≤ b.usedAt) :
    a.instant ≤ b.instant ∨ b.Clips a := by
  cases hat : a.used with
  | none => exact .inl (by simp [instant, hat])
  | some t =>
    cases hbu : b.used with
    | none =>
      have hlt : b.usedAt < a.usedAt := by
        rw [String.lt_iff]
        simp only [usedAt, hat, hbu, Option.elim, Rfc3339.formatNano_toList]
        have hlen : 0 < (Rfc3339.writeSecond t ++ Rfc3339.tail (Rfc3339.digits t)).length := by
          rw [List.length_append, Rfc3339.length_writeSecond]
          omega
        cases hl : Rfc3339.writeSecond t ++ Rfc3339.tail (Rfc3339.digits t) with
        | nil => simp [hl] at hlen
        | cons c cs => exact List.nil_lt_cons c cs
      exact absurd hlt h
    | some u =>
      have hle : ¬ Rfc3339.formatNano u < Rfc3339.formatNano t := by
        rw [usedAt, usedAt, hat, hbu] at h
        exact h
      rw [Rfc3339.formatNano_lt_iff (hb.year hbu) (ha.year hat)] at hle
      push Not at hle
      by_cases hut : u < t
      · exact .inr ⟨u, hbu, t, hat, hle.1 hut⟩
      · left
        simpa [instant, hat, hbu] using hut

omit [DecidableEq δ] in
theorem instant_eq (ha : a.Dated) (hb : b.Dated) (h : a.usedAt = b.usedAt) :
    a.instant = b.instant := by
  have hle {a b : EvictionRow δ} (ha : a.Dated) (hb : b.Dated) (h : a.usedAt = b.usedAt) :
      a.instant ≤ b.instant := by
    rcases instant_le_or_clips ha hb (h ▸ String.le_refl _) with hle | hclips
    · exact hle
    · exact absurd (h ▸ hclips.usedAt_lt hb ha) (String.lt_irrefl _)
  exact le_antisymm (hle ha hb h) (hle hb ha h.symm)

end EvictionRow

theorem Usage.Answers.dated {rows : List (EvictionRow δ)} (h : u.Answers scope rows) (hu : u.Dated)
    {r : EvictionRow δ} (hr : r ∈ rows) : r.Dated := by
  have hmem := h.perm.mem_iff.mp hr
  simp only [Usage.eligible, List.mem_append, List.mem_map, List.mem_filterMap,
    Option.map_eq_some_iff] at hmem
  rcases hmem with ⟨g, -, rfl⟩ | ⟨g, -, i, -, rfl⟩
  · exact hu g.id
  · exact hu g.id

/-! ### The selection -/

/-- The class of the object is above one of its limits. -/
def Excess.needs (e : Excess) (o : StorageObject δ) : Bool := (e.reason o).isSome

namespace EvictionInput

/-- What the deletion of an object frees. -/
def charge (i : EvictionInput δ) (o : StorageObject δ) : ℤ :=
  ((i.objects.find? fun b => b.object = o).map (·.charged)).getD 0

/-- The scan shows the object of the row with a size, without references and under its labels. -/
def fit (i : EvictionInput δ) (scope : StorageScope) (r : EvictionRow δ) : Bool :=
  (i.objects.find? fun b => b.object = r.object).any fun b =>
    b.sizeKnown && b.references = 0 && 0 ≤ r.candidate.key.bytes && b.labelled scope r.candidate

/-- No cleanup of the object is open, unknown, or later than the scan. -/
def free (i : EvictionInput δ) (scope : StorageScope) (ops : List (StorageOperation δ))
    (o : StorageObject δ) : Bool :=
  !ops.any fun p => p.scope = scope && p.object = o && p.blocks i.scanSeq

/-- The row could be evicted, if its class needed it. -/
def evictable (i : EvictionInput δ) (scope : StorageScope) (ops : List (StorageOperation δ))
    (r : EvictionRow δ) : Bool := i.fit scope r && i.free scope ops r.object

/-- No operation of the workspace has the key of an eviction of the object after this scan. -/
def unspent (i : EvictionInput δ) (scope : StorageScope) (ops : List (StorageOperation δ))
    (o : StorageObject δ) : Bool :=
  ops.all fun p => !(p.workspaceID = i.workspaceID && p.key = .eviction scope o i.scanSeq)

/-- The excess that is left after some evictions. -/
def left (i : EvictionInput δ) (e : Excess) (before : List (EvictionRow δ)) : Excess :=
  before.foldl (fun e r => e.less (i.charge r.object) r.object) e

/-- The row is to be evicted after those before it. -/
def allows (i : EvictionInput δ) (scope : StorageScope) (ops : List (StorageOperation δ))
    (e : Excess) (before : List (EvictionRow δ)) (r : EvictionRow δ) : Bool :=
  (i.left e before).needs r.object && i.evictable scope ops r &&
    !before.any fun b => b.object = r.object

/-- The rows that are evicted, in order. -/
def evicted (i : EvictionInput δ) (scope : StorageScope) (ops : List (StorageOperation δ))
    (e : Excess) : List (EvictionRow δ) → List (EvictionRow δ) → List (EvictionRow δ) :=
  Greedy.pick (fun before => (i.left e before).cleared) (i.allows scope ops e)

end EvictionInput

/-- The operation deletes the object of the row. -/
structure StorageOperation.Queues (i : EvictionInput δ) (scope : StorageScope) (r : EvictionRow δ)
    (o : StorageOperation δ) : Prop where
  id : o.id = i.operationID r.object
  workspaceID : o.workspaceID = i.workspaceID
  key : o.key = .eviction scope r.object i.scanSeq
  scope : o.scope = scope
  object : o.object = r.object
  action : o.action = evictionAction r.object
  status : o.status = .accepted
  result : o.result = .pending

/-- The operation that the loop inserts. -/
def EvictionInput.operation (i : EvictionInput δ) (scope : StorageScope) (e : Excess)
    (r : EvictionRow δ) : StorageOperation δ :=
  { id := i.operationID r.object
    workspaceID := i.workspaceID
    key := .eviction scope r.object i.scanSeq
    scope
    action := evictionAction r.object
    object := r.object
    reason := (e.reason r.object).getD "" }

omit [DecidableEq δ] in
theorem queues_operation (i : EvictionInput δ) (scope : StorageScope) (e : Excess)
    (r : EvictionRow δ) : StorageOperation.Queues i scope r (i.operation scope e r) :=
  ⟨rfl, rfl, rfl, rfl, rfl, rfl, rfl, rfl⟩

variable {i : EvictionInput δ} {ops new : List (StorageOperation δ)} {e : Excess}
  {before rows : List (EvictionRow δ)} {r : EvictionRow δ}

/-- A queued object is blocked like one of an earlier operation. -/
theorem free_append (h : List.Forall₂ (StorageOperation.Queues i scope) before new)
    (o : StorageObject δ) : i.free scope (ops ++ new) o =
      (i.free scope ops o && !before.any fun b => b.object = o) := by
  have hnew : (new.any fun p => p.scope = scope && p.object = o && p.blocks i.scanSeq) =
      before.any fun b => b.object = o := by
    induction h with
    | nil => rfl
    | cons hq _ ih =>
      rw [List.any_cons, List.any_cons, ih]
      simp [hq.scope, hq.object, StorageOperation.blocks, StorageOperation.isOpen, hq.status]
  rw [EvictionInput.free, List.any_append, hnew, Bool.not_or, EvictionInput.free]

theorem evictionTarget_eq_ite (ops : List (StorageOperation δ)) (e : Excess) (r : EvictionRow δ) :
    evictionTarget scope i ops e r.candidate =
      if e.needs r.object && i.fit scope r && i.free scope ops r.object then
        some ((e.reason r.object).getD "", i.charge r.object)
      else none := by
  change Option.bind (e.reason r.object) (fun reason => Option.bind
    (i.objects.find? fun b => b.object = r.object) fun object => _) = _
  unfold Excess.needs EvictionInput.fit EvictionInput.charge EvictionInput.free
  cases e.reason r.object with
  | none => rfl
  | some reason =>
    cases i.objects.find? fun b => b.object = r.object with
    | none => rfl
    | some b =>
      simp only [Option.bind_some, Option.isSome_some, Option.any_some, Option.map_some,
        Option.getD_some, Bool.true_and]
      have hskip :
          (!b.sizeKnown || decide (b.references ≠ 0) || decide (r.candidate.key.bytes < 0) ||
          !b.labelled scope r.candidate) =
          !(b.sizeKnown && decide (b.references = 0) && decide (0 ≤ r.candidate.key.bytes) &&
            b.labelled scope r.candidate) := by
        simp only [ne_eq, decide_not, Bool.not_and, ← Int.not_le]
      rw [hskip]
      cases b.sizeKnown && decide (b.references = 0) && decide (0 ≤ r.candidate.key.bytes) &&
          b.labelled scope r.candidate with
      | false => rfl
      | true =>
        change (if (ops.any fun p => p.scope = scope && p.object = r.object &&
          p.blocks i.scanSeq) = true then none else some (reason, b.charged)) = _
        cases ops.any fun p => p.scope = scope && p.object = r.object && p.blocks i.scanSeq <;> rfl

theorem evictionTarget_eq (h : List.Forall₂ (StorageOperation.Queues i scope) before new) :
    evictionTarget scope i (ops ++ new) (i.left e before) r.candidate =
      if i.allows scope ops e before r then
        some (((i.left e before).reason r.object).getD "", i.charge r.object)
      else none := by
  rw [evictionTarget_eq_ite, free_append h, EvictionInput.allows, EvictionInput.evictable,
    ← Bool.and_assoc, ← Bool.and_assoc]

theorem less_left (i : EvictionInput δ) (e : Excess) (before : List (EvictionRow δ))
    (r : EvictionRow δ) :
    (i.left e before).less (i.charge r.object) r.object = i.left e (before ++ [r]) := by
  simp [EvictionInput.left]

/-- One turn of the loop. -/
theorem queueEvictions_cons (h : List.Forall₂ (StorageOperation.Queues i scope) before new) :
    queueEvictions scope i (ops ++ new) (i.left e before) ((r :: rows).map (·.candidate)) =
      if (i.left e before).cleared then pure (ops ++ new)
      else if i.allows scope ops e before r then do
        let next ← insertStorageOperation (ops ++ new) (i.operation scope (i.left e before) r)
        queueEvictions scope i next (i.left e (before ++ [r])) (rows.map (·.candidate))
      else queueEvictions scope i (ops ++ new) (i.left e before) (rows.map (·.candidate)) := by
  rw [List.map_cons, queueEvictions, evictionTarget_eq h, ← less_left]
  split_ifs <;> rfl

/-- A queued eviction spends the key of its object only. -/
theorem unspent_append (h : List.Forall₂ (StorageOperation.Queues i scope) before new)
    (o : StorageObject δ) : i.unspent scope (ops ++ new) o =
      (i.unspent scope ops o && !before.any fun b => b.object = o) := by
  have hnew : i.unspent scope new o = !before.any fun b => b.object = o := by
    induction h with
    | nil => rfl
    | cons hq _ ih =>
      simp only [EvictionInput.unspent] at ih ⊢
      rw [List.all_cons, List.any_cons, Bool.not_or, ih]
      simp [hq.workspaceID, hq.key]
  rw [← hnew]
  simp only [EvictionInput.unspent, List.all_append]

/-- The loop queues the deletion of the rows that are evicted, none of which was evicted after this
scan before. -/
theorem queueEvictions_evicted {ops' : List (StorageOperation δ)}
    (hnew : List.Forall₂ (StorageOperation.Queues i scope) before new)
    (h : queueEvictions scope i (ops ++ new) (i.left e before)
      (rows.map (·.candidate)) = .ok ops') :
    (∃ queued, ops' = ops ++ new ++ queued ∧
      List.Forall₂ (StorageOperation.Queues i scope) (i.evicted scope ops e before rows) queued) ∧
      ∀ r ∈ i.evicted scope ops e before rows, i.unspent scope ops r.object = true := by
  induction rows generalizing before new with
  | nil =>
    rw [List.map_nil, queueEvictions, pure_eq_ok] at h
    exact ⟨⟨[], by rw [List.append_nil, h], .nil⟩, by simp [EvictionInput.evicted, Greedy.pick]⟩
  | cons r rows ih =>
    rw [queueEvictions_cons hnew] at h
    unfold EvictionInput.evicted Greedy.pick
    split_ifs at h ⊢ with hcleared hallows
    · exact ⟨⟨[], by rw [List.append_nil, pure_eq_ok.mp h], .nil⟩, by simp⟩
    · obtain ⟨next, hinsert, h⟩ := bind_eq_ok.mp h
      simp only [insertStorageOperation, bind_eq_ok, pure_eq_ok, require_eq_ok] at hinsert
      obtain ⟨_, -, _, hkey, _, -, rfl⟩ := hinsert
      have hq := queues_operation i scope (i.left e before) r
      have hunspent : i.unspent scope (ops ++ new) r.object = true := hkey
      rw [unspent_append hnew, Bool.and_eq_true] at hunspent
      rw [List.append_assoc] at h
      obtain ⟨⟨queued, hops, hqueued⟩, hrows⟩ := ih (List.rel_append hnew (.cons hq .nil)) h
      exact ⟨⟨_ :: queued, by rw [hops]; simp, .cons hq hqueued⟩,
        List.forall_mem_cons.mpr ⟨hunspent.1, hrows⟩⟩
    · exact ih hnew h

/-- An insertion of the loop succeeds when the three unique columns are free. -/
theorem insertStorageOperation_isOk (hid : ∀ p ∈ ops, p.id ≠ i.operationID r.object)
    (hkey : i.unspent scope ops r.object = true) (hfree : i.free scope ops r.object = true) :
    insertStorageOperation ops (i.operation scope e r) = .ok (ops ++ [i.operation scope e r]) := by
  unfold insertStorageOperation
  refine bind_eq_ok.mpr ⟨(), require_eq_ok.mpr (List.all_eq_true.mpr fun p hp => ?_),
    bind_eq_ok.mpr ⟨(), require_eq_ok.mpr hkey,
      bind_eq_ok.mpr ⟨(), require_eq_ok.mpr (List.all_eq_true.mpr fun p hp => ?_), rfl⟩⟩⟩
  · exact decide_eq_true (hid p hp)
  · have hblocks : p.scope = scope → p.object = r.object → p.blocks i.scanSeq = false := by
      have hall : ∀ p ∈ ops, p.scope = scope → p.object = r.object →
          p.blocks i.scanSeq = false := by
        simpa [EvictionInput.free] using hfree
      exact hall p hp
    by_contra hopen
    simp only [EvictionInput.operation, Bool.not_eq_true', Bool.not_eq_false,
      Bool.and_eq_true] at hopen
    obtain ⟨⟨hscope, hobject⟩, hstatus⟩ := hopen
    simp [StorageOperation.blocks, StorageOperation.isOpen, hstatus] at hblocks
    exact hblocks (of_decide_eq_true hscope) (of_decide_eq_true hobject)

/-- The identities of the new operations differ from each other and from those of the table. -/
structure EvictionInput.NewIDs (i : EvictionInput δ) (ops : List (StorageOperation δ))
    (rows : List (EvictionRow δ)) : Prop where
  apart : ∀ a ∈ rows, ∀ b ∈ rows, i.operationID a.object = i.operationID b.object →
    a.object = b.object
  fresh : ∀ o ∈ ops, ∀ r ∈ rows, o.id ≠ i.operationID r.object

omit [DecidableEq δ] in
theorem EvictionInput.NewIDs.subset {rows' : List (EvictionRow δ)} (h : i.NewIDs ops rows)
    (hsub : ∀ a ∈ rows', a ∈ rows) : i.NewIDs ops rows' :=
  ⟨fun a ha b hb => h.apart a (hsub a ha) b (hsub b hb), fun o ho a ha =>
    h.fresh o ho a (hsub a ha)⟩

/-- With new identities every insertion of the loop succeeds, unless a key is spent. -/
theorem queueEvictions_isOk (hnew : List.Forall₂ (StorageOperation.Queues i scope) before new)
    (hids : i.NewIDs ops (before ++ rows))
    (hkeys : ∀ r ∈ rows, i.evictable scope ops r = true → i.unspent scope ops r.object = true) :
    ∃ ops', queueEvictions scope i (ops ++ new) (i.left e before) (rows.map (·.candidate)) =
      .ok ops' := by
  induction rows generalizing before new with
  | nil => exact ⟨_, rfl⟩
  | cons r rows ih =>
    have hr : r ∈ before ++ r :: rows := by simp
    have hlater : ∀ r ∈ rows, i.evictable scope ops r = true →
        i.unspent scope ops r.object = true :=
      fun r hr => hkeys r (List.mem_cons_of_mem _ hr)
    rw [queueEvictions_cons hnew]
    split_ifs with hcleared hallows
    · exact ⟨_, rfl⟩
    · simp only [EvictionInput.allows, Bool.and_eq_true, Bool.not_eq_true', List.any_eq_false,
        decide_eq_true_eq] at hallows
      obtain ⟨⟨-, hevictable⟩, hbefore⟩ := hallows
      have hkey : i.unspent scope (ops ++ new) r.object = true := by
        rw [unspent_append hnew, hkeys r List.mem_cons_self hevictable]
        simpa using hbefore
      have hfree : i.free scope (ops ++ new) r.object = true := by
        rw [EvictionInput.evictable, Bool.and_eq_true] at hevictable
        rw [free_append hnew, hevictable.2]
        simpa using hbefore
      have hid : ∀ p ∈ ops ++ new, p.id ≠ i.operationID r.object := by
        intro p hp
        rcases List.mem_append.mp hp with hp | hp
        · exact hids.fresh p hp r hr
        · obtain ⟨b, hb, hq⟩ := Rows.exists_old hnew hp
          rw [hq.id]
          exact fun hid => hbefore b hb (hids.apart b (by simp [hb]) r hr hid)
      rw [insertStorageOperation_isOk hid hkey hfree, List.append_assoc]
      rw [List.append_cons] at hids
      exact ih (List.rel_append hnew (.cons (queues_operation i scope _ r) .nil)) hids hlater
    · refine ih hnew (hids.subset fun a ha => ?_) hlater
      rcases List.mem_append.mp ha with ha | ha <;> simp [ha]

theorem exists_operationID (ops : List (StorageOperation δ)) (objects : List (StorageObject δ)) :
    ∃ f : StorageObject δ → String, (∀ a ∈ objects, ∀ b ∈ objects, f a = f b → a = b) ∧
      ∀ o ∈ ops, ∀ a, o.id ≠ f a := by
  -- longer than every identity in the table
  let long := (ops.map fun o => o.id.length).sum + 1
  refine ⟨fun a => String.ofList (List.replicate (long + objects.idxOf a) 'a'),
    fun a ha b hb h => ?_, fun o ho a h => ?_⟩
  · have hlen := congrArg String.length h
    simp only [String.length_ofList, List.length_replicate, Nat.add_left_cancel_iff] at hlen
    exact (List.idxOf_inj ha).mp hlen
  · have hlen := congrArg String.length h
    have hle : o.id.length ≤ (ops.map fun o => o.id.length).sum :=
      List.single_le_sum (by simp) _ (List.mem_map.mpr ⟨o, ho, rfl⟩)
    simp only [String.length_ofList, List.length_replicate] at hlen
    omega

/-! ### The order of evictions -/

/-- No limit is further away. -/
structure Excess.Within (e f : Excess) : Prop where
  remaining : e.remaining ≤ f.remaining
  volumes : e.volumes ≤ f.volumes
  images : e.images ≤ f.images

theorem Excess.Within.trans {e f g : Excess} (hef : e.Within f) (hfg : f.Within g) : e.Within g :=
  ⟨hef.remaining.trans hfg.remaining, hef.volumes.trans hfg.volumes, hef.images.trans hfg.images⟩

omit [DecidableEq δ] in
theorem Excess.needs_iff (e : Excess) (o : StorageObject δ) :
    e.needs o = true ↔ 0 < e.remaining ∨ match o with
      | .volume _ => 0 < e.volumes
      | .image _ => 0 < e.images
      | .container _ => False := by
  unfold Excess.needs Excess.reason
  cases o <;> split_ifs <;> simp_all

omit [DecidableEq δ] in
theorem Excess.Within.needs {e f : Excess} (h : e.Within f) {o : StorageObject δ}
    (ho : e.needs o = true) : f.needs o = true := by
  rw [Excess.needs_iff] at ho ⊢
  rcases ho with ho | ho
  · exact .inl (ho.trans_le h.remaining)
  · refine .inr ?_
    cases o with
    | volume name => exact ho.trans_le h.volumes
    | image image => exact ho.trans_le h.images
    | container id => exact ho

omit [DecidableEq δ] in
theorem Excess.less_within (e : Excess) {charged : ℤ} (h : 0 ≤ charged) (o : StorageObject δ) :
    (e.less charged o).Within e := by
  cases o <;> constructor <;> simp only [Excess.less] <;> omega

/-- The sizes of a scan are not negative. -/
def EvictionInput.Sized (i : EvictionInput δ) : Prop := ∀ b ∈ i.objects, 0 ≤ b.charged

theorem EvictionInput.Sized.charge (hi : i.Sized) (o : StorageObject δ) : 0 ≤ i.charge o := by
  unfold EvictionInput.charge
  cases h : i.objects.find? fun b => b.object = o with
  | none => exact le_refl 0
  | some b => exact hi b (List.mem_of_find?_eq_some h)

theorem EvictionInput.Sized.left (hi : i.Sized) (e : Excess) (before after : List (EvictionRow δ)) :
    (i.left e (before ++ after)).Within (i.left e before) := by
  induction after using List.reverseRecOn with
  | nil => simpa using ⟨le_refl _, le_refl _, le_refl _⟩
  | append_singleton after r ih =>
    rw [← List.append_assoc, ← less_left]
    exact (Excess.less_within _ (hi.charge _) _).trans ih

theorem allows_iff {before : List (EvictionRow δ)} {r : EvictionRow δ} :
    i.allows scope ops e before r = true ↔
      (i.left e before).needs r.object = true ∧ i.evictable scope ops r = true ∧
        ∀ b ∈ before, b.object ≠ r.object := by
  simp [EvictionInput.allows, and_assoc]

theorem EvictionInput.Sized.allows (hi : i.Sized) (before after : List (EvictionRow δ))
    (r : EvictionRow δ) (h : i.allows scope ops e (before ++ after) r = true) :
    i.allows scope ops e before r = true := by
  rw [allows_iff] at h ⊢
  exact ⟨(hi.left e before after).needs h.1, h.2.1,
    fun b hb => h.2.2 b (List.mem_append_left _ hb)⟩

theorem not_allows_self (before : List (EvictionRow δ)) (r : EvictionRow δ) :
    i.allows scope ops e (before ++ [r]) r = false := by
  simp [EvictionInput.allows]

/-- No candidate is hidden by the text of another, unless an earlier row evicts one of the two
objects. -/
def EvictionInput.Ordered (i : EvictionInput δ) (scope : StorageScope)
    (ops : List (StorageOperation δ)) (rows : List (EvictionRow δ)) : Prop :=
  ∀ a ∈ rows, ∀ b ∈ rows, i.evictable scope ops a = true → i.evictable scope ops b = true →
    a.Clips b → ∃ r ∈ rows, i.evictable scope ops r = true ∧
      (r.object = a.object ∨ r.object = b.object) ∧ r.usedAt < b.usedAt

instance (i : EvictionInput δ) (scope : StorageScope) (ops : List (StorageOperation δ))
    (rows : List (EvictionRow δ)) : Decidable (i.Ordered scope ops rows) := by
  unfold EvictionInput.Ordered
  infer_instance

/-- Nothing that could be evicted was evicted after this scan before. -/
def EvictionInput.Unspent (i : EvictionInput δ) (scope : StorageScope)
    (ops : List (StorageOperation δ)) (rows : List (EvictionRow δ)) : Prop :=
  ∀ r ∈ rows, i.evictable scope ops r = true → i.unspent scope ops r.object = true

instance (i : EvictionInput δ) (scope : StorageScope) (ops : List (StorageOperation δ))
    (rows : List (EvictionRow δ)) : Decidable (i.Unspent scope ops rows) := by
  unfold EvictionInput.Unspent
  infer_instance

/-- Evictions by last use: what is evicted, in order, as the first of what is still needed, and no
more. -/
structure LeastRecent (i : EvictionInput δ) (scope : StorageScope) (ops : List (StorageOperation δ))
    (e : Excess) (rows taken : List (EvictionRow δ)) : Prop where
  evictable : ∀ r ∈ taken, r ∈ rows ∧ i.fit scope r = true ∧ i.free scope ops r.object = true
  once : (taken.map (·.object)).Nodup
  ascending : taken.Pairwise fun a b => a.instant ≤ b.instant
  oldest : ∀ pre b post, taken = pre ++ b :: post → ∀ a ∈ rows, i.evictable scope ops a = true →
    (∀ r ∈ pre, r.object ≠ a.object) → (i.left e pre).needs a.object = true → b.instant ≤ a.instant
  stops : ∀ pre b post, taken = pre ++ b :: post →
    (i.left e pre).cleared = false ∧ (i.left e pre).needs b.object = true

variable {pre post : List (EvictionRow δ)} {a b : EvictionRow δ}

/-- The texts of the evictions are ordered, whatever the instants are. -/
theorem usedAt_le (hi : i.Sized) (hsorted : rows.Pairwise fun a b => a.usedAt ≤ b.usedAt)
    (h : i.evicted scope ops e [] rows = pre ++ b :: post) (ha : a ∈ rows)
    (hallows : i.allows scope ops e pre a = true) : b.usedAt ≤ a.usedAt :=
  Greedy.rel_of_split hi.allows not_allows_self (fun _ => String.le_refl _) hsorted h ha
    (by simpa using hallows)

/-- Under the condition an eviction is the oldest of what is still needed. -/
theorem EvictionInput.Ordered.oldest (hordered : i.Ordered scope ops rows) (hi : i.Sized)
    (hsorted : rows.Pairwise fun a b => a.usedAt ≤ b.usedAt) (hdated : ∀ r ∈ rows, r.Dated)
    (h : i.evicted scope ops e [] rows = pre ++ b :: post) (ha : a ∈ rows)
    (hallows : i.allows scope ops e pre a = true) : b.instant ≤ a.instant := by
  have hsub : (i.evicted scope ops e [] rows).Sublist rows := Greedy.pick_sublist [] rows
  have hb : b ∈ rows := hsub.subset (by simp [h])
  have hallowsb : i.allows scope ops e pre b = true := (Greedy.of_split h).2
  rcases EvictionRow.instant_le_or_clips (hdated b hb) (hdated a ha)
    (usedAt_le hi hsorted h ha hallows) with hle | hclips
  · exact hle
  · -- the row that the condition gives would have been evicted in place of `b`
    rw [allows_iff] at hallows hallowsb
    obtain ⟨r, hr, hevictable, hobject, hlt⟩ := hordered a ha b hb hallows.2.1 hallowsb.2.1 hclips
    have hallowsr : i.allows scope ops e pre r = true := by
      rw [allows_iff]
      rcases hobject with hobject | hobject
      · exact hobject ▸ ⟨hallows.1, hevictable, hallows.2.2⟩
      · exact hobject ▸ ⟨hallowsb.1, hevictable, hallowsb.2.2⟩
    exact absurd hlt (usedAt_le hi hsorted h hr hallowsr)

theorem EvictionInput.Ordered.leastRecent (hordered : i.Ordered scope ops rows) (hi : i.Sized)
    (hsorted : rows.Pairwise fun a b => a.usedAt ≤ b.usedAt) (hdated : ∀ r ∈ rows, r.Dated)
    (e : Excess) : LeastRecent i scope ops e rows (i.evicted scope ops e [] rows) where
  evictable r hr := by
    obtain ⟨pre, post, h⟩ := List.append_of_mem hr
    have hallows : i.allows scope ops e pre r = true := (Greedy.of_split h).2
    have hevictable := (allows_iff.mp hallows).2.1
    rw [EvictionInput.evictable, Bool.and_eq_true] at hevictable
    have hsub : (i.evicted scope ops e [] rows).Sublist rows := Greedy.pick_sublist [] rows
    exact ⟨hsub.subset hr, hevictable⟩
  once := by
    rw [List.Nodup, List.pairwise_map]
    refine Greedy.pairwise_of_append fun pre b post h c hc => ?_
    obtain ⟨mid, rest, rfl⟩ := List.append_of_mem hc
    rw [← List.cons_append, ← List.append_assoc] at h
    have hallows : i.allows scope ops e (pre ++ b :: mid) c = true := (Greedy.of_split h).2
    exact (allows_iff.mp hallows).2.2 b (by simp)
  ascending := Greedy.pairwise_of_split hi.allows fun _ _ _ h _ ha hallows =>
    hordered.oldest hi hsorted hdated h ha hallows
  oldest pre b post h a ha hevictable hpre hneeds :=
    hordered.oldest hi hsorted hdated h ha (allows_iff.mpr ⟨hneeds, hevictable, hpre⟩)
  stops pre b post h := by
    obtain ⟨hcleared, hallows⟩ := Greedy.of_split h
    exact ⟨hcleared, (allows_iff.mp hallows).1⟩

/-- Where everything has to go, the object of every row that can be evicted goes. -/
theorem exists_evicted (hall : ∀ l : List (EvictionRow δ), l.Sublist rows →
      0 < (i.left e l).remaining)
    (hb : b ∈ rows) (heb : i.evictable scope ops b = true) :
    ∃ x ∈ i.evicted scope ops e [] rows, x.object = b.object := by
  have hsub : (i.evicted scope ops e [] rows).Sublist rows := Greedy.pick_sublist [] rows
  have hturn : ∃ pre post, i.evicted scope ops e [] rows = pre ++ post ∧
      (i.allows scope ops e ([] ++ pre) b = false ∨ post.head? = some b) :=
    Greedy.exists_of_mem (fun l hl => by simp [Excess.cleared, hall l hl]) hb
  obtain ⟨pre, post, hsplit, hend⟩ := hturn
  rcases hend with hend | hend
  · have hpre : ∃ c ∈ pre, c.object = b.object := by
      by_contra hnone
      push Not at hnone
      have hlist : pre.Sublist rows := (List.sublist_append_left pre post).trans (hsplit ▸ hsub)
      have hneeds := (Excess.needs_iff _ b.object).mpr (.inl (hall pre hlist))
      rw [List.nil_append, allows_iff.mpr ⟨hneeds, heb, hnone⟩] at hend
      cases hend
    obtain ⟨c, hc, hobject⟩ := hpre
    exact ⟨c, by simp [hsplit, hc], hobject⟩
  · exact ⟨b, by rw [hsplit]; exact List.mem_append_right _ (List.mem_of_mem_head? hend), rfl⟩

/-- Where everything has to go, the order of the evictions shows the condition. -/
theorem LeastRecent.ordered (h : LeastRecent i scope ops e rows (i.evicted scope ops e [] rows))
    (hi : i.Sized) (hsorted : rows.Pairwise fun a b => a.usedAt ≤ b.usedAt)
    (hdated : ∀ r ∈ rows, r.Dated)
    (hall : ∀ l : List (EvictionRow δ), l.Sublist rows → 0 < (i.left e l).remaining) :
    i.Ordered scope ops rows := by
  intro a ha b hb hea heb hclips
  by_contra hno
  push Not at hno
  have hsub : (i.evicted scope ops e [] rows).Sublist rows := Greedy.pick_sublist [] rows
  have hneeds {l : List (EvictionRow δ)} (hl : l.Sublist rows) (o : StorageObject δ) :
      (i.left e l).needs o = true := (Excess.needs_iff _ o).mpr (.inl (hall l hl))
  -- the first eviction of one of the two objects
  obtain ⟨x, hx, hxb⟩ := exists_evicted hall hb heb
  cases hfind : (i.evicted scope ops e [] rows).find? fun x =>
      x.object = a.object || x.object = b.object with
  | none =>
    have := List.find?_eq_none.mp hfind x hx
    simp [hxb] at this
  | some v =>
    obtain ⟨hv, pre, post, hsplit, hpre⟩ := List.find?_eq_some_iff_append.mp hfind
    simp only [Bool.or_eq_true, decide_eq_true_eq] at hv
    simp only [Bool.not_eq_true', Bool.or_eq_false_iff, decide_eq_false_iff_not] at hpre
    have hlist : pre.Sublist rows := (List.sublist_append_left pre _).trans (hsplit ▸ hsub)
    have hmem : v ∈ i.evicted scope ops e [] rows := by simp [hsplit]
    have hvevictable : i.evictable scope ops v = true := by
      obtain ⟨-, hfit, hfree⟩ := h.evictable v hmem
      rw [EvictionInput.evictable, hfit, hfree, Bool.and_self]
    have hle : v.usedAt ≤ b.usedAt := usedAt_le hi hsorted hsplit hb
      (allows_iff.mpr ⟨hneeds hlist _, heb, fun r hr => (hpre r hr).2⟩)
    have hge : b.usedAt ≤ v.usedAt := hno v (hsub.subset hmem) hvevictable hv
    have heq := EvictionRow.instant_eq (hdated v (hsub.subset hmem)) (hdated b hb)
      (String.le_antisymm hle hge)
    have holder := h.oldest pre v post hsplit a ha hea (fun r hr => (hpre r hr).1)
      (hneeds hlist _)
    rw [heq] at holder
    exact absurd hclips.lt (not_lt.mpr holder)

/-! ### The whole call -/

/-- The scan under some budget, with the rows of the query and the identities of new operations. -/
def EvictionInput.under (i : EvictionInput δ) (rows : List (EvictionRow δ))
    (chargedBytes softBytes : ℤ) (operationID : StorageObject δ → String) : EvictionInput δ :=
  { i with order := rows.map (·.candidate), chargedBytes, softBytes, operationID }

/-- The call queues the deletion of generations by their last use, as far as needed. -/
structure Storage.Evicts (s t : Storage δ) (scope : StorageScope) (i : EvictionInput δ)
    (rows : List (EvictionRow δ)) : Prop where
  queued : ∃ queued, t = { s with operations := s.operations ++ queued } ∧
    List.Forall₂ (StorageOperation.Queues i scope)
      (i.evicted scope s.operations (evictionExcess scope i s.operations) [] rows) queued
  selected : LeastRecent i scope s.operations (evictionExcess scope i s.operations) rows
    (i.evicted scope s.operations (evictionExcess scope i s.operations) [] rows)

theorem evicted_of_cleared (h : e.cleared = true) (rows : List (EvictionRow δ)) :
    i.evicted scope ops e [] rows = [] := by
  cases rows with
  | nil => rfl
  | cons r rows => exact if_pos h

theorem queueStorageEvictions_eq_ok {s t : Storage δ} {i : EvictionInput δ}
    (horder : i.order = rows.map (·.candidate))
    (hcleared : (evictionExcess scope i s.operations).cleared = false) :
    queueStorageEvictions s scope i = .ok t ↔
      (rows.map (·.candidate)).Perm (evictionCandidates s scope) ∧ rows.length ≤ 2048 ∧
        ∃ ops', queueEvictions scope i (s.operations ++ [])
          (i.left (evictionExcess scope i s.operations) []) (rows.map (·.candidate)) = .ok ops' ∧
          t = { s with operations := ops' } := by
  simp only [queueStorageEvictions, hcleared, Bool.false_eq_true, if_false, horder, bind_eq_ok,
    require_eq_ok, pure_eq_ok, List.isPerm_iff, decide_eq_true_eq, List.length_map,
    List.append_nil, EvictionInput.left, List.foldl_nil, exists_and_left, exists_const]
  simp only [eq_comm]

theorem queueStorageEvictions_queued {s t : Storage δ} {i : EvictionInput δ}
    (horder : i.order = rows.map (·.candidate)) (h : queueStorageEvictions s scope i = .ok t) :
    ∃ queued, t = { s with operations := s.operations ++ queued } ∧
      List.Forall₂ (StorageOperation.Queues i scope)
        (i.evicted scope s.operations (evictionExcess scope i s.operations) [] rows) queued := by
  cases hcleared : (evictionExcess scope i s.operations).cleared with
  | true =>
    rw [queueStorageEvictions, if_pos hcleared, pure_eq_ok] at h
    refine ⟨[], by simp [h], ?_⟩
    rw [evicted_of_cleared hcleared]
    exact .nil
  | false =>
    obtain ⟨-, -, ops', hloop, rfl⟩ := (queueStorageEvictions_eq_ok horder hcleared).mp h
    obtain ⟨⟨queued, rfl, hqueued⟩, -⟩ := queueEvictions_evicted .nil hloop
    exact ⟨queued, by simp, hqueued⟩

theorem left_remaining (i : EvictionInput δ) (e : Excess) (l : List (EvictionRow δ)) :
    (i.left e l).remaining = e.remaining - (l.map fun r => i.charge r.object).sum := by
  induction l using List.reverseRecOn with
  | nil => simp [EvictionInput.left]
  | append_singleton l r ih =>
    rw [← less_left]
    have hless (e : Excess) (c : ℤ) : (e.less c r.object).remaining = e.remaining - c := by
      cases r.object <;> rfl
    rw [hless, ih]
    simp
    omega

theorem EvictionInput.Sized.sum_le (hi : i.Sized) {l rows : List (EvictionRow δ)}
    (h : l.Sublist rows) :
    (l.map fun r => i.charge r.object).sum ≤ (rows.map fun r => i.charge r.object).sum := by
  induction h with
  | slnil => exact le_refl _
  | cons r _ ih =>
    rw [List.map_cons, List.sum_cons]
    have := hi.charge r.object
    omega
  | cons_cons r _ ih =>
    rw [List.map_cons, List.sum_cons, List.map_cons, List.sum_cons]
    omega

/-- There are a budget under which everything has to go, and identities that are all new. -/
theorem exists_budget (hi : i.Sized) (scope : StorageScope) (rows : List (EvictionRow δ))
    (ops : List (StorageOperation δ)) : ∃ chargedBytes softBytes operationID,
      (i.under rows chargedBytes softBytes operationID).NewIDs ops rows ∧
      ∀ l : List (EvictionRow δ), l.Sublist rows → 0 < (i.left
        (evictionExcess scope (i.under rows chargedBytes softBytes operationID) ops)
          l).remaining := by
  obtain ⟨f, hinj, hfresh⟩ := exists_operationID ops (rows.map (·.object))
  refine ⟨(rows.map fun r => i.charge r.object).sum + 1, 0, f, ⟨fun a ha b hb =>
    hinj _ (List.mem_map.mpr ⟨a, ha, rfl⟩) _ (List.mem_map.mpr ⟨b, hb, rfl⟩),
    fun o ho r _ => hfresh o ho r.object⟩, fun l hl => ?_⟩
  have hsum := hi.sum_le hl
  rw [left_remaining]
  change 0 < (rows.map fun r => i.charge r.object).sum + 1 - 0 - _
  omega

/-- **Evictions by last use.** In every reachable state and for every scan, the call goes through
under all budgets, with the evictions of the least recently used generations and no more than
needed, if and only if the candidates are at most 2048, none is hidden by the text of another, and
none was evicted after this scan before. A call that goes through makes these evictions as soon as
none is hidden. -/
theorem evictions_least_recently_used (D : Digests δ) (txs : List (UsageTx δ))
    (scope : StorageScope) (i : EvictionInput δ) (hi : i.Sized) (rows : List (EvictionRow δ))
    (hrows : (Run.run (Usage.step D) {} txs).Answers scope rows) :
    let s := (Run.run (Usage.step D) {} txs).storage
    ((∀ chargedBytes softBytes operationID,
      (i.under rows chargedBytes softBytes operationID).NewIDs s.operations rows →
      ∃ t, queueStorageEvictions s scope (i.under rows chargedBytes softBytes operationID) = .ok t ∧
        s.Evicts t scope (i.under rows chargedBytes softBytes operationID) rows) ↔
      rows.length ≤ 2048 ∧ i.Ordered scope s.operations rows ∧
        i.Unspent scope s.operations rows) ∧
    (i.Ordered scope s.operations rows → ∀ chargedBytes softBytes operationID t,
      queueStorageEvictions s scope (i.under rows chargedBytes softBytes operationID) = .ok t →
        s.Evicts t scope (i.under rows chargedBytes softBytes operationID) rows) := by
  intro s
  have hdated : ∀ r ∈ rows, r.Dated := fun r hr => hrows.dated (dated_run D txs) hr
  have hperm : (rows.map (·.candidate)).Perm (evictionCandidates s scope) := by
    rw [← Usage.eligible_candidates]
    exact hrows.perm.map _
  have hevicts : i.Ordered scope s.operations rows → ∀ chargedBytes softBytes operationID t,
      queueStorageEvictions s scope (i.under rows chargedBytes softBytes operationID) = .ok t →
        s.Evicts t scope (i.under rows chargedBytes softBytes operationID) rows :=
    fun hordered chargedBytes softBytes operationID t hok =>
      ⟨queueStorageEvictions_queued rfl hok, EvictionInput.Ordered.leastRecent
        (i := i.under rows chargedBytes softBytes operationID) hordered hi hrows.sorted hdated _⟩
  refine ⟨⟨fun h => ?_, fun ⟨hlen, hordered, hkeys⟩ chargedBytes softBytes operationID hids => ?_⟩,
    hevicts⟩
  · -- the budget under which everything has to go
    obtain ⟨chargedBytes, softBytes, operationID, hids, hall⟩ :=
      exists_budget hi scope rows s.operations
    obtain ⟨t, hok, hevicted⟩ := h chargedBytes softBytes operationID hids
    have hexcess : (evictionExcess scope (i.under rows chargedBytes softBytes operationID)
        s.operations).cleared = false := by
      have hpos := hall [] (List.nil_sublist _)
      rw [EvictionInput.left, List.foldl_nil] at hpos
      simp [Excess.cleared, hpos]
    obtain ⟨-, hlen, ops', hloop, -⟩ := (queueStorageEvictions_eq_ok rfl hexcess).mp hok
    refine ⟨hlen, hevicted.selected.ordered hi hrows.sorted hdated hall, fun r hr hevictable => ?_⟩
    obtain ⟨x, hx, hobject⟩ := exists_evicted hall hr hevictable
    exact hobject ▸ (queueEvictions_evicted .nil hloop).2 x hx
  · have hok : ∃ t, queueStorageEvictions s scope
        (i.under rows chargedBytes softBytes operationID) = .ok t := by
      cases hcleared : (evictionExcess scope (i.under rows chargedBytes softBytes operationID)
          s.operations).cleared with
      | true => exact ⟨s, if_pos hcleared⟩
      | false =>
        obtain ⟨ops', hloop⟩ := queueEvictions_isOk
          (i := i.under rows chargedBytes softBytes operationID) .nil hids hkeys
        exact ⟨_, (queueStorageEvictions_eq_ok rfl hcleared).mpr ⟨hperm, hlen, ops', hloop, rfl⟩⟩
    obtain ⟨t, hok⟩ := hok
    exact ⟨t, hok, hevicts hordered chargedBytes softBytes operationID t hok⟩

/-- Two caches are filled and mounted, the second one some time after the first. -/
def sampleUses (later : ℤ) : List (UsageTx Term) :=
  let key (n : UInt8) : ContentKey Term := { sampleKey with sha256 := .archive [n] }
  let cache (n : UInt8) (id : String) : List (UsageRequest Term) :=
    [.storage (.claimCache (sampleImageOwner "a") (key n) id ("hcop_" ++ id)),
      .storage (.beginWrite (sampleImageOwner "a") ("hcgen_" ++ id)),
      .storage (.verifyCache ("hcgen_" ++ id))]
  let mount (n : UInt8) (id : String) : UsageRequest Term :=
    .recordMount (sampleImageOwner "a")
      { id := "hcgen_" ++ id, key := key n, volumeName := "relay-cache-" ++ id
        operationID := "hcop_" ++ id, owner := sampleImageOwner "a" } "container"
  ((.storage (.pinAdmission (sampleImageOwner "a") sampleKey.scope
      [(.archive [1], 1), (.archive [2], 1)] none) :: (cache 1 "1" ++ cache 2 "2") ++
      [mount 1 "1"]).map fun q => ⟨1700000000000000000, q⟩) ++
    ([mount 2 "2", .storage (.releaseCachePins (sampleImageOwner "a"))].map fun q =>
      ⟨1700000000000000000 + later, q⟩)

/-- The rows of the two caches. -/
def usedRow (n : UInt8) (id : String) (used : ℤ) : EvictionRow Term :=
  ⟨⟨.volume ("relay-cache-" ++ id), { sampleKey with sha256 := .archive [n] }, "hcgen_" ++ id,
    "hcop_" ++ id⟩, some used⟩

/-- Both volumes are unused; one of them has to go. -/
def sampleVolumes (rows : List (EvictionRow Term)) : EvictionInput Term :=
  { workspaceID := "w"
    scanSeq := 1
    objects := rows.map fun r => ⟨r.object, true, 0, .cache r.candidate.generation
      r.candidate.operationID sampleKey.scope r.candidate.key.sha256 r.candidate.key.bytes, 5⟩
    volumes := 2
    images := 0
    chargedBytes := 10
    softBytes := 5
    order := rows.map (·.candidate)
    operationID := fun _ => "stev_1" }

/-- The rows of the two caches, a second apart. -/
def sampleRows : List (EvictionRow Term) :=
  [usedRow 1 "1" 1700000000000000000, usedRow 2 "2" 1700000001000000000]

/-- A second apart, the caches are evicted by their last use under every budget. -/
theorem evictions_a_second_apart :
    let s := (Run.run (Usage.step .terms) {} (sampleUses 1000000000)).storage
    (Run.run (Usage.step .terms) {} (sampleUses 1000000000)).Answers sampleKey.scope sampleRows ∧
    ∀ chargedBytes softBytes operationID,
      ((sampleVolumes sampleRows).under sampleRows chargedBytes softBytes operationID).NewIDs
        s.operations sampleRows →
      ∃ t, queueStorageEvictions s sampleKey.scope ((sampleVolumes sampleRows).under sampleRows
          chargedBytes softBytes operationID) = .ok t ∧
        s.Evicts t sampleKey.scope ((sampleVolumes sampleRows).under sampleRows
          chargedBytes softBytes operationID) sampleRows :=
  have hrows : (Run.run (Usage.step .terms) {} (sampleUses 1000000000)).Answers sampleKey.scope
      sampleRows := ⟨by decide +kernel, by decide +kernel⟩
  ⟨hrows, (evictions_least_recently_used .terms (sampleUses 1000000000) sampleKey.scope
    (sampleVolumes sampleRows) (by unfold EvictionInput.Sized; decide) _ hrows).1.mpr
    ⟨by decide, by decide +kernel, by decide +kernel⟩⟩

/-- An eviction that ends as retained keeps its key: a second one after the same scan fails, one
after the next scan does not. -/
example :
    let work : StorageWork :=
      { operationID := "stev_1", generation := 1, fence := "f", running := false }
    let s := Run.run (Storage.step .terms) {} (sampleEviction ++
      [⟨1, .completeStorageCleanup work .retained "referenced" 0⟩])
    let again (scanSeq : ℤ) := queueStorageEvictions s sampleKey.scope
      { sampleScan with scanSeq, operationID := fun _ => "stev_2" }
    s.operations.map (·.result) = [.retained] ∧ (again 1).toOption.isNone ∧
      (again 2).toOption.isSome := by
  decide +kernel

/-- Half a second apart, the volume that was used later goes first. -/
theorem newer_evicted_first :
    let rows := [usedRow 2 "2" 1700000000500000000, usedRow 1 "1" 1700000000000000000]
    let u := Run.run (Usage.step .terms) {} (sampleUses 500000000)
    u.Answers sampleKey.scope rows ∧
      (queueStorageEvictions u.storage sampleKey.scope (sampleVolumes rows)).toOption.map
        (fun t => t.operations.map (·.object)) = some [.volume "relay-cache-2"] ∧
      ∀ t, ¬ u.storage.Evicts t sampleKey.scope (sampleVolumes rows) rows := by
  intro rows u
  refine ⟨⟨by decide +kernel, by decide +kernel⟩, by decide +kernel, fun t h => ?_⟩
  have holder := h.selected.oldest [] (usedRow 2 "2" 1700000000500000000) [] (by decide +kernel)
    (usedRow 1 "1" 1700000000000000000) (by simp [rows]) (by decide +kernel) (by simp)
    (by decide +kernel)
  exact absurd holder (by decide)

end Store
end ComputeRelay
