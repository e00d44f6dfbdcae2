import Mathlib.Tactic
import ComputeRelay.Store.Eviction

/-!
# The generations of cached content

`RecordMount` and the use of content (`host_cache.go`, `host_application_image.go`), next to the
transactions of `Storage`: a mount leaves a receipt that is never taken back, and the instant of the
last use of a generation is what evictions are ordered by.

`perform_caches` says once what a transaction can do to the generations of caches: it moves each of
them at most one step, or adds one for a key that has no active generation. The rest of the ledger
follows.
-/

namespace ComputeRelay
namespace Store

open Fallible Scheduler

variable {δ : Type} [DecidableEq δ]

/-! ### Mounts and the last use -/

/-- A row of `host_cache_mount_receipts`. -/
structure MountReceipt (δ : Type) where
  attempt : PinOwner
  key : ContentKey δ
  generationID : String
  containerID : String
  volumeName : String
  deriving DecidableEq

/-- The tables of `Storage`, the receipts, and the column `last_used_at` of both kinds of
generations. -/
structure Usage (δ : Type) where
  storage : Storage δ := {}
  receipts : List (MountReceipt δ) := []
  lastUsed : String → Option ℤ := fun _ => none

/-- `RecordMount`, of a receipt for the generation as its attempt knows it. -/
def recordMount (u : Usage δ) (attempt : PinOwner) (known : CacheGeneration δ)
    (containerID : String) (now : ℤ) : Except Err (Usage δ) := do
  let g ← expect (u.storage.caches.find? fun g => g.id = known.id) .cacheConflict
  require (g.state = .verified && g.key = known.key && g.volumeName = known.volumeName &&
    g.operationID = known.operationID && g.owner = known.owner) .cacheConflict
  require (u.storage.cachePins.any fun p => p.owner = attempt && p.key = g.key && !p.released)
    .cacheConflict
  match u.receipts.find? fun r => r.attempt = attempt && r.key = g.key with
  | some r => do
    require (r.generationID = g.id && r.containerID = containerID && r.volumeName = g.volumeName)
      .cacheConflict
    pure u
  | none =>
    pure { u with
      receipts := u.receipts ++ [⟨attempt, g.key, g.id, containerID, g.volumeName⟩]
      lastUsed := Function.update u.lastUsed g.id (some now) }

/-- `TouchImage` -/
def touchImage (u : Usage δ) (id : String) (now : ℤ) : Except Err (Usage δ) := do
  require (u.storage.images.any fun g => g.id = id && g.state = .ready) .imageState
  pure { u with lastUsed := Function.update u.lastUsed id (some now) }

inductive UsageRequest (δ : Type)
  | storage (request : StorageRequest δ)
  | recordMount (attempt : PinOwner) (known : CacheGeneration δ) (containerID : String)
  | touchImage (id : String)

/-- The other transaction that writes `last_used_at`. -/
def StorageRequest.used (lastUsed : String → Option ℤ) (now : ℤ) :
    StorageRequest δ → String → Option ℤ
  | .markImageReady id => Function.update lastUsed id (some now)
  | _ => lastUsed

def Usage.perform (D : Digests δ) (u : Usage δ) (now : ℤ) : UsageRequest δ → Except Err (Usage δ)
  | .storage q => do
    let s ← u.storage.perform D now q
    pure { u with storage := s, lastUsed := q.used u.lastUsed now }
  | .recordMount attempt known containerID => Store.recordMount u attempt known containerID now
  | .touchImage id => Store.touchImage u id now

structure UsageTx (δ : Type) where
  wall : ℤ
  request : UsageRequest δ

def Usage.transact (D : Digests δ) (u : Usage δ) (tx : UsageTx δ) : Except Err (Usage δ) := do
  let (now, next) ← write u.storage.floor tx.wall
  let v ← u.perform D now tx.request
  pure { v with storage := { v.storage with floor := next } }

def Usage.step (D : Digests δ) (u : Usage δ) (tx : UsageTx δ) : Option (Usage δ) :=
  (u.transact D tx).toOption

/-! ### What a transaction does to the generations of caches -/

/-- The rows that `activeCacheInTx` reads. -/
def CacheGeneration.active (g : CacheGeneration δ) : Bool :=
  g.state = .claimed || g.state = .verified

/-- At most one step of a generation. -/
structure CacheGeneration.Moves (g g' : CacheGeneration δ) : Prop where
  same : g' = { g with state := g'.state, writerPhase := g'.writerPhase }
  state : g'.state = g.state ∨ g.state = .claimed ∧ g'.state = .verified ∧ g.writerPhase ≠ .intent ∨
    g.state = .claimed ∧ g'.state = .retired ∧ g.writerPhase = .finished ∨
    g.state = .verified ∧ g'.state = .retired
  phase : g'.writerPhase = g.writerPhase ∨ g.writerPhase = .intent ∧ g'.writerPhase = .begun ∨
    g.writerPhase = .begun ∧ g'.writerPhase = .finished
  finished : (g.state = .verified → g.writerPhase = .finished) → g'.state = .verified →
    g'.writerPhase = .finished

omit [DecidableEq δ] in
theorem CacheGeneration.Moves.refl (g : CacheGeneration δ) : g.Moves g :=
  ⟨rfl, .inl rfl, .inl rfl, fun h => h⟩

variable {D : Digests δ} {s t : Storage δ} {now : ℤ}

omit [DecidableEq δ] in
theorem onCache_moves {id : String} {f : CacheGeneration δ → Except Err (CacheGeneration δ × Unit)}
    (h : onCache s id f = .ok t)
    (hf : ∀ g g' u, g.id = id → f g = .ok (g', u) → g.Moves g') :
    List.Forall₂ CacheGeneration.Moves s.caches t.caches := by
  simp only [onCache, bind_eq_ok, pure_eq_ok, Prod.exists] at h
  obtain ⟨caches, u, he, rfl⟩ := h
  exact Rows.edit_forall₂ he .refl fun g g' hg => hf g g' u (of_decide_eq_true hg)

theorem beginWrite_moves {owner : PinOwner} {id : String} (h : beginWrite s owner id = .ok t) :
    List.Forall₂ CacheGeneration.Moves s.caches t.caches := by
  refine onCache_moves h fun g g' u _ hg => ?_
  simp only [bind_eq_ok, require_eq_ok, pure_eq_ok, Prod.mk.injEq, Bool.and_eq_true,
    decide_eq_true_eq] at hg
  obtain ⟨-, ⟨-, hclaimed⟩, -, hintent, -, -, rfl, -⟩ := hg
  exact ⟨rfl, .inl rfl, .inr (.inl ⟨hintent, rfl⟩), fun _ hv => by simp [hclaimed] at hv⟩

/-- It finds the writer before it began. -/
theorem beginWrite_intent {owner : PinOwner} {id : String} (h : beginWrite s owner id = .ok t) :
    ∃ g ∈ s.caches, g.id = id ∧ g.writerPhase = .intent ∧
      { g with writerPhase := .begun } ∈ t.caches := by
  simp only [beginWrite, onCache, bind_eq_ok, pure_eq_ok, Prod.exists] at h
  obtain ⟨caches, _, hedit, rfl⟩ := h
  obtain ⟨pre, g, g', post, hcaches, hid, hg, rfl⟩ := Rows.edit_eq_ok hedit
  simp only [bind_eq_ok, require_eq_ok, pure_eq_ok, Prod.mk.injEq, decide_eq_true_eq] at hg
  obtain ⟨-, -, -, hintent, -, -, rfl, -⟩ := hg
  exact ⟨g, by simp [hcaches], of_decide_eq_true hid, hintent, by simp⟩

omit [DecidableEq δ] in
theorem finishWrite_moves {owner : PinOwner} {id : String} (h : finishWrite s owner id = .ok t) :
    List.Forall₂ CacheGeneration.Moves s.caches t.caches := by
  refine onCache_moves h fun g g' u _ hg => ?_
  simp only [bind_eq_ok, require_eq_ok, pure_eq_ok, Prod.mk.injEq, Bool.and_eq_true,
    Bool.or_eq_true, decide_eq_true_eq] at hg
  obtain ⟨-, -, -, hphase, rfl, -⟩ := hg
  refine ⟨rfl, .inl rfl, ?_, fun _ _ => rfl⟩
  rcases hphase with hfinished | ⟨-, hbegun⟩
  · exact .inl hfinished.symm
  · exact .inr (.inr ⟨hbegun, rfl⟩)

omit [DecidableEq δ] in
theorem verifyCache_moves {id : String} (h : verifyCache s id = .ok t) :
    List.Forall₂ CacheGeneration.Moves s.caches t.caches := by
  refine onCache_moves h fun g g' u _ hg => ?_
  split at hg
  · simp only [pure_eq_ok, Prod.mk.injEq] at hg
    obtain ⟨rfl, -⟩ := hg
    exact .refl g
  · cases hg
  · next hclaimed =>
    simp only [bind_eq_ok, require_eq_ok, pure_eq_ok, Prod.mk.injEq, decide_eq_true_eq] at hg
    obtain ⟨-, hbegun, rfl, -⟩ := hg
    refine ⟨rfl, .inr (.inl ⟨hclaimed, rfl, hbegun⟩), ?_, fun _ _ => rfl⟩
    cases hphase : g.writerPhase with
    | intent => exact absurd hphase hbegun
    | begun => exact .inr (.inr ⟨rfl, rfl⟩)
    | finished => exact .inl rfl

omit [DecidableEq δ] in
theorem retireCache_moves {id : String} (h : retireCache s id = .ok t) :
    List.Forall₂ CacheGeneration.Moves s.caches t.caches := by
  refine onCache_moves h fun g g' u _ hg => ?_
  simp only [bind_eq_ok, require_eq_ok, pure_eq_ok, Prod.mk.injEq, Bool.not_eq_true',
    Bool.and_eq_false_iff, decide_eq_false_iff_not, not_not] at hg
  obtain ⟨-, hwriter, rfl, -⟩ := hg
  refine ⟨rfl, ?_, .inl rfl, fun _ hv => by cases hv⟩
  cases hstate : g.state with
  | claimed => exact .inr (.inr (.inl ⟨rfl, rfl, hwriter.resolve_left (by simp [hstate])⟩))
  | verified => exact .inr (.inr (.inr ⟨rfl, rfl⟩))
  | retired => exact .inl rfl

theorem releaseDeletedStorageContent_moves {o : StorageOperation δ}
    (h : releaseDeletedStorageContent s o = .ok t) :
    List.Forall₂ CacheGeneration.Moves s.caches t.caches := by
  unfold releaseDeletedStorageContent at h
  split at h
  · simp only [bind_eq_ok, pure_eq_ok] at h
    obtain ⟨-, -, rfl⟩ := h
    refine List.forall₂_map_right_iff.mpr (List.forall₂_same.mpr fun g _ => ?_)
    split_ifs with hverified
    · simp only [Bool.and_eq_true, decide_eq_true_eq] at hverified
      exact ⟨rfl, .inr (.inr (.inr ⟨hverified.2, rfl⟩)), .inl rfl, fun _ hv => by cases hv⟩
    · exact .refl g
  · rw [pure_eq_ok] at h
    subst h
    exact List.forall₂_same.mpr fun g _ => .refl g
  · rw [pure_eq_ok] at h
    subst h
    exact List.forall₂_same.mpr fun g _ => .refl g

/-- A new generation is claimed, and its key had no active one. -/
structure Storage.Claims (s t : Storage δ) (g : CacheGeneration δ) : Prop where
  caches : t.caches = s.caches ++ [g]
  claimed : g.state = .claimed
  intent : g.writerPhase = .intent
  fresh : ∀ h ∈ s.caches, h.id ≠ g.id
  operation : ∀ h ∈ s.caches, h.operationID ≠ g.operationID
  only : ∀ h ∈ s.caches, h.key = g.key → h.active = false

theorem claimCache_claims {owner : PinOwner} {k : ContentKey δ} {id operationID : String}
    (h : claimCache s owner k id operationID = .ok t) : t = s ∨ ∃ g, s.Claims t g := by
  simp only [claimCache, bind_eq_ok] at h
  obtain ⟨-, -, h⟩ := h
  split_ifs at h with hactive
  · rw [pure_eq_ok] at h
    exact .inl h.symm
  · simp only [bind_eq_ok, require_eq_ok, pure_eq_ok, List.all_eq_true, Bool.and_eq_true,
      decide_eq_true_eq] at h
    obtain ⟨-, hfresh, rfl⟩ := h
    refine .inr ⟨_, rfl, rfl, rfl, fun h hh => (hfresh h hh).1.1, fun h hh => (hfresh h hh).2,
      fun h hh hkey => ?_⟩
    simp only [List.any_eq_true, not_exists, not_and, Bool.and_eq_true,
      decide_eq_true_eq] at hactive
    rw [Bool.eq_false_iff]
    intro hone
    exact hactive h hh hkey (by simpa [CacheGeneration.active] using hone)

/-- Every transaction moves the generations it does not add. -/
theorem perform_caches {q : StorageRequest δ} (h : s.perform D now q = .ok t) :
    List.Forall₂ CacheGeneration.Moves s.caches t.caches ∨ ∃ g, s.Claims t g := by
  have keeps (h : t.caches = s.caches) :
      List.Forall₂ CacheGeneration.Moves s.caches t.caches ∨ ∃ g, s.Claims t g := by
    rw [h]
    exact .inl (List.forall₂_same.mpr fun g _ => .refl g)
  have images {id : String} {f : ImageGeneration δ → Except Err (ImageGeneration δ × Unit)}
      (h : onImage s id f = .ok t) : t.caches = s.caches := by
    simp only [onImage, bind_eq_ok, pure_eq_ok, Prod.exists] at h
    obtain ⟨-, -, -, rfl⟩ := h
    rfl
  have operations {id : String} {f : StorageOperation δ → Except Err (StorageOperation δ × Unit)}
      (h : onStorageOperation s id f = .ok t) : t.caches = s.caches := by
    simp only [onStorageOperation, bind_eq_ok, pure_eq_ok, Prod.exists] at h
    obtain ⟨-, -, -, rfl⟩ := h
    rfl
  cases q with
  | pinAdmission owner scope refs image => exact keeps (pinAdmission_pins h).caches
  | pinRetry old new => exact keeps (pinRetry_pins h).caches
  | releaseCachePins owner =>
    simp only [Storage.perform, pure_eq_ok] at h
    exact keeps (h ▸ rfl)
  | releaseImagePins owner =>
    simp only [Storage.perform, pure_eq_ok] at h
    exact keeps (h ▸ rfl)
  | claimCache owner key id operationID =>
    rcases claimCache_claims h with rfl | hclaims
    · exact keeps rfl
    · exact .inr hclaims
  | beginWrite owner id => exact .inl (beginWrite_moves h)
  | finishWrite owner id => exact .inl (finishWrite_moves h)
  | verifyCache id => exact .inl (verifyCache_moves h)
  | retireCache id => exact .inl (retireCache_moves h)
  | claimImage owner objectID key id operationID =>
    simp only [Storage.perform, claimImage, bind_eq_ok] at h
    obtain ⟨-, -, h⟩ := h
    split_ifs at h
    · rw [pure_eq_ok] at h
      exact keeps (h ▸ rfl)
    · simp only [bind_eq_ok, pure_eq_ok] at h
      obtain ⟨-, -, rfl⟩ := h
      exact keeps rfl
  | beginImageLoad id content store rest layers => exact keeps (images h)
  | retirePreloadImage id => exact keeps (images h)
  | markImageReady id => exact keeps (images h)
  | markImageUnknown id => exact keeps (images h)
  | retireMissingImage id => exact keeps (images h)
  | queueStorageEvictions scope input =>
    simp only [Storage.perform, queueStorageEvictions] at h
    split_ifs at h
    · rw [pure_eq_ok] at h
      exact keeps (h ▸ rfl)
    · simp only [bind_eq_ok, pure_eq_ok] at h
      obtain ⟨_, _, _, _, _, _, h⟩ := h
      exact keeps (h ▸ rfl)
  | admitStorageCleanup id workspaceID key scope action object =>
    simp only [Storage.perform, admitStorageCleanup, bind_eq_ok, pure_eq_ok] at h
    obtain ⟨_, _, _, _, h⟩ := h
    exact keeps (h ▸ rfl)
  | claimStorageCleanup id fence ttl =>
    simp only [Storage.perform, claimStorageCleanup, bind_eq_ok] at h
    obtain ⟨-, -, h⟩ := h
    exact keeps (operations h)
  | renewStorageCleanup work ttl =>
    simp only [Storage.perform, renewStorageCleanup, bind_eq_ok] at h
    obtain ⟨-, -, h⟩ := h
    exact keeps (operations h)
  | beginStorageCleanup work known =>
    simp only [Storage.perform, beginStorageCleanup, bind_eq_ok] at h
    obtain ⟨-, -, h⟩ := h
    exact keeps (operations h)
  | completeStorageCleanup work outcome reason scan =>
    simp only [Storage.perform, completeStorageCleanup, bind_eq_ok, Prod.exists] at h
    obtain ⟨ops, o, -, h⟩ := h
    split_ifs at h
    · have hmoves := releaseDeletedStorageContent_moves h
      exact .inl hmoves
    · rw [pure_eq_ok] at h
      exact keeps (h ▸ rfl)

/-! ### Runs -/

variable {u v : Usage δ}

/-- The generation of a receipt is verified, and its attempt has an unreleased pin of the key. -/
def Usage.Mountable (u : Usage δ) (r : MountReceipt δ) : Prop :=
  ∃ g ∈ u.storage.caches, g.id = r.generationID ∧ g.key = r.key ∧ g.volumeName = r.volumeName ∧
    g.state = .verified ∧ ∃ p ∈ u.storage.cachePins, p.owner = r.attempt ∧ p.key = r.key ∧
      p.released = false

theorem recordMount_ok {attempt : PinOwner} {known : CacheGeneration δ} {containerID : String}
    (h : recordMount u attempt known containerID now = .ok v) :
    v.storage = u.storage ∧ (v.receipts = u.receipts ∨
      ∃ r, v.receipts = u.receipts ++ [r] ∧ u.Mountable r) := by
  simp only [recordMount, bind_eq_ok, require_eq_ok, expect_eq_ok] at h
  obtain ⟨g, hfind, -, hknown, -, hpinned, h⟩ := h
  split at h
  · simp only [bind_eq_ok, pure_eq_ok] at h
    obtain ⟨-, -, rfl⟩ := h
    exact ⟨rfl, .inl rfl⟩
  · rw [pure_eq_ok] at h
    subst h
    simp only [Bool.and_eq_true, decide_eq_true_eq] at hknown
    obtain ⟨p, hp, hpin⟩ := List.any_eq_true.mp hpinned
    simp only [Bool.and_eq_true, decide_eq_true_eq, Bool.not_eq_true'] at hpin
    exact ⟨rfl,
      .inr ⟨_, rfl, g, List.mem_of_find?_eq_some hfind, rfl, rfl, rfl, hknown.1.1.1.1, p, hp,
      hpin.1.1, hpin.1.2, hpin.2⟩⟩

theorem Usage.step_perform {tx : UsageTx δ} (h : u.step D tx = some v) :
    ∃ now w next, validTime now = true ∧ u.perform D now tx.request = .ok w ∧
      v = { w with storage := { w.storage with floor := next } } := by
  have htx := toOption_eq_some h
  simp only [Usage.transact, bind_eq_ok, pure_eq_ok, Prod.exists] at htx
  obtain ⟨now, next, hwrite, v, hv, rfl⟩ := htx
  exact ⟨now, v, next, (write_eq_ok hwrite).2.2.2, hv, rfl⟩

/-- What a step does to the generations of caches and to the receipts. -/
theorem Usage.step_ok {tx : UsageTx δ} (h : u.step D tx = some v) :
    (List.Forall₂ CacheGeneration.Moves u.storage.caches v.storage.caches ∨
      ∃ g, u.storage.Claims v.storage g) ∧
    (v.receipts = u.receipts ∨ ∃ r, v.receipts = u.receipts ++ [r] ∧ u.Mountable r) := by
  obtain ⟨now, v, next, -, hv, rfl⟩ := Usage.step_perform h
  have hsame : List.Forall₂ CacheGeneration.Moves u.storage.caches u.storage.caches :=
    List.forall₂_same.mpr fun g _ => .refl g
  cases hq : tx.request with
  | storage q =>
    simp only [hq, Usage.perform, bind_eq_ok, pure_eq_ok] at hv
    obtain ⟨t, ht, rfl⟩ := hv
    refine ⟨?_, .inl rfl⟩
    rcases perform_caches ht with hmoves | ⟨g, hg⟩
    · exact .inl hmoves
    · exact .inr ⟨g, hg.caches, hg.claimed, hg.intent, hg.fresh, hg.operation, hg.only⟩
  | recordMount attempt known containerID =>
    simp only [hq, Usage.perform] at hv
    obtain ⟨hstorage, hreceipts⟩ := recordMount_ok hv
    rw [hstorage]
    exact ⟨.inl hsame, hreceipts⟩
  | touchImage id =>
    simp only [hq, Usage.perform, touchImage, bind_eq_ok, pure_eq_ok] at hv
    obtain ⟨-, -, rfl⟩ := hv
    exact ⟨.inl hsame, .inl rfl⟩

/-- Two rows of the table of generations. -/
def CacheGeneration.Excludes (g h : CacheGeneration δ) : Prop :=
  g.id ≠ h.id ∧ (g.key = h.key → ¬ (g.active = true ∧ h.active = true))

instance : Std.Symm (CacheGeneration.Excludes (δ := δ)) :=
  ⟨fun _ _ h => ⟨h.1.symm, fun hkey hactive => h.2 hkey.symm hactive.symm⟩⟩

/-- What holds of every reachable state. -/
structure Usage.Good (u : Usage δ) : Prop where
  exclusive : u.storage.caches.Pairwise CacheGeneration.Excludes
  finished : ∀ g ∈ u.storage.caches, g.state = .verified → g.writerPhase = .finished

omit [DecidableEq δ] in
theorem Usage.Good.eq_of_id (hu : u.Good) {g h : CacheGeneration δ} (hg : g ∈ u.storage.caches)
    (hh : h ∈ u.storage.caches) (hid : g.id = h.id) : g = h := by
  by_contra hne
  exact (hu.exclusive.forall hg hh hne).1 hid

omit [DecidableEq δ] in
theorem CacheGeneration.Moves.active_of {g g' : CacheGeneration δ} (h : g.Moves g')
    (hactive : g'.active = true) : g.active = true := by
  simp only [CacheGeneration.active, Bool.or_eq_true, decide_eq_true_eq] at hactive ⊢
  rcases h.state with hsame | ⟨hc, -⟩ | ⟨hc, -⟩ | ⟨hv, -⟩
  · rwa [hsame] at hactive
  · exact .inl hc
  · exact .inl hc
  · exact .inr hv

omit [DecidableEq δ] in
theorem CacheGeneration.Moves.excludes {g g' h h' : CacheGeneration δ} (hg : g.Moves g')
    (hh : h.Moves h') (hex : g.Excludes h) : g'.Excludes h' := by
  have hgid : g'.id = g.id ∧ g'.key = g.key := by
    rw [hg.same]
    exact ⟨rfl, rfl⟩
  have hhid : h'.id = h.id ∧ h'.key = h.key := by
    rw [hh.same]
    exact ⟨rfl, rfl⟩
  refine ⟨?_, fun hkey hactive => ?_⟩
  · rw [hgid.1, hhid.1]
    exact hex.1
  · rw [hgid.2, hhid.2] at hkey
    exact hex.2 hkey ⟨hg.active_of hactive.1, hh.active_of hactive.2⟩

theorem Usage.Good.step {tx : UsageTx δ} (hu : u.Good) (h : u.step D tx = some v) : v.Good := by
  rcases (Usage.step_ok h).1 with hmoves | ⟨g, hg⟩
  · refine ⟨Rows.pairwise_of_forall₂ hmoves hu.exclusive
      fun _ _ _ _ => CacheGeneration.Moves.excludes, fun g' hg' => ?_⟩
    obtain ⟨g, hg, hmove⟩ := Rows.exists_old hmoves hg'
    exact hmove.finished (hu.finished g hg)
  · refine ⟨?_, fun g' hg' hverified => ?_⟩
    · rw [hg.caches]
      refine List.pairwise_append.mpr ⟨hu.exclusive, List.pairwise_singleton _ _,
        fun h hh g' hg' => ?_⟩
      obtain rfl := List.mem_singleton.mp hg'
      refine ⟨hg.fresh h hh, fun hkey hactive => ?_⟩
      rw [hg.only h hh hkey] at hactive
      exact absurd hactive.1 (by decide)
    · rw [hg.caches] at hg'
      rcases List.mem_append.mp hg' with hg' | hg'
      · exact hu.finished g' hg' hverified
      · obtain rfl := List.mem_singleton.mp hg'
        rw [hg.claimed] at hverified
        cases hverified

omit [DecidableEq δ] in
theorem Usage.Good.empty : ({} : Usage δ).Good := ⟨.nil, by simp⟩

theorem usage_good (D : Digests δ) (txs : List (UsageTx δ)) :
    (Run.run (Usage.step D) {} txs).Good :=
  Run.run_invariant .empty (fun _ _ _ => Usage.Good.step) txs

/-- The transaction is a `BeginWrite` of the generation. -/
def UsageTx.beginsWrite (id : String) (tx : UsageTx δ) : Bool :=
  match tx.request with
  | .storage (.beginWrite _ i) => i = id
  | _ => false

/-- The writer of the generation has begun. -/
def Usage.Begun (id : String) (u : Usage δ) : Prop :=
  ∃ g ∈ u.storage.caches, g.id = id ∧ g.writerPhase ≠ .intent

/-- A writer that has begun stays so. -/
theorem Usage.Begun.step {id : String} {tx : UsageTx δ} (hb : u.Begun id)
    (h : u.step D tx = some v) : v.Begun id := by
  obtain ⟨g, hg, rfl, hphase⟩ := hb
  rcases (Usage.step_ok h).1 with hmoves | ⟨new, hnew⟩
  · obtain ⟨g', hg', hmove⟩ := Rows.exists_new hmoves hg
    refine ⟨g', hg', ?_, ?_⟩
    · rw [hmove.same]
    · rcases hmove.phase with hsame | ⟨hintent, -⟩ | ⟨-, hfinished⟩
      · rwa [hsame]
      · exact absurd hintent hphase
      · simp [hfinished]
  · exact ⟨g, by simp [hnew.caches, hg], rfl, hphase⟩

/-- A `BeginWrite` finds the writer of its generation before it began, and begins it. -/
theorem Usage.begins {id : String} {tx : UsageTx δ} (hu : u.Good) (h : u.step D tx = some v)
    (htx : tx.beginsWrite id = true) : ¬ u.Begun id ∧ v.Begun id := by
  unfold UsageTx.beginsWrite at htx
  split at htx
  · next owner i hq =>
    obtain rfl : i = id := of_decide_eq_true htx
    obtain ⟨now, w, next, -, hw, rfl⟩ := Usage.step_perform h
    simp only [hq, Usage.perform, Storage.perform, bind_eq_ok, pure_eq_ok] at hw
    obtain ⟨t, hbegin, rfl⟩ := hw
    obtain ⟨g, hg, hid, hintent, hbegun⟩ := beginWrite_intent hbegin
    refine ⟨?_, _, hbegun, hid, by simp⟩
    rintro ⟨g₀, hg₀, hid₀, hphase⟩
    obtain rfl := hu.eq_of_id hg₀ hg (hid₀.trans hid.symm)
    exact hphase hintent
  · cases htx

/-- A receipt was written when its generation could be mounted. -/
theorem receipt_mountable (D : Digests δ) (txs : List (UsageTx δ)) :
    ∀ r ∈ (Run.run (Usage.step D) {} txs).receipts,
      ∃ before, before <+: txs ∧ (Run.run (Usage.step D) {} before).Mountable r := by
  induction txs using List.reverseRecOn with
  | nil => simp
  | append_singleton txs tx ih =>
    have hlater : ∀ r ∈ (Run.run (Usage.step D) {} txs).receipts,
        ∃ before, before <+: txs ++ [tx] ∧ (Run.run (Usage.step D) {} before).Mountable r := by
      intro r hr
      obtain ⟨before, hbefore, hmount⟩ := ih r hr
      exact ⟨before, hbefore.trans (List.prefix_append txs [tx]), hmount⟩
    rw [Run.run_concat]
    cases hstep : (Run.run (Usage.step D) {} txs).step D tx with
    | none => exact hlater
    | some v =>
      rw [Option.getD_some]
      intro r hr
      rcases (Usage.step_ok hstep).2 with hsame | ⟨new, hnew, hmount⟩
      · exact hlater r (hsame ▸ hr)
      · rw [hnew] at hr
        rcases List.mem_append.mp hr with hr | hr
        · exact hlater r hr
        · obtain rfl := List.mem_singleton.mp hr
          exact ⟨txs, List.prefix_append txs [tx], hmount⟩

/-- **The ledger of cache generations.** In every run of the transactions on the content of hosts,
by any owners and after any observations: at most one `BeginWrite` of a generation succeeds; no two
generations of one key are claimed or verified, and identities are distinct; a verified generation
has a finished writer; each step moves a generation at most from claimed to verified, which needs a
writer that has begun, from claimed to retired, which needs one that has finished, or from verified
to retired, and its writer at most from intent to begun or from begun to finished, or it adds one
claimed generation; and the generation that a receipt names was verified at a time when the attempt
of the receipt held an unreleased pin. -/
theorem cache_generation_ledger (D : Digests δ) (txs : List (UsageTx δ)) :
    let u := Run.run (Usage.step D) {} txs
    (∀ id, (Run.accepted (Usage.step D) {} txs).countP (·.beginsWrite id) ≤ 1) ∧
      u.storage.caches.Pairwise CacheGeneration.Excludes ∧
      (∀ g ∈ u.storage.caches, g.state = .verified → g.writerPhase = .finished) ∧
      (∀ tx v, u.step D tx = some v →
        List.Forall₂ CacheGeneration.Moves u.storage.caches v.storage.caches ∨
          ∃ g, u.storage.Claims v.storage g) ∧
      ∀ r ∈ u.receipts, ∃ before, before <+: txs ∧
        (Run.run (Usage.step D) {} before).Mountable r := by
  intro u
  refine ⟨fun id => ?_, (usage_good D txs).exclusive, (usage_good D txs).finished,
    fun tx v h => (Usage.step_ok h).1, receipt_mountable D txs⟩
  have hone := Run.accepted_countP_le_one_of (P := Usage.Good (δ := δ)) (q := Usage.Begun id)
    (p := UsageTx.beginsWrite id) .empty (fun _ _ _ => Usage.Good.step)
    (fun _ _ _ hu h => Usage.begins (D := D) hu h) (fun _ _ _ _ h hb => hb.step h) txs
  exact hone.1

/-- A cache is filled, although the acknowledgement of its writer is lost, and mounted. -/
def sampleMount : List (UsageTx Term) :=
  ([.storage (.pinAdmission (sampleImageOwner "a") sampleKey.scope [(.archive [1], 1)] none),
    .storage (.claimCache (sampleImageOwner "a") sampleKey "1" "hcop_1"),
    .storage (.beginWrite (sampleImageOwner "a") "hcgen_1"),
    .storage (.beginWrite (sampleImageOwner "a") "hcgen_1"),
    .storage (.verifyCache "hcgen_1"),
    .recordMount (sampleImageOwner "a")
      { id := "hcgen_1", key := sampleKey, volumeName := "relay-cache-1", operationID := "hcop_1",
        owner := sampleImageOwner "a" } "container"] :
    List (UsageRequest Term)).map fun q => { wall := 1, request := q }

theorem sampleMount_receipt :
    ⟨sampleImageOwner "a", sampleKey, "hcgen_1", "container", "relay-cache-1"⟩ ∈
      (Run.run (Usage.step .terms) {} sampleMount).receipts := by
  decide +kernel

theorem mounted_generation_verified :
    ∃ before, before <+: sampleMount ∧ (Run.run (Usage.step .terms) {} before).Mountable
      ⟨sampleImageOwner "a", sampleKey, "hcgen_1", "container", "relay-cache-1"⟩ :=
  (cache_generation_ledger .terms sampleMount).2.2.2.2 _ sampleMount_receipt

end Store
end ComputeRelay
