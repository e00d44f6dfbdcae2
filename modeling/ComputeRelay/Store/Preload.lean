import Mathlib.Tactic
import ComputeRelay.Lib.TextOrder
import ComputeRelay.Store.Eviction

/-!
# Preparing application images

`ClaimImage`, `BeginImageLoad` and `RetirePreloadImage` of `host_application_image.go`: a generation
of an image is prepared under a lease, and one load of it is elected.

`ClaimImage` compares the end of the lease with its time as instants, `BeginImageLoad` as texts. The
two agree unless one of the times ends, in its second, where the fraction of the other goes on.
-/

namespace ComputeRelay
namespace Store

open Fallible Scheduler

variable {δ : Type} [DecidableEq δ] {D : Digests δ} {s t : Storage δ} {now : ℤ}

/-! ### What a transaction does to the generations of images -/

/-- A generation keeps its identity and its lease; it does not become active again, nor is it
prepared again. -/
structure ImageGeneration.Moves (g g' : ImageGeneration δ) : Prop where
  id : g'.id = g.id
  operationID : g'.operationID = g.operationID
  key : g'.key = g.key
  lease : g'.leaseUntil = g.leaseUntil
  active : g'.active = true → g.active = true
  preparing : g'.state = .preparing → g.state = .preparing

omit [DecidableEq δ] in
theorem ImageGeneration.Moves.refl (g : ImageGeneration δ) : g.Moves g :=
  ⟨rfl, rfl, rfl, rfl, fun h => h, fun h => h⟩

omit [DecidableEq δ] in
theorem ImageGeneration.Moves.retired (g : ImageGeneration δ) :
    g.Moves { g with state := .retired } :=
  ⟨rfl, rfl, rfl, rfl, fun h => absurd h (by simp [ImageGeneration.active]), fun h => by cases h⟩

omit [DecidableEq δ] in
theorem onImage_moves {id : String} {f : ImageGeneration δ → Except Err (ImageGeneration δ × Unit)}
    (h : onImage s id f = .ok t) (hf : ∀ g g' u, f g = .ok (g', u) → g.Moves g') :
    List.Forall₂ ImageGeneration.Moves s.images t.images := by
  simp only [onImage, bind_eq_ok, pure_eq_ok, Prod.exists] at h
  obtain ⟨images, u, he, rfl⟩ := h
  exact Rows.edit_forall₂ he .refl fun g g' _ => hf g g' u

omit [DecidableEq δ] in
theorem moveImage_moves {id : String} {allowed : ImageState → Bool} {next : ImageState}
    (h : moveImage s id allowed next = .ok t) (hallowed : allowed .retired = false)
    (hnext : next ≠ .preparing) : List.Forall₂ ImageGeneration.Moves s.images t.images := by
  refine onImage_moves h fun g g' u hg => ?_
  simp only [bind_eq_ok, require_eq_ok, pure_eq_ok, Prod.mk.injEq] at hg
  obtain ⟨-, hstate, rfl, -⟩ := hg
  refine ⟨rfl, rfl, rfl, rfl, fun _ => ?_, fun hp => absurd hp hnext⟩
  rw [ImageGeneration.active, decide_eq_true_eq]
  intro hretired
  rw [hretired, hallowed] at hstate
  cases hstate

theorem loadedImage_moves {content : List UInt8} {store : ImageStore} {rest : String}
    {layers : List String} {g g' : ImageGeneration δ} {u : Unit}
    (h : loadedImage D s content store rest layers now g = .ok (g', u)) : g.Moves g' := by
  simp only [loadedImage, ImageGeneration.elected, bind_eq_ok, require_eq_ok, pure_eq_ok,
    Prod.mk.injEq, Bool.and_eq_true, decide_eq_true_eq] at h
  obtain ⟨-, -, -, -, -, ⟨hpreparing, -⟩, -, -, rfl, -⟩ := h
  exact ⟨rfl, rfl, rfl, rfl, fun _ => by simp [ImageGeneration.active, hpreparing],
    fun h => by cases h⟩

theorem beginImageLoad_moves {id : String} {content : List UInt8} {store : ImageStore}
    {rest : String}
    {layers : List String} (h : beginImageLoad D s id content store rest layers now = .ok t) :
    List.Forall₂ ImageGeneration.Moves s.images t.images :=
  onImage_moves h fun _ _ _ => loadedImage_moves

theorem releaseDeletedStorageContent_images {o : StorageOperation δ}
    (h : releaseDeletedStorageContent s o = .ok t) :
    List.Forall₂ ImageGeneration.Moves s.images t.images := by
  have hsame : List.Forall₂ ImageGeneration.Moves s.images s.images :=
    List.forall₂_same.mpr fun g _ => .refl g
  unfold releaseDeletedStorageContent at h
  split at h
  · simp only [bind_eq_ok, pure_eq_ok] at h
    obtain ⟨-, -, rfl⟩ := h
    exact hsame
  · rw [pure_eq_ok] at h
    subst h
    refine List.forall₂_map_right_iff.mpr (List.forall₂_same.mpr fun g _ => ?_)
    split_ifs
    · exact .retired g
    · exact .refl g
  · rw [pure_eq_ok] at h
    exact h ▸ hsame

/-- The table after the preparations of a key that ran out are retired. -/
def retireExpired (s : Storage δ) (k : ContentKey δ) (now : ℤ) : List (ImageGeneration δ) :=
  s.images.map fun g => if g.key = k && g.expired now then { g with state := .retired } else g

theorem retireExpired_moves (k : ContentKey δ) (now : ℤ) :
    List.Forall₂ ImageGeneration.Moves s.images (retireExpired s k now) := by
  refine List.forall₂_map_right_iff.mpr (List.forall₂_same.mpr fun g _ => ?_)
  split_ifs
  · exact .retired g
  · exact .refl g

/-- A new generation is prepared under a lease of half an hour, and its key has no other active
one. -/
structure Storage.Prepares (s t : Storage δ) (now : ℤ) (g : ImageGeneration δ) : Prop where
  images : t.images = retireExpired s g.key now ++ [g]
  preparing : g.state = .preparing
  lease : g.leaseUntil = now + 1800000000000
  fresh : ∀ h ∈ retireExpired s g.key now, h.id ≠ g.id
  operation : ∀ h ∈ retireExpired s g.key now, h.operationID ≠ g.operationID
  only : ∀ h ∈ retireExpired s g.key now, h.key = g.key → h.active = false

theorem claimImage_eq (owner : PinOwner) (objectID : String) (k : ContentKey δ)
    (id operationID : String) :
    claimImage s owner objectID k id operationID now = (do
      require (s.imagePins.any fun p =>
        p.owner = owner && p.objectID = objectID && p.key = k && !p.released) .imageState
      if (retireExpired s k now).any fun g => g.key = k && g.active then pure s
      else do
        require ((retireExpired s k now).all fun g =>
          g.id ≠ id && g.operationID ≠ operationID) .conflict
        pure { s with
          images := retireExpired s k now ++
            [{ id, key := k, operationID, owner, objectID
               leaseUntil := now + 1800000000000 }] }) :=
  rfl

theorem claimImage_prepares {owner : PinOwner} {objectID : String} {k : ContentKey δ}
    {id operationID : String} (h : claimImage s owner objectID k id operationID now = .ok t) :
    (t = s ∧ ∃ g ∈ retireExpired s k now, g.key = k ∧ g.active = true) ∨
      ∃ g, g.key = k ∧ s.Prepares t now g := by
  rw [claimImage_eq] at h
  obtain ⟨_, -, h⟩ := bind_eq_ok.mp h
  split_ifs at h with hactive
  · obtain ⟨g, hg, hkey⟩ := List.any_eq_true.mp hactive
    simp only [Bool.and_eq_true, decide_eq_true_eq] at hkey
    exact .inl ⟨(pure_eq_ok.mp h).symm, g, hg, hkey⟩
  · obtain ⟨_, hrequire, h⟩ := bind_eq_ok.mp h
    obtain rfl := pure_eq_ok.mp h
    have hfresh := List.all_eq_true.mp (require_eq_ok.mp hrequire)
    refine .inr ⟨{ id, key := k, operationID, owner, objectID, leaseUntil := now + 1800000000000 },
      rfl, rfl, rfl, rfl, fun g hg => ?_, fun g hg => ?_, fun g hg hkey => ?_⟩
    · have hids := hfresh g hg
      simp only [Bool.and_eq_true, decide_eq_true_eq] at hids
      exact hids.1
    · have hids := hfresh g hg
      simp only [Bool.and_eq_true, decide_eq_true_eq] at hids
      exact hids.2
    · rw [Bool.eq_false_iff]
      intro hone
      refine hactive (List.any_eq_true.mpr ⟨g, hg, ?_⟩)
      simp only [Bool.and_eq_true, decide_eq_true_eq]
      exact ⟨hkey, hone⟩

/-- Every transaction moves the generations it does not add. -/
theorem perform_images {q : StorageRequest δ} (h : s.perform D now q = .ok t) :
    List.Forall₂ ImageGeneration.Moves s.images t.images ∨ ∃ g, s.Prepares t now g := by
  have keeps (h : t.images = s.images) :
      List.Forall₂ ImageGeneration.Moves s.images t.images ∨ ∃ g, s.Prepares t now g := by
    rw [h]
    exact .inl (List.forall₂_same.mpr fun g _ => .refl g)
  cases q with
  | pinAdmission owner scope refs image => exact keeps (pinAdmission_pins h).images
  | pinRetry old new => exact keeps (pinRetry_pins h).images
  | releaseCachePins owner =>
    simp only [Storage.perform, pure_eq_ok] at h
    exact keeps (h ▸ rfl)
  | releaseImagePins owner =>
    simp only [Storage.perform, pure_eq_ok] at h
    exact keeps (h ▸ rfl)
  | claimCache owner key id operationID => exact keeps (claimCache_images h)
  | beginWrite owner id => exact keeps (beginWrite_ok h).2
  | finishWrite owner id => exact keeps (finishWrite_ok h).2
  | verifyCache id => exact keeps (verifyCache_ok h).2
  | retireCache id => exact keeps (retireCache_ok h).2
  | claimImage owner objectID key id operationID =>
    rcases claimImage_prepares h with ⟨hsame, -⟩ | ⟨g, -, hg⟩
    · exact keeps (by rw [hsame])
    · exact .inr ⟨g, hg⟩
  | beginImageLoad id content store rest layers => exact .inl (beginImageLoad_moves h)
  | retirePreloadImage id =>
    simp only [Storage.perform, retirePreloadImage] at h
    exact .inl (moveImage_moves h (by decide) (by decide))
  | markImageReady id =>
    simp only [Storage.perform, markImageReady] at h
    exact .inl (moveImage_moves h (by decide) (by decide))
  | markImageUnknown id =>
    simp only [Storage.perform, markImageUnknown] at h
    exact .inl (moveImage_moves h (by decide) (by decide))
  | retireMissingImage id =>
    simp only [Storage.perform, retireMissingImage] at h
    exact .inl (moveImage_moves h (by decide) (by decide))
  | queueStorageEvictions scope input => exact keeps (queueStorageEvictions_ok h).2
  | admitStorageCleanup id workspaceID key scope action object =>
    exact keeps (admitStorageCleanup_ok h).2
  | claimStorageCleanup id fence ttl => exact keeps (claimStorageCleanup_ok h).2
  | renewStorageCleanup work ttl => exact keeps (renewStorageCleanup_ok h).2
  | beginStorageCleanup work known => exact keeps (beginStorageCleanup_ok h).2
  | completeStorageCleanup work outcome reason scan =>
    simp only [Storage.perform, completeStorageCleanup, bind_eq_ok, Prod.exists] at h
    obtain ⟨ops, o, -, h⟩ := h
    split_ifs at h
    · have hmoves := releaseDeletedStorageContent_images h
      exact .inl hmoves
    · rw [pure_eq_ok] at h
      exact keeps (h ▸ rfl)

/-! ### Runs -/

/-- Two rows of the table of images. -/
def ImageGeneration.Excludes (g h : ImageGeneration δ) : Prop :=
  g.id ≠ h.id ∧ (g.key = h.key → ¬ (g.active = true ∧ h.active = true))

instance : Std.Symm (ImageGeneration.Excludes (δ := δ)) :=
  ⟨fun _ _ h => ⟨h.1.symm, fun hkey hactive => h.2 hkey.symm hactive.symm⟩⟩

/-- The latest end of a lease: half an hour after the last valid time. -/
def leaseBound : ℤ := 253370764800 * Rfc3339.second + 1800000000000

/-- What holds of the images of every reachable state. -/
structure Storage.Preloads (s : Storage δ) : Prop where
  exclusive : s.images.Pairwise ImageGeneration.Excludes
  lease : ∀ g ∈ s.images, 0 ≤ g.leaseUntil ∧ g.leaseUntil < leaseBound

omit [DecidableEq δ] in
theorem ImageGeneration.Moves.excludes {g g' h h' : ImageGeneration δ} (hg : g.Moves g')
    (hh : h.Moves h') (hex : g.Excludes h) : g'.Excludes h' := by
  refine ⟨?_, fun hkey hactive => ?_⟩
  · rw [hg.id, hh.id]
    exact hex.1
  · rw [hg.key, hh.key] at hkey
    exact hex.2 hkey ⟨hg.active hactive.1, hh.active hactive.2⟩

omit [DecidableEq δ] in
theorem Storage.Preloads.moves {images : List (ImageGeneration δ)} (hs : s.Preloads)
    (h : List.Forall₂ ImageGeneration.Moves s.images images) :
    images.Pairwise ImageGeneration.Excludes ∧ ∀ g ∈ images, 0 ≤ g.leaseUntil ∧
      g.leaseUntil < leaseBound := by
  refine ⟨Rows.pairwise_of_forall₂ h hs.exclusive fun _ _ _ _ => ImageGeneration.Moves.excludes,
    fun g' hg' => ?_⟩
  obtain ⟨g, hg, hmove⟩ := Rows.exists_old h hg'
  rw [hmove.lease]
  exact hs.lease g hg

theorem Storage.step_perform {tx : StorageTx δ} (h : s.step D tx = some t) :
    ∃ now u next, validTime now = true ∧ s.perform D now tx.request = .ok u ∧
      t = { u with floor := next } := by
  have htx := toOption_eq_some h
  simp only [Storage.transact, bind_eq_ok, pure_eq_ok, Prod.exists] at htx
  obtain ⟨now, next, hwrite, u, hu, rfl⟩ := htx
  exact ⟨now, u, next, (write_eq_ok hwrite).2.2.2, hu, rfl⟩

theorem Storage.Preloads.step {tx : StorageTx δ} (hs : s.Preloads) (h : s.step D tx = some t) :
    t.Preloads := by
  obtain ⟨now, u, next, hnow, hu, rfl⟩ := Storage.step_perform h
  rcases perform_images hu with hmoves | ⟨g, hg⟩
  · obtain ⟨hexclusive, hlease⟩ := hs.moves hmoves
    exact ⟨hexclusive, hlease⟩
  · obtain ⟨hexclusive, hlease⟩ := hs.moves (retireExpired_moves g.key now)
    obtain ⟨hlo, hhi⟩ := (validTime_iff now).mp hnow
    refine ⟨?_, fun h hh => ?_⟩
    · rw [hg.images]
      refine List.pairwise_append.mpr ⟨hexclusive, List.pairwise_singleton _ _,
        fun h hh g' hg' => ?_⟩
      obtain rfl := List.mem_singleton.mp hg'
      refine ⟨hg.fresh h hh, fun hkey hactive => ?_⟩
      rw [hg.only h hh hkey] at hactive
      exact absurd hactive.1 (by decide)
    · rw [hg.images] at hh
      rcases List.mem_append.mp hh with hh | hh
      · exact hlease h hh
      · obtain rfl := List.mem_singleton.mp hh
        rw [hg.lease, leaseBound]
        omega

omit [DecidableEq δ] in
theorem Storage.Preloads.empty : ({} : Storage δ).Preloads := ⟨.nil, by simp⟩

theorem preloads_run (D : Digests δ) (txs : List (StorageTx δ)) :
    (Run.run (Storage.step D) {} txs).Preloads :=
  Run.run_invariant .empty (fun _ _ _ => Storage.Preloads.step) txs

/-! ### Elections -/

omit [DecidableEq δ] in
theorem Storage.Preloads.eq_of_id (hs : s.Preloads) {g h : ImageGeneration δ} (hg : g ∈ s.images)
    (hh : h ∈ s.images) (hid : g.id = h.id) : g = h := by
  by_contra hne
  exact (hs.exclusive.forall hg hh hne).1 hid

omit [DecidableEq δ] in
theorem Storage.Preloads.eq_of_active (hs : s.Preloads) {g h : ImageGeneration δ}
    (hg : g ∈ s.images)
    (hh : h ∈ s.images) (hkey : g.key = h.key) (hactive : g.active = true ∧ h.active = true) :
    g = h := by
  by_contra hne
  exact (hs.exclusive.forall hg hh hne).2 hkey hactive

/-- `BeginImageLoad` of the archive a generation is keyed by goes ahead when the generation is
elected and no cleanup fences its content. -/
theorem beginImageLoad_isOk_iff (hs : s.Preloads) {g : ImageGeneration δ} (hg : g ∈ s.images)
    {content : List UInt8} {store : ImageStore} {rest : String} {layers : List String} :
    (∃ t, beginImageLoad D s g.id content store rest layers now = .ok t) ↔
      (g.key.bytes = content.length ∧ D.sha256 (.archive content) = g.key.sha256) ∧
        g.elected now = true ∧ storageContentFenced s .image g.key = false := by
  have hid : ∀ x ∈ s.images, decide (x.id = g.id) = true ↔ x = g := by
    intro x hx
    rw [decide_eq_true_eq]
    exact ⟨hs.eq_of_id hx hg, fun h => h ▸ rfl⟩
  have hload := Rows.edit_isOk_iff (f := loadedImage D s content store rest layers now)
    (e := .imageState) hg hid
  calc
    (∃ t, beginImageLoad D s g.id content store rest layers now = .ok t)
      ↔ ∃ r, Rows.edit (fun g' : ImageGeneration δ => g'.id = g.id)
          (loadedImage D s content store rest layers now) .imageState s.images = .ok r := by
        simp only [beginImageLoad, onImage, bind_eq_ok, pure_eq_ok]
        constructor
        · rintro ⟨_, r, hr, _⟩
          exact ⟨r, hr⟩
        · rintro ⟨r, hr⟩
          exact ⟨_, r, hr, rfl⟩
    _ ↔ ∃ r, loadedImage D s content store rest layers now g = .ok r := hload
    _ ↔ _ := by
        simp only [loadedImage, bind_eq_ok, require_eq_ok, pure_eq_ok, decide_eq_true_eq,
          Bool.not_eq_true']
        constructor
        · rintro ⟨_, _, hbytes, _, hsha, _, helected, _, hfenced, -⟩
          exact ⟨⟨hbytes, hsha⟩, helected, hfenced⟩
        · rintro ⟨⟨hbytes, hsha⟩, helected, hfenced⟩
          exact ⟨_, (), hbytes, (), hsha, (), helected, (), hfenced, rfl⟩

omit [DecidableEq δ] in
/-- The election is the comparison of the instants but where one of the two texts ends in the
other. -/
theorem Storage.Preloads.elected_iff (hs : s.Preloads) {g : ImageGeneration δ} (hg : g ∈ s.images)
    (hstate : g.state = .preparing) (hnow : validTime now = true) :
    (g.elected now = true ↔ now < g.leaseUntil) ↔
      ¬ Rfc3339.Clips now g.leaseUntil ∧ ¬ Rfc3339.Clips g.leaseUntil now := by
  obtain ⟨hlo, hhi⟩ := (validTime_iff now).mp hnow
  obtain ⟨hleaselo, hleasehi⟩ := hs.lease g hg
  have hyear := Rfc3339.year_mem_of_lt hlo (hhi.trans (by decide))
  have hlease := Rfc3339.year_mem_of_lt hleaselo (hleasehi.trans (by decide))
  have helected : g.elected now = true ↔
      now < g.leaseUntil ∧ ¬ Rfc3339.Clips now g.leaseUntil ∨ Rfc3339.Clips g.leaseUntil now := by
    rw [ImageGeneration.elected, Bool.and_eq_true, decide_eq_true_eq, decide_eq_true_eq,
      Rfc3339.formatNano_lt_iff hyear hlease]
    exact and_iff_right hstate
  rw [helected]
  constructor
  · intro h
    refine ⟨fun hclips => ?_, fun hclips => ?_⟩
    · rcases h.mpr hclips.lt with ⟨-, hnot⟩ | hback
      · exact hnot hclips
      · exact absurd hback.lt hclips.lt.not_gt
    · exact absurd (h.mp (.inr hclips)) hclips.lt.not_gt
  · rintro ⟨h1, h2⟩
    simp [h1, h2]

/-- `ClaimImage` keeps the preparation of its key while its lease lasts. -/
theorem Storage.Preloads.mem_claimImage_iff (hs : s.Preloads) {g : ImageGeneration δ}
    (hg : g ∈ s.images)
    (hstate : g.state = .preparing) {owner : PinOwner} {objectID id operationID : String}
    (h : claimImage s owner objectID g.key id operationID now = .ok t) :
    g ∈ t.images ↔ now < g.leaseUntil := by
  have hactive : g.active = true := by simp [ImageGeneration.active, hstate]
  rcases claimImage_prepares h with ⟨rfl, g', hg', hkey, hone⟩ | ⟨new, hkey, hnew⟩
  · refine iff_of_true hg ?_
    obtain ⟨old, hold, rfl⟩ := List.mem_map.mp hg'
    split_ifs at hkey hone with hexpired
    · exact absurd hone (by simp [ImageGeneration.active])
    · obtain rfl := hs.eq_of_active hold hg hkey ⟨hone, hactive⟩
      simpa [ImageGeneration.expired, hstate] using hexpired
  · -- a new generation is prepared: the lease of the old one is over
    have hrow : (if g.key = new.key && g.expired now then { g with state := .retired } else g) ∈
        retireExpired s new.key now := List.mem_map.mpr ⟨g, hg, rfl⟩
    refine iff_of_false (fun hmem => ?_) (fun hlt => ?_)
    · rw [hnew.images] at hmem
      rcases List.mem_append.mp hmem with hmem | hmem
      · rw [hnew.only g hmem hkey.symm] at hactive
        cases hactive
      · obtain rfl := List.mem_singleton.mp hmem
        refine hnew.fresh _ hrow ?_
        split_ifs <;> rfl
    · rw [if_neg (by simp [ImageGeneration.expired, hlt])] at hrow
      rw [hnew.only g hrow hkey.symm] at hactive
      cases hactive

/-- The transaction is a load of the generation. -/
def StorageTx.begins (id : String) (tx : StorageTx δ) : Bool :=
  match tx.request with
  | .beginImageLoad g .. => g = id
  | _ => false

/-- A generation has left its preparation. -/
def Storage.Prepared (s : Storage δ) (id : String) : Prop :=
  ∃ g ∈ s.images, g.id = id ∧ g.state ≠ .preparing

theorem Storage.Prepared.step {tx : StorageTx δ} {id : String} (hs : s.Prepared id)
    (h : s.step D tx = some t) : t.Prepared id := by
  obtain ⟨now, u, next, -, hu, rfl⟩ := Storage.step_perform h
  obtain ⟨g, hg, hid, hstate⟩ := hs
  have kept {images : List (ImageGeneration δ)}
      (hmoves : List.Forall₂ ImageGeneration.Moves s.images images) :
      ∃ g' ∈ images, g'.id = id ∧ g'.state ≠ .preparing := by
    obtain ⟨g', hg', hmove⟩ := Rows.exists_new hmoves hg
    exact ⟨g', hg', hmove.id.trans hid, fun hp => hstate (hmove.preparing hp)⟩
  rcases perform_images hu with hmoves | ⟨new, hnew⟩
  · exact kept hmoves
  · obtain ⟨g', hg', hprepared⟩ := kept (retireExpired_moves new.key now)
    refine ⟨g', ?_, hprepared⟩
    rw [hnew.images]
    exact List.mem_append_left _ hg'

theorem Storage.Preloads.begins {tx : StorageTx δ} {id : String} (hs : s.Preloads)
    (h : s.step D tx = some t) (hbegins : tx.begins id = true) :
    ¬ s.Prepared id ∧ t.Prepared id := by
  obtain ⟨now, u, next, -, hu, rfl⟩ := Storage.step_perform h
  obtain ⟨wall, request⟩ := tx
  cases request with
  | beginImageLoad i content store rest layers =>
    obtain rfl : i = id := by simpa [StorageTx.begins] using hbegins
    simp only [Storage.perform, beginImageLoad, onImage, bind_eq_ok, pure_eq_ok, Prod.exists] at hu
    obtain ⟨images, v, he, rfl⟩ := hu
    obtain ⟨pre, g, g', post, hpre, hid, hload, rfl⟩ := Rows.edit_eq_ok he
    rw [decide_eq_true_eq] at hid
    have hg : g ∈ s.images := by simp [hpre]
    have hmove : g'.id = g.id := (loadedImage_moves hload).id
    obtain ⟨-, hprep, hstate, -⟩ := loadedImage_ok hload
    refine ⟨?_, g', by simp, hmove.trans hid, by rw [hstate]; decide⟩
    rintro ⟨h, hh, hhid, hnot⟩
    apply hnot
    rwa [hs.eq_of_id hh hg (hhid.trans hid.symm)]
  | _ => cases hbegins

/-- At one time, the lease of a preparation is judged by `BeginImageLoad` as it is by
`ClaimImage`. -/
def Storage.Agrees (s : Storage δ) (g : ImageGeneration δ) (now : ℤ) : Prop :=
  (g.elected now = true ↔ now < g.leaseUntil) ∧
    ∀ owner objectID id operationID t,
      claimImage s owner objectID g.key id operationID now = .ok t →
        (g.elected now = true ↔ g ∈ t.images)

theorem Storage.Preloads.agrees_iff (hs : s.Preloads) {g : ImageGeneration δ} (hg : g ∈ s.images)
    (hstate : g.state = .preparing) (hnow : validTime now = true) :
    s.Agrees g now ↔ ¬ Rfc3339.Clips now g.leaseUntil ∧ ¬ Rfc3339.Clips g.leaseUntil now := by
  rw [← hs.elected_iff hg hstate hnow]
  refine ⟨fun h => h.1, fun h => ⟨h, fun owner objectID id operationID t hclaim => ?_⟩⟩
  rw [h, hs.mem_claimImage_iff hg hstate hclaim]

/-- **Image preload leases.** In every run the load of a generation is elected as its lease says,
and as `ClaimImage` keeps it, exactly while neither of the two times ends, in its second, where the
fraction of the other goes on. Each generation is elected at most once, and each key has at most one
active generation. -/
theorem image_preload_leases (D : Digests δ) (txs : List (StorageTx δ)) :
    let s := Run.run (Storage.step D) {} txs
    (∀ g ∈ s.images, g.state = .preparing → ∀ now, validTime now = true →
      (s.Agrees g now ↔ ¬ Rfc3339.Clips now g.leaseUntil ∧ ¬ Rfc3339.Clips g.leaseUntil now)) ∧
    (∀ g ∈ s.images, ∀ now content store rest layers,
      (∃ t, beginImageLoad D s g.id content store rest layers now = .ok t) ↔
        (g.key.bytes = content.length ∧ D.sha256 (.archive content) = g.key.sha256) ∧
          g.elected now = true ∧ storageContentFenced s .image g.key = false) ∧
    (∀ id, (Run.accepted (Storage.step D) {} txs).countP (StorageTx.begins id) ≤ 1) ∧
    s.images.Pairwise (fun g h => g.key = h.key → ¬ (g.active = true ∧ h.active = true)) := by
  have hs := preloads_run D txs
  refine ⟨fun g hg hstate now hnow => hs.agrees_iff hg hstate hnow,
    fun g hg now content store rest layers => beginImageLoad_isOk_iff hs hg, fun id => ?_,
    hs.exclusive.imp fun h => h.2⟩
  have hcount := Run.accepted_countP_le_one_of (p := StorageTx.begins id)
    (P := Storage.Preloads) (q := (Storage.Prepared · id)) .empty
    (fun _ _ _ => .step) (fun s tx u hs (h : Storage.step D s tx = some u) => hs.begins h)
    (fun _ _ _ _ h hq => hq.step h) txs
  exact hcount.1

/-- A preparation is claimed at a whole second; its lease ends at one. -/
def samplePreload : List (StorageTx Term) :=
  [⟨1700000000000000000,
      .pinAdmission (sampleImageOwner "a") sampleKey.scope [] (some (.archive [1], 1, "obj_1"))⟩,
    ⟨1700000000000000000, .claimImage (sampleImageOwner "a") "obj_1" sampleKey "img_1" "imload_1"⟩]

def samplePreparation : ImageGeneration Term :=
  { id := "img_1"
    key := sampleKey
    operationID := "imload_1"
    owner := sampleImageOwner "a"
    objectID := "obj_1"
    leaseUntil := 1700001800000000000 }

theorem samplePreload_prepares :
    samplePreparation ∈ (Run.run (Storage.step .terms) {} samplePreload).images := by
  decide +kernel

theorem preload_lease_agrees_before :
    (Run.run (Storage.step .terms) {} samplePreload).Agrees samplePreparation 1700001799500000000 :=
  ((image_preload_leases .terms samplePreload).1 samplePreparation samplePreload_prepares rfl
    1700001799500000000 (by decide)).mpr (by decide)

/-- Half a second after the end of the lease the preparation is still elected, while `ClaimImage`
retires it. -/
theorem elected_after_lease :
    samplePreparation.leaseUntil < 1700001800500000000 ∧
      (Run.run (Storage.step .terms) {}
        (samplePreload ++
          [⟨1700001800500000000, .beginImageLoad "img_1" [1] .classic "" []⟩])).images.map
          (·.state) = [.loading] ∧
      (Run.run (Storage.step .terms) {}
        (samplePreload ++ [⟨1700001800500000000,
          .claimImage (sampleImageOwner "a") "obj_1" sampleKey "img_2" "imload_2"⟩])).images.map
          (·.state) = [.retired, .preparing] := by
  decide +kernel

end Store
end ComputeRelay
