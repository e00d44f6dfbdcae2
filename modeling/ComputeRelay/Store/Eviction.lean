import Mathlib.Tactic
import ComputeRelay.Lib.Deletion
import ComputeRelay.Store.Storage

/-!
# An eviction never races a new user of the content

The tables on the content of hosts are an instance of `Deletion.Fence`, once for caches and once for
application images: keys own the volumes or images of their generations, pins hold keys, and an
object is doomed while an eviction of it is open.

* `Storage.Pins`, `Storage.Operates` and `Storage.Binds` are the three things a transaction can do,
  and `storage_perform_change` says that there is no other.
* `applicationImageID_labels`: an image belongs to one archive, since its identity is a digest of a
  config that names the archive.
* `good_run` carries the fence over the runs among whose documents SHA-256 has no collision, and
  `eviction_excludes_pins` is the main result.
-/

namespace ComputeRelay
namespace Store

open Domain Provider Scheduler Dispatch Fallible

set_option linter.unusedSectionVars false

variable {δ : Type} [DecidableEq δ]

/-! ### The fence of a class -/

/-- The generations of a class: a key owns an object of its own scope. -/
def Storage.Owns (s : Storage δ) (c : ContentClass) (k : ContentKey δ)
    (o : StorageScope × StorageObject δ) : Prop :=
  (k, o.2) ∈ s.contents c ∧ o.1 = k.scope

def ContentClass.eviction : ContentClass → StorageAction
  | .cache => .evictCache
  | .image => .evictImage

theorem ContentClass.eviction_inj {c d : ContentClass} (h : c.eviction = d.eviction) : c = d := by
  cases c <;> cases d <;> first | rfl | cases h

/-- An eviction of the object is open. -/
def Storage.Doomed (s : Storage δ) (c : ContentClass) (o : StorageScope × StorageObject δ) : Prop :=
  ∃ p ∈ s.operations, p.action = c.eviction ∧ p.scope = o.1 ∧ p.object = o.2 ∧ p.isOpen = true

def Storage.Fenced (s : Storage δ) (c : ContentClass) : Prop :=
  Deletion.Fence (s.Owns c) (· ∈ s.pinned c) (s.Doomed c)

/-- What passes the check of the source has no object that is doomed. -/
theorem not_doomed_of_unfenced {s : Storage δ} {c : ContentClass} {k : ContentKey δ}
    (h : storageContentFenced s c k = false) {o : StorageScope × StorageObject δ}
    (ho : s.Owns c k o) : ¬ s.Doomed c o := by
  rintro ⟨p, hp, -, hscope, hobject, hopen⟩
  simp only [storageContentFenced, List.any_eq_false, Bool.and_eq_true, decide_eq_true_eq,
    not_and] at h
  refine h _ ho.1 rfl ?_
  simp only [List.any_eq_true, Bool.and_eq_true, decide_eq_true_eq]
  exact ⟨p, hp, ⟨hscope.trans ho.2, hobject⟩, hopen⟩

/-! ### What a transaction can do -/

/-- A result that is running belongs to a worker that is running. -/
def StorageOperation.Sound (o : StorageOperation δ) : Prop :=
  o.result = .running → o.status = .running

/-- What a worker does to an operation: the target stays, and what was settled stays settled. -/
structure StorageOperation.Advances (o o' : StorageOperation δ) : Prop where
  action : o'.action = o.action
  scope : o'.scope = o.scope
  object : o'.object = o.object
  opened : o'.isOpen = true → o.isOpen = true
  sound : o.Sound → o'.Sound

/-- Every operation of `t` continues one of `s`, or opens an eviction of idle content, or is not an
eviction. -/
def Storage.Continues (s t : Storage δ) : Prop :=
  ∀ p ∈ t.operations, (∃ o ∈ s.operations, o.Advances p) ∨
    p.Sound ∧ ∀ c : ContentClass, p.action = c.eviction →
      ∃ k, s.Owns c k (p.scope, p.object) ∧ k ∉ s.pinned c

theorem StorageOperation.Advances.refl (o : StorageOperation δ) : o.Advances o :=
  ⟨rfl, rfl, rfl, fun h => h, fun h => h⟩

theorem Storage.Continues.of_eq {s t : Storage δ} (h : t.operations = s.operations) :
    s.Continues t :=
  fun p hp => Or.inl ⟨p, h ▸ hp, .refl p⟩

/-- Pins are released, or taken on content that is not fenced. -/
structure Storage.Pins (s t : Storage δ) : Prop where
  caches : t.caches = s.caches
  images : t.images = s.images
  operations : t.operations = s.operations
  pinned : ∀ c k, k ∈ t.pinned c → k ∈ s.pinned c ∨ storageContentFenced s c k = false

/-- The generations keep their objects and the pins stay, while operations go on. -/
structure Storage.Operates (s t : Storage δ) : Prop where
  contents : ∀ c, t.contents c = s.contents c
  pinned : ∀ c, t.pinned c = s.pinned c
  continues : s.Continues t

/-- A generation of `k` gets an object that no other key owns. -/
structure Storage.Binds (s t : Storage δ) (c : ContentClass) (k : ContentKey δ)
    (o : StorageObject δ) : Prop where
  contents : ∀ d e, e ∈ t.contents d ↔ e ∈ s.contents d ∨ d = c ∧ e = (k, o)
  pinned : ∀ d, t.pinned d = s.pinned d
  operations : t.operations = s.operations
  sole : ∀ k', s.Owns c k' (k.scope, o) → k' = k

section Fence

variable {s t u : Storage δ} {c d : ContentClass}

theorem Storage.contents_congr (hc : t.caches = s.caches) (hi : t.images = s.images)
    (c : ContentClass) : t.contents c = s.contents c := by
  cases c
  · simp only [Storage.contents, hc]
  · simp only [Storage.contents, hi]

theorem Storage.pinned_congr (hc : t.cachePins = s.cachePins) (hi : t.imagePins = s.imagePins)
    (c : ContentClass) : t.pinned c = s.pinned c := by
  cases c
  · simp only [Storage.pinned, hc]
  · simp only [Storage.pinned, hi]

theorem Storage.Pins.contents (h : s.Pins t) (c : ContentClass) : t.contents c = s.contents c :=
  contents_congr h.caches h.images c

theorem Storage.Pins.fenced (h : s.Pins t) (c : ContentClass) (k : ContentKey δ) :
    storageContentFenced t c k = storageContentFenced s c k := by
  simp only [storageContentFenced, h.contents, h.operations]

theorem Storage.Pins.refl (s : Storage δ) : s.Pins s := ⟨rfl, rfl, rfl, fun _ _ => Or.inl⟩

theorem Storage.Pins.trans (h : s.Pins t) (h' : t.Pins u) : s.Pins u where
  caches := h'.caches.trans h.caches
  images := h'.images.trans h.images
  operations := h'.operations.trans h.operations
  pinned c k hk := by
    rcases h'.pinned c k hk with hk | hk
    · exact h.pinned c k hk
    · exact Or.inr ((h.fenced c k).symm.trans hk)

theorem Storage.Fenced.pins (hf : s.Fenced c) (h : s.Pins t) : t.Fenced c := by
  have howns : t.Owns c = s.Owns c := by
    funext k o
    simp only [Storage.Owns, h.contents]
  have hdoomed : t.Doomed c = s.Doomed c := by
    funext o
    simp only [Storage.Doomed, h.operations]
  unfold Storage.Fenced at *
  rw [howns, hdoomed]
  refine hf.hold fun k hk => ?_
  rcases h.pinned c k hk with hk | hk
  · exact Or.inl hk
  · exact Or.inr fun o => not_doomed_of_unfenced hk

theorem Storage.Fenced.operates (hf : s.Fenced c) (h : s.Operates t) : t.Fenced c := by
  have howns : t.Owns c = s.Owns c := by
    funext k o
    simp only [Storage.Owns, h.contents]
  unfold Storage.Fenced at *
  rw [howns, h.pinned]
  refine hf.doom fun o => ?_
  rintro ⟨p, hp, haction, hscope, hobject, hopen⟩
  rcases h.continues p hp with ⟨q, hq, hadv⟩ | ⟨-, hnew⟩
  · exact Or.inl ⟨q, hq, hadv.action ▸ haction, hadv.scope ▸ hscope, hadv.object ▸ hobject,
      hadv.opened hopen⟩
  · obtain ⟨k, hk⟩ := hnew c haction
    rw [hscope, hobject] at hk
    exact Or.inr ⟨k, hk⟩

theorem Storage.Fenced.binds {k : ContentKey δ} {o : StorageObject δ} (hf : s.Fenced c)
    (h : s.Binds t d k o) : t.Fenced c := by
  have hdoomed : t.Doomed c = s.Doomed c := by
    funext o
    simp only [Storage.Doomed, h.operations]
  unfold Storage.Fenced at *
  rw [hdoomed, h.pinned]
  by_cases hcd : c = d
  · subst hcd
    refine hf.own (a := k) (b := (k.scope, o)) (fun k' o' => ?_) h.sole
    simp only [Storage.Owns, h.contents, true_and, Prod.ext_iff]
    constructor
    · rintro ⟨hmem | ⟨rfl, ho⟩, hscope⟩
      · exact Or.inl ⟨hmem, hscope⟩
      · exact Or.inr ⟨rfl, hscope, ho⟩
    · rintro (⟨hmem, hscope⟩ | ⟨rfl, hscope, ho⟩)
      · exact ⟨Or.inl hmem, hscope⟩
      · exact ⟨Or.inr ⟨rfl, ho⟩, hscope⟩
  · have howns : t.Owns c = s.Owns c := by
      funext k' o'
      simp only [Storage.Owns, h.contents, hcd, false_and, or_false]
    rw [howns]
    exact hf

end Fence

/-! ### Pins -/

section Pins

variable {s t : Storage δ} {owner : PinOwner} {k : ContentKey δ}

theorem insertCachePin_pins (h : insertCachePin s owner k = .ok t) : s.Pins t := by
  simp only [insertCachePin, bind_eq_ok, require_eq_ok, pure_eq_ok, Bool.not_eq_true'] at h
  obtain ⟨-, -, -, hfree, rfl⟩ := h
  refine ⟨rfl, rfl, rfl, fun c k' hk => ?_⟩
  cases c with
  | cache =>
    simp only [Storage.pinned, List.filter_append, List.map_append, List.mem_append] at hk
    rcases hk with hk | hk
    · exact Or.inl hk
    · obtain rfl : k' = k := by simpa using hk
      exact Or.inr hfree
  | image => exact Or.inl hk

theorem insertImagePin_pins {objectID : String} (h : insertImagePin s owner k objectID = .ok t) :
    s.Pins t := by
  simp only [insertImagePin, bind_eq_ok, require_eq_ok, pure_eq_ok, Bool.not_eq_true'] at h
  obtain ⟨-, -, -, hfree, rfl⟩ := h
  refine ⟨rfl, rfl, rfl, fun c k' hk => ?_⟩
  cases c with
  | cache => exact Or.inl hk
  | image =>
    simp only [Storage.pinned, List.filter_append, List.map_append, List.mem_append] at hk
    rcases hk with hk | hk
    · exact Or.inl hk
    · obtain rfl : k' = k := by simpa using hk
      exact Or.inr hfree

theorem pinCaches_pins {ks : List (ContentKey δ)} (h : pinCaches s owner ks = .ok t) :
    s.Pins t := by
  induction ks generalizing s with
  | nil =>
    rw [pinCaches, pure_eq_ok] at h
    exact h ▸ .refl s
  | cons k ks ih =>
    simp only [pinCaches, bind_eq_ok] at h
    obtain ⟨-, -, u, hu, h⟩ := h
    exact (insertCachePin_pins hu).trans (ih h)

theorem copyCachePins_pins {ps : List (CachePin δ)} (h : copyCachePins s owner ps = .ok t) :
    s.Pins t := by
  induction ps generalizing s with
  | nil =>
    rw [copyCachePins, pure_eq_ok] at h
    exact h ▸ .refl s
  | cons p ps ih =>
    simp only [copyCachePins, bind_eq_ok] at h
    obtain ⟨u, hu, h⟩ := h
    exact (insertCachePin_pins hu).trans (ih h)

theorem copyImagePins_pins {ps : List (ImagePin δ)} (h : copyImagePins s owner ps = .ok t) :
    s.Pins t := by
  induction ps generalizing s with
  | nil =>
    rw [copyImagePins, pure_eq_ok] at h
    exact h ▸ .refl s
  | cons p ps ih =>
    simp only [copyImagePins, bind_eq_ok] at h
    obtain ⟨u, hu, h⟩ := h
    exact (insertImagePin_pins hu).trans (ih h)

theorem pinAdmission_pins {scope : StorageScope} {refs : List (δ × ℤ)}
    {image : Option (δ × ℤ × String)} (h : pinAdmission s owner scope refs image = .ok t) :
    s.Pins t := by
  simp only [pinAdmission, pinHostCacheAdmission, bind_eq_ok] at h
  obtain ⟨u, hu, h⟩ := h
  refine (pinCaches_pins hu).trans ?_
  cases image with
  | none =>
    rw [pinHostApplicationImageAdmission, pure_eq_ok] at h
    exact h ▸ .refl u
  | some r =>
    simp only [pinHostApplicationImageAdmission, bind_eq_ok] at h
    obtain ⟨-, -, h⟩ := h
    exact insertImagePin_pins h

theorem pinRetry_pins {old new : PinOwner} (h : pinRetry s old new = .ok t) : s.Pins t := by
  simp only [pinRetry, pinHostCacheRetry, pinHostApplicationImageRetry, bind_eq_ok] at h
  obtain ⟨u, ⟨-, -, hu⟩, h⟩ := h
  exact (copyCachePins_pins hu).trans (copyImagePins_pins h)

/-- Pins are released for good: rows whose `released` only goes up hold no new key. -/
theorem mem_unreleased {α : Type} {released : α → Bool} {key : α → ContentKey δ} {f : α → α}
    {l : List α} (hkey : ∀ a, key (f a) = key a)
    (hrel : ∀ a, released (f a) = false → released a = false)
    (hk : k ∈ ((l.map f).filter fun a => !released a).map key) :
    k ∈ (l.filter fun a => !released a).map key := by
  simp only [List.mem_map, List.mem_filter, Bool.not_eq_true'] at hk ⊢
  obtain ⟨-, ⟨⟨a, ha, rfl⟩, hr⟩, rfl⟩ := hk
  exact ⟨a, ⟨ha, hrel a hr⟩, (hkey a).symm⟩

theorem releaseHostCachePins_pins : s.Pins (releaseHostCachePins s owner) := by
  refine ⟨rfl, rfl, rfl, fun c k hk => Or.inl ?_⟩
  cases c with
  | cache =>
    refine mem_unreleased (fun p => ?_) (fun p hp => ?_) hk
    · split_ifs <;> rfl
    · by_cases ho : p.owner = owner
      · simp [ho] at hp
      · simpa [ho] using hp
  | image => exact hk

theorem releaseHostApplicationImagePins_pins :
    s.Pins (releaseHostApplicationImagePins s owner) := by
  refine ⟨rfl, rfl, rfl, fun c k hk => Or.inl ?_⟩
  cases c with
  | cache => exact hk
  | image =>
    refine mem_unreleased (fun p => ?_) (fun p hp => ?_) hk
    · split_ifs <;> rfl
    · by_cases ho : p.owner = owner
      · simp [ho] at hp
      · simpa [ho] using hp

end Pins

/-! ### Generations -/

section Generations

variable {D : Digests δ} {s t : Storage δ} {owner : PinOwner} {k : ContentKey δ} {id : String}

/-- New rows of generations with the old objects. -/
theorem Storage.Operates.of_contents (hcontents : ∀ c, t.contents c = s.contents c)
    (hcache : t.cachePins = s.cachePins) (himage : t.imagePins = s.imagePins)
    (hops : t.operations = s.operations) : s.Operates t where
  contents := hcontents
  pinned := pinned_congr hcache himage
  continues := .of_eq hops

theorem Storage.Operates.refl (s : Storage δ) : s.Operates s :=
  .of_contents (fun _ => rfl) rfl rfl rfl

/-- An update of a generation that keeps its key and its volume. -/
theorem onCache_operates {f : CacheGeneration δ → Except Err (CacheGeneration δ × Unit)}
    (h : onCache s id f = .ok t)
    (hf : ∀ g g' u, f g = .ok (g', u) → g'.key = g.key ∧ g'.volumeName = g.volumeName) :
    s.Operates t ∧ t.images = s.images := by
  simp only [onCache, bind_eq_ok, pure_eq_ok, Prod.exists] at h
  obtain ⟨caches, u, he, rfl⟩ := h
  obtain ⟨pre, g, g', post, hpre, -, hg, rfl⟩ := Rows.edit_eq_ok he
  obtain ⟨hkey, hvol⟩ := hf g g' u hg
  refine ⟨.of_contents (fun c => ?_) rfl rfl rfl, rfl⟩
  cases c with
  | cache => simp [Storage.contents, hpre, hkey, hvol]
  | image => rfl

/-- An update of a generation that keeps its key and its image. -/
theorem onImage_operates {f : ImageGeneration δ → Except Err (ImageGeneration δ × Unit)}
    (h : onImage s id f = .ok t)
    (hf : ∀ g g' u, f g = .ok (g', u) →
      g'.key = g.key ∧ g'.expectedImageID = g.expectedImageID) : s.Operates t := by
  simp only [onImage, bind_eq_ok, pure_eq_ok, Prod.exists] at h
  obtain ⟨images, u, he, rfl⟩ := h
  obtain ⟨pre, g, g', post, hpre, -, hg, rfl⟩ := Rows.edit_eq_ok he
  obtain ⟨hkey, himg⟩ := hf g g' u hg
  refine .of_contents (fun c => ?_) rfl rfl rfl
  cases c with
  | cache => rfl
  | image => simp [Storage.contents, hpre, List.filterMap_cons, hkey, himg]

theorem beginWrite_ok (h : beginWrite s owner id = .ok t) :
    s.Operates t ∧ t.images = s.images := by
  refine onCache_operates h fun g g' u hg => ?_
  simp only [bind_eq_ok, pure_eq_ok, Prod.mk.injEq] at hg
  obtain ⟨-, -, -, -, -, -, rfl, -⟩ := hg
  exact ⟨rfl, rfl⟩

theorem finishWrite_ok (h : finishWrite s owner id = .ok t) :
    s.Operates t ∧ t.images = s.images := by
  refine onCache_operates h fun g g' u hg => ?_
  simp only [bind_eq_ok, pure_eq_ok, Prod.mk.injEq] at hg
  obtain ⟨-, -, -, -, rfl, -⟩ := hg
  exact ⟨rfl, rfl⟩

theorem verifyCache_ok (h : verifyCache s id = .ok t) :
    s.Operates t ∧ t.images = s.images := by
  refine onCache_operates h fun g g' u hg => ?_
  split at hg
  · simp only [pure_eq_ok, Prod.mk.injEq] at hg
    obtain ⟨rfl, -⟩ := hg
    exact ⟨rfl, rfl⟩
  · cases hg
  · simp only [bind_eq_ok, pure_eq_ok, Prod.mk.injEq] at hg
    obtain ⟨-, -, rfl, -⟩ := hg
    exact ⟨rfl, rfl⟩

theorem retireCache_ok (h : retireCache s id = .ok t) :
    s.Operates t ∧ t.images = s.images := by
  refine onCache_operates h fun g g' u hg => ?_
  simp only [bind_eq_ok, pure_eq_ok, Prod.mk.injEq] at hg
  obtain ⟨-, -, rfl, -⟩ := hg
  exact ⟨rfl, rfl⟩

theorem moveImage_operates {allowed : ImageState → Bool} {next : ImageState}
    (h : moveImage s id allowed next = .ok t) : s.Operates t := by
  refine onImage_operates h fun g g' u hg => ?_
  simp only [bind_eq_ok, pure_eq_ok, Prod.mk.injEq] at hg
  obtain ⟨-, -, rfl, -⟩ := hg
  exact ⟨rfl, rfl⟩

/-- A new generation of a cache has a volume of its own. -/
theorem claimCache_cases {operationID : String} (h : claimCache s owner k id operationID = .ok t) :
    t = s ∨ s.Binds t .cache k (.volume ("relay-cache-" ++ id)) := by
  simp only [claimCache, bind_eq_ok] at h
  obtain ⟨-, -, h⟩ := h
  split_ifs at h with hactive
  · rw [pure_eq_ok] at h
    exact Or.inl h.symm
  · simp only [bind_eq_ok, require_eq_ok, pure_eq_ok, List.all_eq_true, Bool.and_eq_true,
      decide_eq_true_eq] at h
    obtain ⟨-, hfresh, rfl⟩ := h
    refine Or.inr ⟨fun d e => ?_, fun _ => rfl, rfl, fun k' hk' => ?_⟩
    · cases d with
      | cache => simp [Storage.contents, or_comm]
      | image => simp [Storage.contents]
    · obtain ⟨hmem, -⟩ := hk'
      simp only [Storage.contents, List.mem_map, Prod.mk.injEq, StorageObject.volume.injEq] at hmem
      obtain ⟨g, hg, -, hname⟩ := hmem
      exact absurd hname (hfresh g hg).1.2

theorem claimCache_images {operationID : String} (h : claimCache s owner k id operationID = .ok t) :
    t.images = s.images := by
  simp only [claimCache, bind_eq_ok] at h
  obtain ⟨-, -, h⟩ := h
  split_ifs at h with hactive
  · rw [pure_eq_ok] at h
    rw [h]
  · simp only [bind_eq_ok, pure_eq_ok] at h
    obtain ⟨-, -, rfl⟩ := h
    rfl

theorem claimImage_operates {objectID operationID : String} {now : ℤ}
    (h : claimImage s owner objectID k id operationID now = .ok t) : s.Operates t := by
  simp only [claimImage, bind_eq_ok] at h
  obtain ⟨-, -, h⟩ := h
  split_ifs at h with hactive
  · rw [pure_eq_ok] at h
    exact h ▸ .refl s
  · simp only [bind_eq_ok, pure_eq_ok] at h
    obtain ⟨-, -, rfl⟩ := h
    refine .of_contents (fun c => ?_) rfl rfl rfl
    cases c with
    | cache => rfl
    | image =>
      simp only [Storage.contents, List.filterMap_append, List.filterMap_map, List.filterMap_cons,
        Option.map_none, List.filterMap_nil, List.append_nil]
      refine List.filterMap_congr fun g _ => ?_
      simp only [Function.comp_apply]
      split_ifs <;> rfl

end Generations

/-! ### The identity of an image -/

section Labels

variable {D : Digests δ} {S : Set (Document δ)} {s t : Storage δ}

/-- The documents behind the identity of an image. -/
def imageDocuments (D : Digests δ) (p : Prepared δ) : ImageStore → List (Document δ)
  | .classic => [.config p.labels p.rest]
  | .containerd => [.config p.labels p.rest,
    .manifest (D.sha256 (.config p.labels p.rest)) p.layers]

/-- An image carries the labels its identity was computed from, in both image stores. -/
theorem applicationImageID_labels (hS : Set.InjOn D.sha256 S) {p q : Prepared δ} {m n : ImageStore}
    (hp : ∀ d ∈ imageDocuments D p m, d ∈ S) (hq : ∀ d ∈ imageDocuments D q n, d ∈ S)
    (h : applicationImageID D p m = applicationImageID D q n) : p.labels = q.labels := by
  have hconfig {p : Prepared δ} {m : ImageStore} (hp : ∀ d ∈ imageDocuments D p m, d ∈ S) :
      .config p.labels p.rest ∈ S := hp _ (by cases m <;> simp [imageDocuments])
  cases m <;> cases n
  · have := hS (hconfig hp) (hconfig hq) h
    simp only [Document.config.injEq] at this
    exact this.1
  · cases hS (hconfig hp) (hq _ (by simp [imageDocuments])) h
  · cases hS (hp _ (by simp [imageDocuments])) (hconfig hq) h
  · have := hS (hp _ (by simp [imageDocuments])) (hq _ (by simp [imageDocuments])) h
    simp only [Document.manifest.injEq] at this
    have := hS (hconfig hp) (hconfig hq) this.1
    simp only [Document.config.injEq] at this
    exact this.1

/-- The identity is that of an image normalised for the archive of the key. -/
def ImageFor (D : Digests δ) (S : Set (Document δ)) (k : ContentKey δ) (i : δ) : Prop :=
  (∃ content, .archive content ∈ S ∧ k.bytes = content.length ∧
      D.sha256 (.archive content) = k.sha256) ∧
    ∃ rest layers store, (∀ d ∈ imageDocuments D { labels := imageLabels k, rest, layers } store,
      d ∈ S) ∧ i = applicationImageID D { labels := imageLabels k, rest, layers } store

/-- An image belongs to the archive of one key. -/
theorem ImageFor.key_eq (hS : Set.InjOn D.sha256 S) {k k' : ContentKey δ} {i : δ}
    (h : ImageFor D S k i) (h' : ImageFor D S k' i) : k = k' := by
  obtain ⟨⟨content, hmem, hbytes, hsha⟩, rest, layers, store, hdocs, rfl⟩ := h
  obtain ⟨⟨content', hmem', hbytes', hsha'⟩, rest', layers', store', hdocs', hid⟩ := h'
  have hlabels := applicationImageID_labels hS hdocs hdocs' hid
  simp only [imageLabels, ImageLabels.mk.injEq] at hlabels
  obtain ⟨hinst, harchive, hmachine, hengine⟩ := hlabels
  have hcontent : content = content' := by
    have := hS hmem hmem' (hsha.trans (harchive.trans hsha'.symm))
    simpa only [Document.archive.injEq] using this
  obtain ⟨⟨inst, machine, engine⟩, sha, bytes⟩ := k
  obtain ⟨⟨inst', machine', engine'⟩, sha', bytes'⟩ := k'
  simp only at hinst harchive hmachine hengine hbytes hbytes'
  subst hinst harchive hmachine hengine hcontent
  rw [hbytes, hbytes']

/-- A generation has no image before its load is recorded, and the image of its key afterwards. -/
structure ImageGeneration.Labelled (D : Digests δ) (S : Set (Document δ)) (g : ImageGeneration δ) :
    Prop where
  preparing : g.state = .preparing → g.expectedImageID = none
  image : ∀ i, g.expectedImageID = some i → ImageFor D S g.key i

theorem loadedImage_ok {content : List UInt8} {store : ImageStore} {rest : String}
    {layers : List String} {now : ℤ} {g g' : ImageGeneration δ} {u : Unit}
    (h : loadedImage D s content store rest layers now g = .ok (g', u)) :
    g'.key = g.key ∧ g.state = .preparing ∧ g'.state = .loading ∧
      (g.key.bytes = content.length ∧ D.sha256 (.archive content) = g.key.sha256) ∧
      g'.expectedImageID =
        some (applicationImageID D { labels := imageLabels g.key, rest, layers } store) := by
  simp only [loadedImage, ImageGeneration.elected, bind_eq_ok, require_eq_ok, pure_eq_ok,
    Prod.mk.injEq, decide_eq_true_eq, Bool.and_eq_true] at h
  obtain ⟨-, hbytes, -, hsha, -, ⟨hstate, -⟩, -, -, rfl, -⟩ := h
  exact ⟨rfl, hstate, rfl, ⟨hbytes, hsha⟩, rfl⟩

/-- The documents a transaction takes the digests of: those of the image it loads. -/
def StorageRequest.documents (D : Digests δ) (s : Storage δ) : StorageRequest δ → List (Document δ)
  | .beginImageLoad id content store rest layers =>
    .archive content :: (s.images.filter (·.id = id)).flatMap fun g =>
      imageDocuments D { labels := imageLabels g.key, rest, layers } store
  | _ => []

/-- The load of an image records its identity in a generation that had none. -/
theorem beginImageLoad_ok {id : String} {content : List UInt8} {store : ImageStore} {rest : String}
    {layers : List String} {now : ℤ}
    (h : beginImageLoad D s id content store rest layers now = .ok t)
    (hdocs : ∀ d ∈ (StorageRequest.beginImageLoad id content store rest layers).documents D s,
      d ∈ S) :
    ∃ pre g g' post i, s.images = pre ++ g :: post ∧ t = { s with images := pre ++ g' :: post } ∧
      g'.key = g.key ∧ g.state = .preparing ∧ g'.state = .loading ∧ g'.expectedImageID = some i ∧
      ImageFor D S g.key i := by
  simp only [beginImageLoad, onImage, bind_eq_ok, pure_eq_ok, Prod.exists] at h
  obtain ⟨images, u, he, rfl⟩ := h
  obtain ⟨pre, g, g', post, hpre, hid, hg, rfl⟩ := Rows.edit_eq_ok he
  simp only [StorageRequest.documents, List.forall_mem_cons, List.mem_flatMap] at hdocs
  obtain ⟨hkey, hprep, hstate, hcontent, hi⟩ := loadedImage_ok hg
  refine ⟨pre, g, g', post, _, hpre, rfl, hkey, hprep, hstate, hi,
    ⟨content, hdocs.1, hcontent⟩, rest, layers, store, fun d hd => ?_, rfl⟩
  exact hdocs.2 d ⟨g, List.mem_filter.mpr ⟨by simp [hpre], hid⟩, hd⟩

/-- The load of an image binds it to its key, which alone can own it. -/
theorem beginImageLoad_binds (hS : Set.InjOn D.sha256 S) {id : String} {content : List UInt8}
    {store : ImageStore} {rest : String} {layers : List String} {now : ℤ}
    (h : beginImageLoad D s id content store rest layers now = .ok t)
    (hdocs : ∀ d ∈ (StorageRequest.beginImageLoad id content store rest layers).documents D s,
      d ∈ S)
    (hs : ∀ g ∈ s.images, g.Labelled D S) : ∃ k i, s.Binds t .image k (.image i) := by
  obtain ⟨pre, g, g', post, i, hpre, rfl, hkey, hprep, -, hi, hfor⟩ := beginImageLoad_ok h hdocs
  have hnone := (hs g (by simp [hpre])).preparing hprep
  refine ⟨g.key, i, fun d e => ?_, fun _ => rfl, rfl, fun k' hk' => ?_⟩
  · cases d with
    | cache => simp [Storage.contents]
    | image =>
      simp only [Storage.contents, hpre, List.filterMap_append, List.filterMap_cons,
        hkey, hi, hnone, Option.map_some, Option.map_none, List.mem_append, List.mem_cons, true_and]
      tauto
  · obtain ⟨hmem, -⟩ := hk'
    simp only [Storage.contents, List.mem_filterMap, Option.map_eq_some_iff, Prod.mk.injEq,
      StorageObject.image.injEq] at hmem
    obtain ⟨g₁, hg₁, j, hj, rfl, rfl⟩ := hmem
    exact ((hs g₁ hg₁).image j hj).key_eq hS hfor

end Labels

/-! ### Operations -/

section Operations

variable {s t : Storage δ} {now : ℤ}

theorem StorageOperation.isOpen_of_running {o : StorageOperation δ} (h : o.status = .running) :
    o.isOpen = true := by
  simp [StorageOperation.isOpen, h]

theorem running_of_storageLeaseCurrent {o : StorageOperation δ} {w : StorageWork}
    (h : storageLeaseCurrent o w now = true) : o.status = .running := by
  simp only [storageLeaseCurrent, Bool.and_eq_true, decide_eq_true_eq] at h
  exact h.1

theorem edit_continues {β : Type} {id : String} {v : β} {e : Err}
    {f : StorageOperation δ → Except Err (StorageOperation δ × β)} {ops : List (StorageOperation δ)}
    (h : Rows.edit (fun o : StorageOperation δ => o.id = id) f e s.operations = .ok (ops, v))
    (hf : ∀ o o', f o = .ok (o', v) → o.Advances o') :
    ∀ p ∈ ops, ∃ o ∈ s.operations, o.Advances p := by
  refine Rows.edit_forall (P := fun o => o ∈ s.operations) h (fun _ ho => ho)
    (fun o ho => ⟨o, ho, .refl o⟩) (fun o o' ho hfo => ⟨o, ho, hf o o' hfo⟩)

theorem onStorageOperation_ok {id : String}
    {f : StorageOperation δ → Except Err (StorageOperation δ × Unit)}
    (h : onStorageOperation s id f = .ok t) (hf : ∀ o o' u, f o = .ok (o', u) → o.Advances o') :
    s.Operates t ∧ t.images = s.images := by
  simp only [onStorageOperation, bind_eq_ok, pure_eq_ok, Prod.exists] at h
  obtain ⟨ops, u, he, rfl⟩ := h
  exact ⟨⟨fun _ => rfl, fun _ => rfl,
    fun p hp => Or.inl (edit_continues he (fun o o' ho => hf o o' u ho) p hp)⟩, rfl⟩

theorem claimStorageCleanup_ok {id fence : String} {ttl : ℤ}
    (h : claimStorageCleanup s id fence ttl now = .ok t) :
    s.Operates t ∧ t.images = s.images := by
  simp only [claimStorageCleanup, bind_eq_ok] at h
  obtain ⟨-, -, h⟩ := h
  refine onStorageOperation_ok h fun o o' u ho => ?_
  simp only [bind_eq_ok, require_eq_ok, pure_eq_ok, Prod.mk.injEq, StorageOperation.claimable,
    Bool.and_eq_true, Bool.or_eq_true, decide_eq_true_eq] at ho
  obtain ⟨-, ⟨hstatus, -⟩, -, -, rfl, -⟩ := ho
  refine ⟨rfl, rfl, rfl, fun _ => ?_, fun _ _ => rfl⟩
  rcases hstatus with hstatus | hstatus <;> simp [StorageOperation.isOpen, hstatus]

theorem renewStorageCleanup_ok {w : StorageWork} {ttl : ℤ}
    (h : renewStorageCleanup s w ttl now = .ok t) :
    s.Operates t ∧ t.images = s.images := by
  simp only [renewStorageCleanup, bind_eq_ok] at h
  obtain ⟨-, -, h⟩ := h
  refine onStorageOperation_ok h fun o o' u ho => ?_
  simp only [bind_eq_ok, pure_eq_ok, Prod.mk.injEq] at ho
  obtain ⟨-, -, rfl, -⟩ := ho
  exact ⟨rfl, rfl, rfl, id, id⟩

theorem beginStorageCleanup_ok {w : StorageWork} {known : Bool}
    (h : beginStorageCleanup s w known now = .ok t) :
    s.Operates t ∧ t.images = s.images := by
  simp only [beginStorageCleanup, bind_eq_ok] at h
  obtain ⟨-, -, h⟩ := h
  refine onStorageOperation_ok h fun o o' u ho => ?_
  simp only [bind_eq_ok, require_eq_ok, pure_eq_ok, Prod.mk.injEq] at ho
  obtain ⟨-, hcurrent, -, -, -, -, rfl, -⟩ := ho
  have hrunning := running_of_storageLeaseCurrent hcurrent
  exact ⟨rfl, rfl, rfl, fun _ => o.isOpen_of_running hrunning, fun _ _ => hrunning⟩

theorem completedOperation_advances {w : StorageWork} {outcome : DeleteOutcome} {reason : String}
    {scan : ℤ} {o o' p : StorageOperation δ}
    (h : completedOperation w outcome reason scan now o = .ok (o', p)) : o.Advances o' := by
  simp only [completedOperation, bind_eq_ok, require_eq_ok, pure_eq_ok, Prod.mk.injEq] at h
  obtain ⟨-, hcurrent, -, -, rfl, -⟩ := h
  refine ⟨rfl, rfl, rfl, fun _ => o.isOpen_of_running (running_of_storageLeaseCurrent hcurrent),
    fun _ hr => ?_⟩
  cases outcome <;> cases hr

/-- What is deleted is retired; its rows keep their objects. -/
theorem releaseDeletedStorageContent_ok {o : StorageOperation δ}
    (h : releaseDeletedStorageContent s o = .ok t) :
    (∀ c, t.contents c = s.contents c) ∧ t.cachePins = s.cachePins ∧ t.imagePins = s.imagePins ∧
      t.operations = s.operations ∧ ∀ g ∈ t.images, ∃ g₀ ∈ s.images,
        g.key = g₀.key ∧ g.expectedImageID = g₀.expectedImageID ∧
          (g.state = .preparing → g₀.state = .preparing) := by
  unfold releaseDeletedStorageContent at h
  split at h
  · simp only [bind_eq_ok, pure_eq_ok] at h
    obtain ⟨-, -, rfl⟩ := h
    refine ⟨fun c => ?_, rfl, rfl, rfl, fun g hg => ⟨g, hg, rfl, rfl, fun h => h⟩⟩
    cases c with
    | cache =>
      simp only [Storage.contents, List.map_map]
      refine List.map_congr_left fun g _ => ?_
      simp only [Function.comp_apply]
      split_ifs <;> rfl
    | image => rfl
  · rw [pure_eq_ok] at h
    subst h
    refine ⟨fun c => ?_, rfl, rfl, rfl, fun g hg => ?_⟩
    · cases c with
      | cache => rfl
      | image =>
        simp only [Storage.contents, List.filterMap_map]
        refine List.filterMap_congr fun g _ => ?_
        simp only [Function.comp_apply]
        split_ifs <;> rfl
    · obtain ⟨g₀, hg₀, rfl⟩ := List.mem_map.mp hg
      refine ⟨g₀, hg₀, ?_⟩
      split_ifs <;> simp
  · rw [pure_eq_ok] at h
    subst h
    exact ⟨fun _ => rfl, rfl, rfl, rfl, fun g hg => ⟨g, hg, rfl, rfl, fun h => h⟩⟩

theorem mem_evictionCandidates {scope : StorageScope} {item : EvictionCandidate δ}
    (h : item ∈ evictionCandidates s scope) :
    ∃ c : ContentClass, evictionAction item.object = c.eviction ∧
      s.Owns c item.key (scope, item.object) ∧ item.key ∉ s.pinned c := by
  simp only [evictionCandidates, List.mem_append, List.mem_map, List.mem_filterMap, List.mem_filter,
    Bool.and_eq_true, decide_eq_true_eq, Option.map_eq_some_iff] at h
  rcases h with ⟨g, ⟨hg, hscope, hidle⟩, rfl⟩ | ⟨g, ⟨hg, hscope, hidle⟩, i, hi, rfl⟩
  · refine ⟨.cache, rfl, ⟨List.mem_map.mpr ⟨g, hg, rfl⟩, hscope.symm⟩, ?_⟩
    simp only [CacheGeneration.idle, Bool.and_eq_true, Bool.not_eq_true', List.contains_eq_mem,
      decide_eq_false_iff_not] at hidle
    exact hidle.2
  · refine ⟨.image, rfl, ⟨List.mem_filterMap.mpr ⟨g, hg, by simp [hi]⟩, hscope.symm⟩, ?_⟩
    simp only [ImageGeneration.idle, Bool.and_eq_true, Bool.not_eq_true', List.contains_eq_mem,
      decide_eq_false_iff_not] at hidle
    exact hidle.2

/-- The loop adds pending evictions of the candidates it is given. -/
theorem mem_queueEvictions {scope : StorageScope} {i : EvictionInput δ} {e : Excess}
    {items : List (EvictionCandidate δ)} {ops ops' : List (StorageOperation δ)}
    (h : queueEvictions scope i ops e items = .ok ops') :
    ∀ p ∈ ops', p ∈ ops ∨ ∃ item ∈ items, p.action = evictionAction item.object ∧
      p.scope = scope ∧ p.object = item.object ∧ p.result = .pending := by
  induction items generalizing ops e with
  | nil =>
    rw [queueEvictions, pure_eq_ok] at h
    exact fun p hp => Or.inl (h ▸ hp)
  | cons item items ih =>
    have later {ops₁ : List (StorageOperation δ)} {e₁ : Excess}
        (h : queueEvictions scope i ops₁ e₁ items = .ok ops') :
        ∀ p ∈ ops', p ∈ ops₁ ∨ ∃ item₁ ∈ item :: items, p.action = evictionAction item₁.object ∧
          p.scope = scope ∧ p.object = item₁.object ∧ p.result = .pending := by
      intro p hp
      rcases ih h p hp with hp | ⟨item₁, hmem, hrest⟩
      · exact Or.inl hp
      · exact Or.inr ⟨item₁, List.mem_cons_of_mem _ hmem, hrest⟩
    unfold queueEvictions at h
    split_ifs at h with hdone
    · rw [pure_eq_ok] at h
      exact fun p hp => Or.inl (h ▸ hp)
    · split at h
      · exact later h
      · simp only [bind_eq_ok, insertStorageOperation, pure_eq_ok] at h
        obtain ⟨-, ⟨-, -, -, -, -, -, rfl⟩, h⟩ := h
        intro p hp
        rcases later h p hp with hp | hp
        · rcases List.mem_append.mp hp with hp | hp
          · exact Or.inl hp
          · obtain rfl := List.mem_singleton.mp hp
            exact Or.inr ⟨item, List.mem_cons_self, rfl, rfl, rfl, rfl⟩
        · exact Or.inr hp

end Operations

/-! ### Runs -/

section Run

variable {D : Digests δ} {S : Set (Document δ)} {s t : Storage δ} {now : ℤ} {q : StorageRequest δ}

/-- What a transaction does, in the terms of the fence. -/
structure Storage.Change (D : Digests δ) (S : Set (Document δ)) (s t : Storage δ) : Prop where
  effect : s.Pins t ∨ s.Operates t ∨ ∃ c k o, s.Binds t c k o
  labelled : ∀ g ∈ t.images, g.Labelled D S

theorem moveImage_labelled {id : String} {allowed : ImageState → Bool} {next : ImageState}
    (h : moveImage s id allowed next = .ok t) (hnext : next ≠ .preparing)
    (hs : ∀ g ∈ s.images, g.Labelled D S) : ∀ g ∈ t.images, g.Labelled D S := by
  simp only [moveImage, onImage, bind_eq_ok, pure_eq_ok, Prod.exists] at h
  obtain ⟨images, u, he, rfl⟩ := h
  refine Rows.edit_forall he hs (fun _ hg => hg) fun g g' hg ho => ?_
  simp only [bind_eq_ok, pure_eq_ok, Prod.mk.injEq] at ho
  obtain ⟨-, -, rfl, -⟩ := ho
  exact ⟨fun h => absurd h hnext, hg.image⟩

theorem claimImage_labelled {owner : PinOwner} {k : ContentKey δ} {objectID id operationID : String}
    (h : claimImage s owner objectID k id operationID now = .ok t)
    (hs : ∀ g ∈ s.images, g.Labelled D S) : ∀ g ∈ t.images, g.Labelled D S := by
  simp only [claimImage, bind_eq_ok] at h
  obtain ⟨-, -, h⟩ := h
  split_ifs at h with hactive
  · rw [pure_eq_ok] at h
    exact h ▸ hs
  · simp only [bind_eq_ok, pure_eq_ok] at h
    obtain ⟨-, -, rfl⟩ := h
    intro g hg
    rcases List.mem_append.mp hg with hg | hg
    · obtain ⟨g₀, hg₀, rfl⟩ := List.mem_map.mp hg
      have hl := hs g₀ hg₀
      split_ifs
      · exact ⟨fun h => (by cases h), hl.image⟩
      · exact hl
    · obtain rfl := List.mem_singleton.mp hg
      exact ⟨fun _ => rfl, fun i hi => by cases hi⟩

theorem beginImageLoad_labelled {id : String} {content : List UInt8} {store : ImageStore}
    {rest : String} {layers : List String}
    (h : beginImageLoad D s id content store rest layers now = .ok t)
    (hdocs : ∀ d ∈ (StorageRequest.beginImageLoad id content store rest layers).documents D s,
      d ∈ S)
    (hs : ∀ g ∈ s.images, g.Labelled D S) : ∀ g ∈ t.images, g.Labelled D S := by
  obtain ⟨pre, g, g', post, i, hpre, rfl, hkey, -, hstate, hi, hfor⟩ := beginImageLoad_ok h hdocs
  have hg' : g'.Labelled D S := by
    refine ⟨fun h => ?_, fun j hj => ?_⟩
    · rw [hstate] at h
      cases h
    · obtain rfl : i = j := by simpa [hi] using hj
      rwa [hkey]
  rw [hpre] at hs
  intro x hx
  rcases List.mem_append.mp hx with hx | hx
  · exact hs x (by simp [hx])
  · rcases List.mem_cons.mp hx with rfl | hx
    · exact hg'
    · exact hs x (by simp [hx])

theorem completeStorageCleanup_ok {w : StorageWork} {outcome : DeleteOutcome} {reason : String}
    {scan : ℤ} (h : completeStorageCleanup s w outcome reason scan now = .ok t)
    (hs : ∀ g ∈ s.images, g.Labelled D S) : s.Operates t ∧ ∀ g ∈ t.images, g.Labelled D S := by
  simp only [completeStorageCleanup, bind_eq_ok, Prod.exists] at h
  obtain ⟨ops, o, he, h⟩ := h
  have hcont := edit_continues he fun o₁ o₂ => completedOperation_advances
  split_ifs at h with hok
  · obtain ⟨hcontents, hcache, himage, hops, himages⟩ := releaseDeletedStorageContent_ok h
    refine ⟨⟨hcontents, Storage.pinned_congr hcache himage, fun p hp => ?_⟩, fun g hg => ?_⟩
    · rw [hops] at hp
      exact Or.inl (hcont p hp)
    · obtain ⟨g₀, hg₀, hkey, hid, hstate⟩ := himages g hg
      have hl := hs g₀ hg₀
      refine ⟨fun h => hid.trans (hl.preparing (hstate h)), fun i hi => ?_⟩
      rw [hkey]
      exact hl.image i (hid.symm.trans hi)
  · rw [pure_eq_ok] at h
    subst h
    exact ⟨⟨fun _ => rfl, fun _ => rfl, fun p hp => Or.inl (hcont p hp)⟩, hs⟩

theorem queueStorageEvictions_ok {scope : StorageScope} {i : EvictionInput δ}
    (h : queueStorageEvictions s scope i = .ok t) :
    s.Operates t ∧ t.images = s.images := by
  simp only [queueStorageEvictions] at h
  split_ifs at h with hclear
  · rw [pure_eq_ok] at h
    subst h
    exact ⟨.refl s, rfl⟩
  · simp only [bind_eq_ok, require_eq_ok, pure_eq_ok, List.isPerm_iff] at h
    obtain ⟨-, hperm, -, -, ops, hops, rfl⟩ := h
    refine ⟨⟨fun _ => rfl, fun _ => rfl, fun p hp => ?_⟩, rfl⟩
    rcases mem_queueEvictions hops p hp with hp | ⟨item, hmem, haction, hscope, hobject, hresult⟩
    · exact Or.inl ⟨p, hp, .refl p⟩
    · refine Or.inr ⟨fun hr => (by rw [hresult] at hr; cases hr), fun c hc => ?_⟩
      obtain ⟨d, hd, howns, hfree⟩ := mem_evictionCandidates (hperm.mem_iff.mp hmem)
      obtain rfl : c = d := ContentClass.eviction_inj (hc.symm.trans (haction.trans hd))
      rw [hscope, hobject]
      exact ⟨item.key, howns, hfree⟩

/-- The deletion of an orphan is not an eviction. -/
theorem admitStorageCleanup_ok {id workspaceID key : String} {scope : StorageScope}
    {action : StorageAction} {object : StorageObject δ}
    (h : admitStorageCleanup s id workspaceID key scope action object = .ok t) :
    s.Operates t ∧ t.images = s.images := by
  simp only [admitStorageCleanup, insertStorageOperation, bind_eq_ok, require_eq_ok, pure_eq_ok,
    Bool.and_eq_true, Bool.or_eq_true, decide_eq_true_eq] at h
  obtain ⟨-, ⟨haction, -⟩, -, ⟨-, -, -, -, -, -, rfl⟩, rfl⟩ := h
  refine ⟨⟨fun _ => rfl, fun _ => rfl, fun p hp => ?_⟩, rfl⟩
  rcases List.mem_append.mp hp with hp | hp
  · exact Or.inl ⟨p, hp, .refl p⟩
  · obtain rfl := List.mem_singleton.mp hp
    refine Or.inr ⟨fun hr => (by cases hr), fun c hc => ?_⟩
    rcases haction with (rfl | rfl) | rfl <;> cases c <;> cases hc

/-- Every transaction does one of the three. -/
theorem storage_perform_change (hS : Set.InjOn D.sha256 S) (h : s.perform D now q = .ok t)
    (hdocs : ∀ d ∈ q.documents D s, d ∈ S) (hs : ∀ g ∈ s.images, g.Labelled D S) :
    s.Change D S t := by
  -- what binds no content to an object
  have pins (h : s.Pins t) : s.Change D S t := ⟨Or.inl h, h.images ▸ hs⟩
  have works (h : s.Operates t ∧ t.images = s.images) : s.Change D S t :=
    ⟨Or.inr (Or.inl h.1), h.2 ▸ hs⟩
  have moves {id : String} {allowed : ImageState → Bool} {next : ImageState}
      (h : moveImage s id allowed next = .ok t) (hnext : next ≠ .preparing) : s.Change D S t :=
    ⟨Or.inr (Or.inl (moveImage_operates h)), moveImage_labelled h hnext hs⟩
  cases q with
  | pinAdmission owner scope refs image => exact pins (pinAdmission_pins h)
  | pinRetry old new => exact pins (pinRetry_pins h)
  | releaseCachePins owner =>
    simp only [Storage.perform, pure_eq_ok] at h
    exact pins (h ▸ releaseHostCachePins_pins)
  | releaseImagePins owner =>
    simp only [Storage.perform, pure_eq_ok] at h
    exact pins (h ▸ releaseHostApplicationImagePins_pins)
  | claimCache owner key id operationID =>
    rcases claimCache_cases h with rfl | hb
    · exact pins (.refl t)
    · exact ⟨Or.inr (Or.inr ⟨_, _, _, hb⟩), claimCache_images h ▸ hs⟩
  | beginWrite owner id => exact works (beginWrite_ok h)
  | finishWrite owner id => exact works (finishWrite_ok h)
  | verifyCache id => exact works (verifyCache_ok h)
  | retireCache id => exact works (retireCache_ok h)
  | claimImage owner objectID key id operationID =>
    exact ⟨Or.inr (Or.inl (claimImage_operates h)), claimImage_labelled h hs⟩
  | beginImageLoad id content store rest layers =>
    obtain ⟨k, i, hb⟩ := beginImageLoad_binds hS h hdocs hs
    exact ⟨Or.inr (Or.inr ⟨_, _, _, hb⟩), beginImageLoad_labelled h hdocs hs⟩
  | retirePreloadImage id =>
    simp only [Storage.perform, retirePreloadImage] at h
    exact moves h (by decide)
  | markImageReady id =>
    simp only [Storage.perform, markImageReady] at h
    exact moves h (by decide)
  | markImageUnknown id =>
    simp only [Storage.perform, markImageUnknown] at h
    exact moves h (by decide)
  | retireMissingImage id =>
    simp only [Storage.perform, retireMissingImage] at h
    exact moves h (by decide)
  | queueStorageEvictions scope input => exact works (queueStorageEvictions_ok h)
  | admitStorageCleanup id workspaceID key scope action object =>
    exact works (admitStorageCleanup_ok h)
  | claimStorageCleanup id fence ttl => exact works (claimStorageCleanup_ok h)
  | renewStorageCleanup work ttl => exact works (renewStorageCleanup_ok h)
  | beginStorageCleanup work known => exact works (beginStorageCleanup_ok h)
  | completeStorageCleanup work outcome reason scan =>
    obtain ⟨ho, hl⟩ := completeStorageCleanup_ok h hs
    exact ⟨Or.inr (Or.inl ho), hl⟩

theorem Storage.step_ok {tx : StorageTx δ} (h : s.step D tx = some t) :
    ∃ now u next, s.perform D now tx.request = .ok u ∧ t = { u with floor := next } := by
  unfold Storage.step at h
  cases htx : s.transact D tx with
  | error e => simp [htx, Except.toOption] at h
  | ok t' =>
    obtain rfl : t' = t := by simpa [htx, Except.toOption] using h
    simp only [Storage.transact, bind_eq_ok, pure_eq_ok, Prod.exists] at htx
    obtain ⟨now, next, -, u, hu, rfl⟩ := htx
    exact ⟨now, u, next, hu, rfl⟩

/-- What holds of every reachable state. -/
structure Storage.Good (D : Digests δ) (S : Set (Document δ)) (s : Storage δ) : Prop where
  fenced : ∀ c, s.Fenced c
  labelled : ∀ g ∈ s.images, g.Labelled D S
  sound : ∀ p ∈ s.operations, p.Sound

theorem Storage.Good.change (hs : s.Good D S) (h : s.Change D S t) : t.Good D S where
  fenced c := by
    rcases h.effect with hp | ho | ⟨d, k, o, hb⟩
    · exact (hs.fenced c).pins hp
    · exact (hs.fenced c).operates ho
    · exact (hs.fenced c).binds hb
  labelled := h.labelled
  sound p hp := by
    have hcont : s.Continues t := by
      rcases h.effect with hp | ho | ⟨d, k, o, hb⟩
      · exact .of_eq hp.operations
      · exact ho.continues
      · exact .of_eq hb.operations
    rcases hcont p hp with ⟨o, ho, hadv⟩ | ⟨hsound, -⟩
    · exact hadv.sound (hs.sound o ho)
    · exact hsound

theorem Storage.Good.empty : ({} : Storage δ).Good D S where
  fenced c := by
    have hnone (k : ContentKey δ) (o : StorageScope × StorageObject δ) :
        ¬ ({} : Storage δ).Owns c k o := by
      rintro ⟨hmem, -⟩
      cases c <;> cases hmem
    refine ⟨fun k _ o ho => absurd ho (hnone k o), ?_, fun k o ho => absurd ho (hnone k o)⟩
    rintro o ⟨p, hp, -⟩
    cases hp
  labelled g hg := by cases hg
  sound p hp := by cases hp

/-- The run digests no document outside of `S`. -/
def DigestsIn (D : Digests δ) (S : Set (Document δ)) (txs : List (StorageTx δ)) : Prop :=
  Run.Along (Storage.step D) (fun s tx => ∀ d ∈ tx.request.documents D s, d ∈ S) {} txs

/-- The fence holds in every state of every run. -/
theorem good_run (hS : Set.InjOn D.sha256 S) {txs : List (StorageTx δ)} (h : DigestsIn D S txs) :
    (Run.run (Storage.step D) {} txs).Good D S := by
  refine Run.along_history (P := fun _ s => Storage.Good D S s) .empty ?_ txs h
  intro _ s tx u hs hdocs hstep
  obtain ⟨now, t, next, hperform, rfl⟩ := Storage.step_ok hstep
  obtain ⟨hfenced, hlabelled, hsound⟩ :=
    hs.change (storage_perform_change hS hperform hdocs hs.labelled)
  exact ⟨hfenced, hlabelled, hsound⟩

/-- While an eviction has its delete intent recorded and is not settled as deleted, absent or
retained, every pin of the content it deletes is released: in every state that a fresh store reaches
by any interleaving of the transactions on the content of its hosts, among whose documents SHA-256
has no collision. -/
theorem eviction_excludes_pins (D : Digests δ) (S : Set (Document δ)) (hS : Set.InjOn D.sha256 S)
    (txs : List (StorageTx δ)) (h : DigestsIn D S txs) :
    let s := Run.run (Storage.step D) {} txs
    ∀ o ∈ s.operations, o.result = .running ∨ o.result = .unknown →
      (o.action = .evictCache → ∀ g ∈ s.caches, g.key.scope = o.scope →
        o.object = .volume g.volumeName → ∀ p ∈ s.cachePins, p.key = g.key → p.released = true) ∧
      (o.action = .evictImage → ∀ g ∈ s.images, g.key.scope = o.scope →
        ∀ i, g.expectedImageID = some i → o.object = .image i →
          ∀ p ∈ s.imagePins, p.key = g.key → p.released = true) := by
  intro s o ho hresult
  have hgood : s.Good D S := good_run hS h
  have hopen : o.isOpen = true := by
    rcases hresult with hr | hr
    · exact o.isOpen_of_running (hgood.sound o ho hr)
    · simp [StorageOperation.isOpen, hr]
  have hfree (c : ContentClass) (haction : o.action = c.eviction) {k : ContentKey δ}
      (hk : (k, o.object) ∈ s.contents c) (hscope : k.scope = o.scope) : k ∉ s.pinned c :=
    (hgood.fenced c).free k (o.scope, o.object) ⟨hk, hscope.symm⟩ ⟨o, ho, haction, rfl, rfl, hopen⟩
  constructor
  · intro haction g hg hscope hobject p hp hkey
    have hmem : (g.key, o.object) ∈ s.contents .cache := by
      rw [hobject]
      exact List.mem_map.mpr ⟨g, hg, rfl⟩
    by_contra hrel
    refine hfree .cache haction hmem hscope ?_
    exact List.mem_map.mpr ⟨p, List.mem_filter.mpr ⟨hp, by simpa using hrel⟩, hkey⟩
  · intro haction g hg hscope i hi hobject p hp hkey
    have hmem : (g.key, o.object) ∈ s.contents .image := by
      rw [hobject]
      exact List.mem_filterMap.mpr ⟨g, hg, by simp [hi]⟩
    by_contra hrel
    refine hfree .image haction hmem hscope ?_
    exact List.mem_map.mpr ⟨p, List.mem_filter.mpr ⟨hp, by simpa using hrel⟩, hkey⟩

end Run

/-! ### A sample -/

/-- Digests as terms: the digest of a document is the document. -/
inductive Term
  | archive (content : List UInt8)
  | config (installation : String) (archive : Term) (machine engine rest : String)
  | manifest (config : Term) (layers : List String)
  deriving DecidableEq

def Digests.terms : Digests Term where
  sha256
    | .archive content => .archive content
    | .config l rest => .config l.installation l.archive l.machine l.engine rest
    | .manifest config layers => .manifest config layers

def sampleKey : ContentKey Term :=
  { scope := { installationID := "i", machineID := "m", engineID := "e" }
    sha256 := .archive [1]
    bytes := 1 }

def sampleImageOwner (attemptID : String) : PinOwner :=
  { workspaceID := "w", jobID := "j", attemptID }

def sampleImage : StorageObject Term := .image (.config "i" (.archive [1]) "m" "e" "")

def sampleScan : EvictionInput Term :=
  { workspaceID := "w"
    scanSeq := 1
    objects := [{ object := sampleImage, sizeKnown := true, references := 0
                  labels := .application sampleKey.scope sampleKey.sha256
                  charged := 5 }]
    volumes := 0
    images := 16
    chargedBytes := 5
    softBytes := 10
    order := [⟨sampleImage, sampleKey, "img_1", "imload_1"⟩]
    operationID := fun _ => "stev_1" }

/-- An image is loaded, released and evicted; the retry and the admission that come too late are
refused. -/
def sampleEviction : List (StorageTx Term) :=
  ([.pinAdmission (sampleImageOwner "a") sampleKey.scope [] (some (.archive [1], 1, "obj_1")),
    .claimImage (sampleImageOwner "a") "obj_1" sampleKey "img_1" "imload_1",
    .beginImageLoad "img_1" [1] .classic "" [],
    .markImageReady "img_1",
    .releaseImagePins (sampleImageOwner "a"),
    .queueStorageEvictions sampleKey.scope sampleScan,
    .pinRetry (sampleImageOwner "a") (sampleImageOwner "b"),
    .claimStorageCleanup "stev_1" "f" 60000000000,
    .beginStorageCleanup
      { operationID := "stev_1", generation := 1, fence := "f", running := false } false,
    .pinAdmission (sampleImageOwner "c") sampleKey.scope [] (some (.archive [1], 1, "obj_1"))] :
    List (StorageRequest Term)).map fun q => { wall := 1, request := q }

/-- The documents of the image. -/
def sampleDocuments : List (Document Term) :=
  [.archive [1], .config (imageLabels sampleKey) ""]

theorem eviction_excludes_sample_pins :
    let s := Run.run (Storage.step .terms) {} sampleEviction
    s.operations.map (fun o => (o.scope, o.action, o.result, o.object)) =
        [(sampleKey.scope, .evictImage, .running, sampleImage)] ∧
      s.images.map (fun g => (g.key, g.expectedImageID.map StorageObject.image)) =
        [(sampleKey, some sampleImage)] ∧
      ∀ p ∈ s.imagePins, p.key = sampleKey → p.released = true := by
  intro s
  obtain ⟨hops, himages, hdocs, hinj⟩ :
      s.operations.map (fun o => (o.scope, o.action, o.result, o.object)) =
        [(sampleKey.scope, .evictImage, .running, sampleImage)] ∧
      s.images.map (fun g => (g.key, g.expectedImageID.map StorageObject.image)) =
        [(sampleKey, some sampleImage)] ∧
      Run.Along (Storage.step .terms)
        (fun s tx => ∀ d ∈ tx.request.documents .terms s, d ∈ sampleDocuments) {} sampleEviction ∧
      ∀ a ∈ sampleDocuments, ∀ b ∈ sampleDocuments,
        Digests.terms.sha256 a = Digests.terms.sha256 b → a = b := by
    decide +kernel
  refine ⟨hops, himages, ?_⟩
  obtain ⟨o, ho, ho'⟩ := List.map_eq_singleton_iff.mp hops
  obtain ⟨g, hg, hg'⟩ := List.map_eq_singleton_iff.mp himages
  simp only [Prod.mk.injEq, Option.map_eq_some_iff] at ho' hg'
  obtain ⟨hscope, haction, hresult, hobject⟩ := ho'
  obtain ⟨hkey, i, hi, himage⟩ := hg'
  have hmemo : o ∈ s.operations := by simp [ho]
  have hmemg : g ∈ s.images := by simp [hg]
  obtain ⟨-, hpins⟩ := eviction_excludes_pins .terms {d | d ∈ sampleDocuments}
    (fun a ha b hb => hinj a ha b hb) sampleEviction hdocs o hmemo (.inl hresult)
  rw [← hkey]
  exact hpins haction g hmemg (by rw [hkey, hscope]) i hi (hobject.trans himage.symm)

end Store
end ComputeRelay
