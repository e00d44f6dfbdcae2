import Mathlib.Tactic
import ComputeRelay.Lib.Run
import ComputeRelay.Store.Charge
import ComputeRelay.Store.Generations
import ComputeRelay.Store.Preload

/-!
# Scans of a host and the reservations they settle

`commitStorageReservationInTx`, `RecordStorageScan` and `releaseAbsentStorageReservationsInTx`
(`storage_reservations.go`, `storage_account.go`) next to the host and to `scanDockerStorage`
(`sshhost/storage_scan.go`): a scan lists containers, volumes and images one after the other, reads
the clock once at its end, and is recorded later. Objects come and go on the host meanwhile, and so
do the transactions of the store.

A reservation is released when its generation is retired and its object is not in the scan, where
the retirement is compared with the clock at the end of the scan and not with the listing that shows
the absence.
-/

namespace ComputeRelay
namespace Store

open Fallible Scheduler

variable {δ : Type} [DecidableEq δ]

/-! ### Reservations of writers -/

/-- `reserveReplacementStorageInTx`: another generation of content that is tracked already gets a
bound of its own, if the machine has room for it. -/
def reserveReplacementStorage (s : Accounts δ) (scope : StorageScope)
    (c : ContentClass) (sha256 : δ) (bytes : ℤ) (operation : String) (owner : PinOwner)
    (hardBytes now : ℤ) : Except Err (Accounts δ) :=
  if !s.reservations.any fun r =>
      r.scope = scope && r.resource = .content c sha256 bytes then pure s
  else do
    let t := { s with reservations := s.reservations ++ [{
      scope
      resource := .content c sha256 bytes
      bytes := match c with
        | .cache => bytes
        | .image => imageReservationBytes
      owner
      operation := some operation
      state := .committed }] }
    let charge ← freshStorageCharge t scope now
    require (charge.chargedBytes < hardBytes) .storageHardLimit
    pure t

/-- `commitStorageReservationInTx`: the provisional reservation of the content goes to the
writer. -/
def commitStorageReservation (s : Accounts δ) (scope : StorageScope) (c : ContentClass) (sha256 : δ)
    (bytes : ℤ) (operation : String) (owner : PinOwner) (hardBytes now : ℤ) :
    Except Err (Accounts δ) :=
  if s.reservations.any fun r => r.scope = scope && r.resource = .content c sha256 bytes &&
      r.operation = some operation && r.state = .committed then pure s
  else if s.reservations.any fun r =>
      r.scope = scope && r.resource = .content c sha256 bytes && r.state = .provisional then do
    let (reservations, _) ← Rows.edit
      (fun r : Reservation δ => r.scope = scope && r.resource = .content c sha256 bytes &&
        r.state = .provisional)
      (fun r => do
        require (r.operation = none) .corrupt
        pure ({ r with state := .committed, operation := some operation }, ()))
      .corrupt s.reservations
    pure { s with reservations }
  else reserveReplacementStorage s scope c sha256 bytes operation owner hardBytes now

/-- The bounds of a list of writers are released. -/
def releaseCommitted (scope : StorageScope) (c : ContentClass) (operations : List String)
    (rs : List (Reservation δ)) : List (Reservation δ) :=
  rs.map fun r =>
    if r.scope = scope && (match r.resource with
        | .content d _ _ => d = c
        | .attempt => false) &&
      (match r.operation with
        | some operation => operations.contains operation
        | none => false) && r.state = .committed then { r with state := .released }
    else r

/-- The reservations that `releaseDeletedStorageContentInTx` settles. The key of a cache is that of
its writer. -/
def releaseDeletedReservations (s : Storage δ) (o : StorageOperation δ)
    (rs : List (Reservation δ)) : List (Reservation δ) :=
  match o.action, o.object with
  | .evictCache, .volume name =>
    releaseCommitted o.scope .cache
      (((s.caches.find? fun g => g.key.scope = o.scope &&
        g.volumeName = name).map (·.operationID)).toList) rs
  | .evictImage, .image id =>
    releaseCommitted o.scope .image
      ((s.images.filter fun g => g.key.scope = o.scope && g.expectedImageID = some id).map
        (·.operationID)) rs
  | _, _ => rs

/-! ### Transactions -/

/-- The accounts of the machines, the number of the latest scan, and the columns on retirement. -/
structure Inventory (δ : Type) where
  accounts : Accounts δ := { storage := {}, observation := fun _ => {} }
  scanSeq : ℤ := 0
  /-- `retired_at` of the generations of caches. -/
  cacheRetiredAt : String → Option ℤ := fun _ => none
  /-- `retired_at` of the generations of images. -/
  imageRetiredAt : String → Option ℤ := fun _ => none
  /-- The images that were ready and then observed missing. -/
  imageMissing : String → Bool := fun _ => false

/-- The bound that a transaction commits before it lets a writer begin. -/
def Inventory.commit (v : Inventory δ) (hardBytes now : ℤ) :
    StorageRequest δ → Except Err (Accounts δ)
  | .beginWrite _ id =>
    match v.accounts.storage.caches.find? fun g => g.id = id with
    | none => pure v.accounts
    | some g => commitStorageReservation v.accounts g.key.scope .cache g.key.sha256
      g.key.bytes g.operationID
        g.owner hardBytes now
  | .beginImageLoad id .. =>
    match v.accounts.storage.images.find? fun g => g.id = id with
    | none => pure v.accounts
    | some g => commitStorageReservation v.accounts g.key.scope .image g.key.sha256
      g.key.bytes g.operationID
        g.owner hardBytes now
  | _ => pure v.accounts

/-- The bounds that a transaction releases. -/
def StorageRequest.released (s : Storage δ) (rs : List (Reservation δ)) :
    StorageRequest δ → List (Reservation δ)
  | .completeStorageCleanup work outcome _ _ =>
    match s.operations.find? fun o => o.id = work.operationID with
    | some o => if outcome.status = .succeeded then releaseDeletedReservations s o rs else rs
    | none => rs
  | _ => rs

/-- The columns on retirement after a transaction: every update that retires a row writes its
time. -/
def Inventory.retire (v : Inventory δ) (t : Storage δ) (now : ℤ) : Inventory δ :=
  let s := v.accounts.storage
  { v with
    cacheRetiredAt := fun id =>
      if (s.caches.any fun g => g.id = id && g.state ≠ .retired) &&
        (t.caches.any fun g => g.id = id && g.state = .retired) then some now
      else v.cacheRetiredAt id
    imageRetiredAt := fun id =>
      if (s.images.any fun g => g.id = id && g.state ≠ .retired) &&
        (t.images.any fun g => g.id = id && g.state = .retired) then some now
      else v.imageRetiredAt id
    imageMissing := fun id =>
      (s.images.any fun g => g.id = id && g.state = .ready) &&
        (t.images.any fun g => g.id = id && g.state = .retired) || v.imageMissing id }

inductive InventoryRequest (δ : Type)
  /-- A transaction on the content of hosts, under the limit of its machine. -/
  | storage (request : StorageRequest δ) (hardBytes : ℤ)
  | admission (target : Option StorageScope) (owner : PinOwner) (configured : Budget)
    (connections : List Budget) (refs : List (FrozenObject δ))
  /-- `releaseAttemptStorageReservationInTx`. -/
  | releaseAttempt (owner : PinOwner)

def Inventory.perform (D : Digests δ) (v : Inventory δ) (now : ℤ) :
    InventoryRequest δ → Except Err (Inventory δ)
  | .storage q hardBytes => do
    let accounts ← v.commit hardBytes now q
    let t ← accounts.storage.perform D now q
    pure { v.retire t now with
      accounts := { accounts with
        storage := t
        reservations := q.released accounts.storage accounts.reservations } }
  | .admission target owner configured connections refs => do
    let accounts ← storageAdmission v.accounts target owner configured connections refs now
    pure { v with accounts }
  | .releaseAttempt owner =>
    pure { v with accounts := { v.accounts with reservations := v.accounts.reservations.map fun r =>
      if r.owner = owner && r.resource = .attempt then { r with state := .released } else r } }

/-! ### The record of a scan -/

/-- A candidate of `releaseAbsentStorageReservationsInTx`. -/
structure RetiredObject (δ : Type) where
  contentClass : ContentClass
  object : StorageObject δ
  operation : String
  retiredAt : Option ℤ

/-- The generations whose writer is finished and that are retired. -/
def Inventory.retiredObjects (v : Inventory δ) (scope : StorageScope) : List (RetiredObject δ) :=
  ((v.accounts.storage.caches.filter fun g =>
      g.key.scope = scope && g.state = .retired && g.writerPhase = .finished).map fun g =>
    ⟨.cache, .volume g.volumeName, g.operationID, v.cacheRetiredAt g.id⟩) ++
  (v.accounts.storage.images.filter fun g =>
      g.key.scope = scope && g.state = .retired && v.imageMissing g.id).filterMap fun g =>
    g.expectedImageID.map fun i => ⟨.image, .image i, g.operationID, v.imageRetiredAt g.id⟩

/-- `releaseAbsentStorageReservationsInTx`, on one candidate. -/
def releaseAbsent (scope : StorageScope) (present : List (StorageObject δ)) (observedAt : ℤ)
    (rs : List (Reservation δ)) (item : RetiredObject δ) : Except Err (List (Reservation δ)) := do
  let retired ← expect item.retiredAt .corrupt
  if present.contains item.object || observedAt < retired then pure rs
  else pure (releaseCommitted scope item.contentClass [item.operation] rs)

/-- `RecordStorageScan`. -/
def recordStorageScan (v : Inventory δ) (scope : StorageScope) (objects : List (ObservedObject δ))
    (observedAt now : ℤ) : Except Err (Inventory δ) := do
  require (observedAt ≤ now && now - observedAt ≤ scanFreshness) .storageInvalid
  let reservations ← (v.retiredObjects scope).foldlM
    (releaseAbsent scope (objects.map (·.object)) observedAt) v.accounts.reservations
  pure { v with
    scanSeq := v.scanSeq + 1
    accounts := { v.accounts with
      reservations
      observation := Function.update v.accounts.observation scope
        { seq := v.scanSeq + 1, at_ := ofMilli (unixMilli observedAt), complete := true
          objects } } }

/-! ### The host and the scans in flight -/

/-- A scan in flight: what it has listed so far, and when. -/
structure Scanning (δ : Type) where
  scope : StorageScope
  objects : List (ObservedObject δ)
  volumesAt : Option ℤ := none
  imagesAt : Option ℤ := none
  observedAt : Option ℤ := none

/-- The instant, the objects on the hosts, the store, and the scans in flight. -/
structure World (δ : Type) where
  clock : ℤ := 0
  host : StorageScope → List (ObservedObject δ) := fun _ => []
  inventory : Inventory δ := {}
  scans : ℕ → Option (Scanning δ) := fun _ => none

inductive Happening (δ : Type)
  | create (scope : StorageScope) (o : ObservedObject δ)
  | delete (scope : StorageScope) (o : StorageObject δ)
  | transact (request : InventoryRequest δ)
  /-- The steps of `scanDockerStorage`. -/
  | listContainers (n : ℕ) (scope : StorageScope)
  | listVolumes (n : ℕ)
  | listImages (n : ℕ)
  | observe (n : ℕ)
  /-- `RecordStorageScan`, of a scan that was observed. -/
  | record (n : ℕ)

structure Occurrence (δ : Type) where
  instant : ℤ
  happening : Happening δ

/-- The host lists what belongs to one class. -/
def World.listed (w : World δ) (scope : StorageScope) (action : StorageAction) :
    List (ObservedObject δ) :=
  (w.host scope).filter fun b => action.covers b.object

/-- A step of one scan. -/
def World.scan (w : World δ) (n : ℕ) (f : Scanning δ → Option (Scanning δ)) : Option (World δ) :=
  (w.scans n).bind f |>.map fun sc => { w with scans := Function.update w.scans n (some sc) }

/-- A transaction under the clock of the store. -/
def World.commit (w : World δ) (f : ℤ → Except Err (Inventory δ)) : Option (World δ) :=
  (do
    let (now, next) ← write w.inventory.accounts.storage.floor w.clock
    let v ← f now
    pure { w with inventory := { v with accounts := { v.accounts with
      storage := { v.accounts.storage with floor := next } } } } : Except Err (World δ)).toOption

/-- What happens at the present instant. -/
def World.happen (D : Digests δ) (w : World δ) : Happening δ → Option (World δ)
  | .create scope o => some { w with host := Function.update w.host scope (w.host scope ++ [o]) }
  | .delete scope o =>
    some { w with
      host := Function.update w.host scope ((w.host scope).filter fun b => b.object ≠ o) }
  | .transact q => w.commit fun now => w.inventory.perform D now q
  | .listContainers n scope =>
    some { w with
      scans := Function.update w.scans n
        (some ⟨scope, w.listed scope .orphanContainer, none, none, none⟩) }
  | .listVolumes n => w.scan n fun sc =>
    if sc.volumesAt.isSome then none
    else some { sc with
      objects := sc.objects ++ w.listed sc.scope .orphanVolume
      volumesAt := some w.clock }
  | .listImages n => w.scan n fun sc =>
    if sc.volumesAt.isNone || sc.imagesAt.isSome then none
    else some { sc with
      objects := sc.objects ++ w.listed sc.scope .orphanImage
      imagesAt := some w.clock }
  | .observe n => w.scan n fun sc =>
    if sc.imagesAt.isNone || sc.observedAt.isSome then none
    else some { sc with observedAt := some w.clock }
  | .record n =>
    match w.scans n with
    | some ⟨scope, objects, _, _, some observedAt⟩ =>
      w.commit fun now => recordStorageScan w.inventory scope objects observedAt now
    | _ => none

/-- Instants never go back. -/
def World.step (D : Digests δ) (w : World δ) (e : Occurrence δ) : Option (World δ) :=
  if e.instant < w.clock then none else { w with clock := e.instant }.happen D e.happening

/-! ### What a record releases -/

/-- The reservation is the bound of the writer of this operation. -/
def Reservation.boundOf (r : Reservation δ) (scope : StorageScope) (c : ContentClass)
    (operation : String) : Prop :=
  r.scope = scope ∧ (∃ sha256 bytes, r.resource = .content c sha256 bytes) ∧
    r.operation = some operation

variable {D : Digests δ} {scope : StorageScope} {present : List (StorageObject δ)}
  {observedAt now : ℤ}
  {v v' : Inventory δ} {rs rs' : List (Reservation δ)} {items : List (RetiredObject δ)}

/-- What the candidates do to one row: it stays, or it is the bound of a candidate that is absent
and was retired by the time of the scan. -/
def Settles (scope : StorageScope) (present : List (StorageObject δ)) (observedAt : ℤ)
    (items : List (RetiredObject δ)) (r r' : Reservation δ) : Prop :=
  r' = r ∨ r' = { r with state := .released } ∧ ∃ item ∈ items,
    r.boundOf scope item.contentClass item.operation ∧ item.object ∉ present ∧
      ∃ retired ∈ item.retiredAt, retired ≤ observedAt

omit [DecidableEq δ] in
theorem Settles.trans {r r' r'' : Reservation δ} (h : Settles scope present observedAt items r r')
    (h' : Settles scope present observedAt items r' r'') :
    Settles scope present observedAt items r r'' := by
  rcases h with rfl | ⟨rfl, hitem⟩
  · exact h'
  · rcases h' with rfl | ⟨rfl, -⟩
    · exact .inr ⟨rfl, hitem⟩
    · exact .inr ⟨rfl, hitem⟩

omit [DecidableEq δ] in
theorem releaseCommitted_bound (c : ContentClass) (operation : String) (rs : List (Reservation δ)) :
    List.Forall₂ (fun r r' => r' = r ∨ r' = { r with state := .released } ∧
      r.boundOf scope c operation) rs
      (releaseCommitted scope c [operation] rs) := by
  refine List.forall₂_map_right_iff.mpr (List.forall₂_same.mpr fun r _ => ?_)
  split_ifs with h
  · simp only [Bool.and_eq_true, decide_eq_true_eq] at h
    obtain ⟨⟨⟨hscope, hclass⟩, hoperation⟩, -⟩ := h
    refine .inr ⟨rfl, hscope, ?_, ?_⟩
    · cases hr : r.resource with
      | attempt => simp [hr] at hclass
      | content d sha256 bytes =>
        simp only [hr, decide_eq_true_eq] at hclass
        exact ⟨sha256, bytes, by rw [hclass]⟩
    · cases ho : r.operation with
      | none => simp [ho] at hoperation
      | some o =>
        simp only [ho, List.contains_cons, List.contains_nil, Bool.or_false,
          beq_iff_eq] at hoperation
        rw [hoperation]
  · exact .inl rfl

theorem releaseAbsent_settles {item : RetiredObject δ} (hitem : item ∈ items)
    (h : releaseAbsent scope present observedAt rs item = .ok rs') :
    List.Forall₂ (Settles scope present observedAt items) rs rs' := by
  simp only [releaseAbsent, bind_eq_ok, expect_eq_ok] at h
  obtain ⟨retired, hretired, h⟩ := h
  split_ifs at h with hstay
  · obtain rfl := pure_eq_ok.mp h
    exact List.forall₂_same.mpr fun r _ => .inl rfl
  · obtain rfl := pure_eq_ok.mp h
    simp only [Bool.or_eq_true, List.contains_eq_mem, decide_eq_true_eq, not_or, not_lt] at hstay
    refine (releaseCommitted_bound item.contentClass item.operation rs).imp fun r r' hr => ?_
    refine hr.imp_right ?_
    rintro ⟨hr', hbound⟩
    exact ⟨hr', item, hitem, hbound, hstay.1, retired, hretired, hstay.2⟩

/-- A record releases the bounds of retired generations that the scan does not show. -/
theorem recordStorageScan_ok {objects : List (ObservedObject δ)}
    (h : recordStorageScan v scope objects observedAt now = .ok v') :
    List.Forall₂ (Settles scope (objects.map (·.object)) observedAt (v.retiredObjects scope))
        v.accounts.reservations v'.accounts.reservations ∧
      v'.accounts.storage = v.accounts.storage := by
  simp only [recordStorageScan, bind_eq_ok, pure_eq_ok] at h
  obtain ⟨_, -, reservations, hfold, rfl⟩ := h
  refine ⟨?_, rfl⟩
  refine foldlM_invariant (P := List.Forall₂ (Settles scope (objects.map (·.object)) observedAt
    (v.retiredObjects scope)) v.accounts.reservations) (fun rs item rs' hitem hrs hstep => ?_)
    (List.forall₂_same.mpr fun r _ => .inl rfl) hfold
  exact Rows.forall₂_trans (fun _ _ _ => Settles.trans) hrs (releaseAbsent_settles hitem hstep)

/-! ### Operations of writers -/

/-- Each generation has an operation of its own. -/
structure Storage.Distinct (s : Storage δ) : Prop where
  caches : s.caches.Pairwise fun g h => g.operationID ≠ h.operationID
  images : s.images.Pairwise fun g h => g.operationID ≠ h.operationID

theorem pairwise_operation {α : Type*} {operationID : α → String} {l l' : List α}
    (hmoves : List.Forall₂ (fun g g' => operationID g' = operationID g) l l')
    (h : l.Pairwise fun g h => operationID g ≠ operationID h) :
    l'.Pairwise fun g h => operationID g ≠ operationID h :=
  Rows.pairwise_of_forall₂ hmoves h fun g g' h h' hg hh hne => by rwa [hg, hh]

theorem pairwise_append_operation {α : Type*} {operationID : α → String} {l : List α} {g : α}
    (h : l.Pairwise fun g h => operationID g ≠ operationID h)
    (hg : ∀ h ∈ l, operationID h ≠ operationID g) :
    (l ++ [g]).Pairwise fun g h => operationID g ≠ operationID h := by
  refine List.pairwise_append.mpr ⟨h, List.pairwise_singleton _ _, fun h hh g' hg' => ?_⟩
  rw [List.mem_singleton.mp hg']
  exact hg h hh

theorem Storage.Distinct.perform {s t : Storage δ} {q : StorageRequest δ} (hs : s.Distinct)
    (h : s.perform D now q = .ok t) : t.Distinct := by
  constructor
  · rcases perform_caches h with hmoves | ⟨g, hg⟩
    · exact pairwise_operation (hmoves.imp fun g g' hmove => by rw [hmove.same]) hs.caches
    · rw [hg.caches]
      exact pairwise_append_operation hs.caches hg.operation
  · rcases perform_images h with hmoves | ⟨g, hg⟩
    · exact pairwise_operation (hmoves.imp fun g g' hmove => hmove.operationID) hs.images
    · rw [hg.images]
      exact pairwise_append_operation
        (pairwise_operation ((retireExpired_moves g.key _).imp fun g g' hmove =>
          hmove.operationID) hs.images)
        hg.operation

theorem commitStorageReservation_storage {s t : Accounts δ} {c : ContentClass}
    {sha256 : δ} {bytes : ℤ} {operation : String} {owner : PinOwner} {hardBytes : ℤ}
    (h : commitStorageReservation s scope c sha256 bytes operation owner hardBytes now = .ok t) :
    t.storage = s.storage := by
  unfold commitStorageReservation reserveReplacementStorage at h
  split_ifs at h
  · rw [← pure_eq_ok.mp h]
  · simp only [bind_eq_ok, pure_eq_ok] at h
    obtain ⟨_, -, rfl⟩ := h
    rfl
  · rw [← pure_eq_ok.mp h]
  · simp only [bind_eq_ok, pure_eq_ok] at h
    obtain ⟨_, -, _, -, rfl⟩ := h
    rfl

theorem Inventory.commit_storage {q : StorageRequest δ} {hardBytes : ℤ} {a : Accounts δ}
    (h : v.commit hardBytes now q = .ok a) : a.storage = v.accounts.storage := by
  cases q with
  | beginWrite owner id =>
    simp only [Inventory.commit] at h
    split at h
    · rw [← pure_eq_ok.mp h]
    · exact commitStorageReservation_storage h
  | beginImageLoad id content store rest layers =>
    simp only [Inventory.commit] at h
    split at h
    · rw [← pure_eq_ok.mp h]
    · exact commitStorageReservation_storage h
  | _ => rw [← pure_eq_ok.mp h]

theorem storageAdmission_storage {s t : Accounts δ} {target : Option StorageScope}
    {owner : PinOwner}
    {configured : Budget} {connections : List Budget} {refs : List (FrozenObject δ)}
    (h : storageAdmission s target owner configured connections refs now = .ok t) :
    t.storage = s.storage := by
  cases target with
  | none => rw [← pure_eq_ok.mp h]
  | some scope =>
    simp only [storageAdmission, bind_eq_ok] at h
    obtain ⟨_, -, _, -, _, -, _, -, _, -, hfold⟩ := h
    refine foldlM_invariant (P := fun a => a.storage = s.storage)
      (fun a p b _ ha hb => ?_) rfl hfold
    simp only [insertReservation, bind_eq_ok, pure_eq_ok] at hb
    obtain ⟨_, -, _, -, rfl⟩ := hb
    exact ha

theorem Inventory.perform_distinct {q : InventoryRequest δ} (hv : v.accounts.storage.Distinct)
    (h : v.perform D now q = .ok v') : v'.accounts.storage.Distinct := by
  cases q with
  | storage q hardBytes =>
    simp only [Inventory.perform, bind_eq_ok, pure_eq_ok] at h
    obtain ⟨a, ha, t, ht, rfl⟩ := h
    rw [Inventory.commit_storage ha] at ht
    exact hv.perform ht
  | admission target owner configured connections refs =>
    simp only [Inventory.perform, bind_eq_ok, pure_eq_ok] at h
    obtain ⟨a, ha, rfl⟩ := h
    rw [storageAdmission_storage ha]
    exact hv
  | releaseAttempt owner =>
    obtain rfl := pure_eq_ok.mp h
    exact hv

/-! ### Schedules -/

def Scanning.listedAt (sc : Scanning δ) : ContentClass → Option ℤ
  | .cache => sc.volumesAt
  | .image => sc.imagesAt

/-- The object is on the host. -/
def World.Holds (w : World δ) (scope : StorageScope) (o : StorageObject δ) : Prop :=
  ∃ b ∈ w.host scope, b.object = o

variable {es es' : List (Occurrence δ)} {e : Occurrence δ} {sc sc' : Scanning δ} {w w' : World δ}

/-- What the scan lists of a class is on the host at the instant of the listing, and all of it. -/
def Scanning.Shows (D : Digests δ) (es : List (Occurrence δ)) (sc : Scanning δ) : Prop :=
  ∀ c, ∀ x ∈ sc.listedAt c, ∃ p, p <+: es ∧ (Run.run (World.step D) {} p).clock = x ∧
    ∀ o, c.eviction.covers o = true → (Run.run (World.step D) {} p).Holds sc.scope o →
      o ∈ sc.objects.map (·.object)

theorem Scanning.Shows.mono (h : sc.Shows D es) (hes : es <+: es') : sc.Shows D es' :=
  fun c x hx => by
  obtain ⟨p, hp, hshows⟩ := h c x hx
  exact ⟨p, hp.trans hes, hshows⟩

/-- The scan goes through its steps in order. -/
structure Scanning.Follows (D : Digests δ) (es : List (Occurrence δ)) (sc : Scanning δ) : Prop where
  shows : sc.Shows D es
  volumes : sc.imagesAt.isSome = true → sc.volumesAt.isSome = true
  images : sc.observedAt.isSome = true → sc.imagesAt.isSome = true

theorem Scanning.Follows.mono (h : sc.Follows D es) (hes : es <+: es') : sc.Follows D es' :=
  ⟨h.shows.mono hes, h.volumes, h.images⟩

/-- A listing of one more class. -/
theorem Scanning.Shows.list (h : sc.Shows D es) (c : ContentClass)
    (hw : Run.run (World.step D) {} (es ++ [e]) = w') (hclock : w'.clock = e.instant)
    (hscope : sc'.scope = sc.scope)
    (hobjects : sc'.objects.map (·.object) =
      sc.objects.map (·.object) ++ (w'.listed sc.scope c.eviction).map (·.object))
    (hnew : sc'.listedAt c = some e.instant) (hold : ∀ d, d ≠ c → sc'.listedAt d = sc.listedAt d) :
    sc'.Shows D (es ++ [e]) := by
  intro d x hx
  by_cases hd : d = c
  · subst hd
    rw [hnew, Option.mem_some_iff] at hx
    refine ⟨es ++ [e], List.prefix_refl _, by rw [hw, hclock, hx], fun o ho hholds => ?_⟩
    rw [hw, hscope] at hholds
    obtain ⟨b, hb, rfl⟩ := hholds
    rw [hobjects]
    exact List.mem_append_right _ (List.mem_map.mpr ⟨b, List.mem_filter.mpr ⟨hb, ho⟩, rfl⟩)
  · rw [hold d hd] at hx
    obtain ⟨p, hp, hclock, hshows⟩ := h d x hx
    refine ⟨p, hp.trans (List.prefix_append es [e]), hclock, fun o ho hholds => ?_⟩
    rw [hscope] at hholds
    rw [hobjects]
    exact List.mem_append_left _ (hshows o ho hholds)

omit [DecidableEq δ] in
theorem World.commit_ok {f : ℤ → Except Err (Inventory δ)} (h : w.commit f = some w') :
    ∃ now v next, f now = .ok v ∧ w' = { w with inventory := { v with accounts := { v.accounts with
      storage := { v.accounts.storage with floor := next } } } } := by
  unfold World.commit at h
  have h := toOption_eq_some h
  simp only [bind_eq_ok, pure_eq_ok, Prod.exists] at h
  obtain ⟨now, next, -, v, hv, rfl⟩ := h
  exact ⟨now, v, next, hv, rfl⟩

omit [DecidableEq δ] in
theorem World.scan_ok {n : ℕ} {f : Scanning δ → Option (Scanning δ)} (h : w.scan n f = some w') :
    ∃ sc sc', w.scans n = some sc ∧ f sc = some sc' ∧
      w' = { w with scans := Function.update w.scans n (some sc') } := by
  simp only [World.scan, Option.map_eq_some_iff, Option.bind_eq_some_iff] at h
  obtain ⟨sc', ⟨sc, hsc, hf⟩, rfl⟩ := h
  exact ⟨sc, sc', hsc, hf, rfl⟩

/-- What holds along every schedule. -/
structure World.Followed (D : Digests δ) (es : List (Occurrence δ)) (w : World δ) : Prop where
  distinct : w.inventory.accounts.storage.Distinct
  shows : ∀ n sc, w.scans n = some sc → sc.Follows D es

omit [DecidableEq δ] in
theorem covers_orphanVolume (o : StorageObject δ) :
    StorageAction.orphanVolume.covers o = StorageAction.evictCache.covers o := by cases o <;> rfl

omit [DecidableEq δ] in
theorem covers_orphanImage (o : StorageObject δ) :
    StorageAction.orphanImage.covers o = StorageAction.evictImage.covers o := by cases o <;> rfl

theorem follows_update {scans : ℕ → Option (Scanning δ)} {n : ℕ}
    (h : ∀ m sc, scans m = some sc → sc.Follows D es) (hsc : sc'.Follows D (es ++ [e])) :
    ∀ m sc, Function.update scans n (some sc') m = some sc → sc.Follows D (es ++ [e]) := by
  intro m sc hm
  by_cases hmn : m = n
  · subst hmn
    rw [Function.update_self, Option.some_inj] at hm
    exact hm ▸ hsc
  · rw [Function.update_of_ne hmn] at hm
    exact (h m sc hm).mono (List.prefix_append es [e])

theorem World.Followed.step (hw : w.Followed D es) (hrun : Run.run (World.step D) {} es = w)
    (h : w.step D e = some w') : w'.Followed D (es ++ [e]) := by
  have hrun' : Run.run (World.step D) {} (es ++ [e]) = w' := by
    rw [Run.run_concat, hrun, h, Option.getD_some]
  have hkeep : ∀ n sc, w.scans n = some sc → sc.Follows D (es ++ [e]) :=
    fun n sc hsc => (hw.shows n sc hsc).mono (List.prefix_append es [e])
  unfold World.step at h
  split_ifs at h with hinstant
  cases hh : e.happening with
  | create scope o =>
    simp only [hh, World.happen, Option.some_inj] at h
    subst h
    exact ⟨hw.distinct, hkeep⟩
  | delete scope o =>
    simp only [hh, World.happen, Option.some_inj] at h
    subst h
    exact ⟨hw.distinct, hkeep⟩
  | transact q =>
    simp only [hh, World.happen] at h
    obtain ⟨now, v, next, hv, rfl⟩ := World.commit_ok h
    have hd := Inventory.perform_distinct hw.distinct hv
    exact ⟨⟨hd.caches, hd.images⟩, hkeep⟩
  | listContainers n scope =>
    simp only [hh, World.happen, Option.some_inj] at h
    subst h
    refine ⟨hw.distinct, follows_update hw.shows ⟨fun c x hx => ?_, fun h => h, fun h => h⟩⟩
    cases c <;> cases hx
  | listVolumes n =>
    simp only [hh, World.happen] at h
    obtain ⟨sc, sc', hsc, hf, rfl⟩ := World.scan_ok h
    have hsc := hw.shows n sc hsc
    split_ifs at hf with hlisted
    obtain rfl := Option.some_inj.mp hf
    refine ⟨hw.distinct, follows_update hw.shows
      ⟨hsc.shows.list .cache hrun' rfl rfl ?_ rfl ?_, fun _ => rfl, hsc.images⟩⟩
    · simp [World.listed, covers_orphanVolume, ContentClass.eviction]
    · intro d hd
      cases d with
      | cache => exact absurd rfl hd
      | image => rfl
  | listImages n =>
    simp only [hh, World.happen] at h
    obtain ⟨sc, sc', hsc, hf, rfl⟩ := World.scan_ok h
    have hsc := hw.shows n sc hsc
    split_ifs at hf with hlisted
    obtain rfl := Option.some_inj.mp hf
    refine ⟨hw.distinct, follows_update hw.shows
      ⟨hsc.shows.list .image hrun' rfl rfl ?_ rfl ?_, fun _ => ?_, fun _ => rfl⟩⟩
    rotate_left 2
    · simp only [Bool.or_eq_true, not_or, Option.isNone_iff_eq_none] at hlisted
      exact Option.isSome_iff_ne_none.mpr hlisted.1
    · simp [World.listed, covers_orphanImage, ContentClass.eviction]
    · intro d hd
      cases d with
      | cache => rfl
      | image => exact absurd rfl hd
  | observe n =>
    simp only [hh, World.happen] at h
    obtain ⟨sc, sc', hsc, hf, rfl⟩ := World.scan_ok h
    have hsc := hkeep n sc hsc
    split_ifs at hf with hlisted
    obtain rfl := Option.some_inj.mp hf
    refine ⟨hw.distinct, follows_update hw.shows ⟨hsc.shows, hsc.volumes, fun _ => ?_⟩⟩
    simp only [Bool.or_eq_true, not_or, Option.isNone_iff_eq_none] at hlisted
    exact Option.isSome_iff_ne_none.mpr hlisted.1
  | record n =>
    simp only [hh, World.happen] at h
    split at h
    · obtain ⟨now, v, next, hv, rfl⟩ := World.commit_ok h
      have hstorage := (recordStorageScan_ok hv).2
      refine ⟨?_, hkeep⟩
      have hd := hw.distinct
      rw [← hstorage] at hd
      exact ⟨hd.caches, hd.images⟩
    · cases h

theorem followed_run (D : Digests δ) (es : List (Occurrence δ)) :
    (Run.run (World.step D) {} es).Followed D es := by
  induction es using List.reverseRecOn with
  | nil => exact ⟨⟨.nil, .nil⟩, fun _ _ h => by cases h⟩
  | append_singleton es e ih =>
    cases h : World.step D (Run.run (World.step D) {} es) e with
    | none =>
      rw [Run.run_concat, h, Option.getD_none]
      exact ⟨ih.distinct, fun n sc hsc => (ih.shows n sc hsc).mono (List.prefix_append es [e])⟩
    | some w' =>
      rw [Run.run_concat, h, Option.getD_some]
      exact ih.step rfl h

/-! ### Absence after retirement -/

/-- When the scan is recorded, no absent object was retired between the listing of its class and the
end of the scan. -/
def World.Timely (w : World δ) (e : Occurrence δ) : Prop :=
  match e.happening with
  | .record n => ∀ sc ∈ w.scans n, ∀ item ∈ w.inventory.retiredObjects sc.scope,
      item.object ∉ sc.objects.map (·.object) →
        ∀ retired ∈ item.retiredAt, ∀ t ∈ sc.observedAt, retired ≤ t →
        ∀ x ∈ sc.listedAt item.contentClass, retired ≤ x
  | _ => True

instance (w : World δ) (e : Occurrence δ) : Decidable (w.Timely e) := by
  unfold World.Timely
  cases e.happening <;> infer_instance

/-- The object was off its host at some instant since its retirement. -/
def GoneSince (D : Digests δ) (es : List (Occurrence δ)) (scope : StorageScope)
    (o : StorageObject δ) (retiredAt : Option ℤ) : Prop :=
  ∃ p, p <+: es ∧ (∃ retired ∈ retiredAt, retired ≤ (Run.run (World.step D) {} p).clock) ∧
    ¬ (Run.run (World.step D) {} p).Holds scope o

omit [DecidableEq δ] in
theorem mem_retiredObjects {item : RetiredObject δ} (h : item ∈ v.retiredObjects scope) :
    (∃ g ∈ v.accounts.storage.caches, g.key.scope = scope ∧
      item = ⟨.cache, .volume g.volumeName, g.operationID, v.cacheRetiredAt g.id⟩) ∨
    ∃ g ∈ v.accounts.storage.images, g.key.scope = scope ∧ ∃ i, g.expectedImageID = some i ∧
      item = ⟨.image, .image i, g.operationID, v.imageRetiredAt g.id⟩ := by
  simp only [Inventory.retiredObjects, List.mem_append, List.mem_map, List.mem_filterMap,
    List.mem_filter, Bool.and_eq_true, decide_eq_true_eq, Option.map_eq_some_iff] at h
  rcases h with ⟨g, ⟨hg, ⟨hscope, -⟩, -⟩, rfl⟩ | ⟨g, ⟨hg, ⟨hscope, -⟩, -⟩, i, hi, rfl⟩
  · exact .inl ⟨g, hg, hscope, rfl⟩
  · exact .inr ⟨g, hg, hscope, i, hi, rfl⟩

omit [DecidableEq δ] in
theorem retiredObjects_covers {item : RetiredObject δ} (h : item ∈ v.retiredObjects scope) :
    item.contentClass.eviction.covers item.object = true := by
  rcases mem_retiredObjects h with ⟨g, -, -, rfl⟩ | ⟨g, -, -, i, -, rfl⟩ <;> rfl

/-- A record that meets the condition releases the bounds of objects that were gone since their
retirement. -/
theorem record_releases {n : ℕ} {r r' : Reservation δ} (hw : w.Followed D es) (htimely : w.Timely e)
    (hrecord : e.happening = .record n) (hstep : w.step D e = some w')
    (hr : (r, r') ∈ w.inventory.accounts.reservations.zip w'.inventory.accounts.reservations)
    (hchange : r'.state ≠ r.state) :
    ∃ scope, ∃ item ∈ w.inventory.retiredObjects scope,
      r.boundOf scope item.contentClass item.operation ∧
        GoneSince D es scope item.object item.retiredAt := by
  unfold World.step at hstep
  split_ifs at hstep
  simp only [hrecord, World.happen] at hstep
  split at hstep
  · next scope objects volumesAt imagesAt observedAt hsc =>
    obtain ⟨now, v, next, hv, rfl⟩ := World.commit_ok hstep
    have hfollows := hw.shows n _ hsc
    have hsettles := (List.forall₂_iff_zip.mp (recordStorageScan_ok hv).1).2 hr
    rcases hsettles with rfl | ⟨-, item, hitem, hbound, habsent, retired, hretired, hle⟩
    · exact absurd rfl hchange
    · have himages := hfollows.images rfl
      have hlisted :
          ∃ x, x ∈ Scanning.listedAt ⟨scope, objects, volumesAt, imagesAt, some observedAt⟩
          item.contentClass := by
        cases item.contentClass with
        | cache => exact Option.isSome_iff_exists.mp (hfollows.volumes himages)
        | image => exact Option.isSome_iff_exists.mp himages
      obtain ⟨x, hx⟩ := hlisted
      obtain ⟨p, hp, hclock, hshows⟩ := hfollows.shows item.contentClass x hx
      refine ⟨scope, item, hitem, hbound, p, hp, ⟨retired, hretired, ?_⟩, fun hholds => ?_⟩
      · rw [hclock]
        simp only [World.Timely, hrecord] at htimely
        exact htimely _ hsc item hitem habsent retired hretired observedAt rfl hle x hx
      · exact habsent (hshows item.object (retiredObjects_covers hitem) hholds)
  · cases hstep

theorem eq_of_operationID {α : Type*} {operationID : α → String} {l : List α}
    (h : l.Pairwise fun g h => operationID g ≠ operationID h) {g g' : α} (hg : g ∈ l) (hg' : g' ∈ l)
    (hop : operationID g = operationID g') : g = g' := by
  by_contra hne
  have : Std.Symm fun g h : α => operationID g ≠ operationID h := ⟨fun _ _ h => h.symm⟩
  exact h.forall hg hg' hne hop

/-- **Absence settles a reservation after retirement.** In every schedule in which no absent object
is retired between the listing of its class and the end of its scan, the bound of a retired
generation that a record releases is that of an object that was off its host at some instant since
the retirement. -/
theorem absence_settles_reservation (D : Digests δ) (es : List (Occurrence δ))
    (htimely : Run.Along (World.step D) World.Timely {} es) (before : List (Occurrence δ))
    (e : Occurrence δ) (n : ℕ)
    (hlead : before ++ [e] <+: es) (hrecord : e.happening = .record n) (w' : World δ)
    (hstep : (Run.run (World.step D) {} before).step D e = some w') (r r' : Reservation δ)
    (hr : (r, r') ∈ (Run.run (World.step D) {} before).inventory.accounts.reservations.zip
      w'.inventory.accounts.reservations)
    (hcommitted : r.state = .committed) (hreleased : r'.state = .released) :
    let v := (Run.run (World.step D) {} before).inventory
    (∀ g ∈ v.accounts.storage.caches, g.state = .retired →
      r.boundOf g.key.scope .cache g.operationID →
      GoneSince D before g.key.scope (.volume g.volumeName) (v.cacheRetiredAt g.id)) ∧
    (∀ g ∈ v.accounts.storage.images, g.state = .retired →
      r.boundOf g.key.scope .image g.operationID →
      ∃ i, g.expectedImageID = some i ∧
        GoneSince D before g.key.scope (.image i) (v.imageRetiredAt g.id)) := by
  intro v
  have hfollowed := followed_run D before
  have hcondition : (Run.run (World.step D) {} before).Timely e := by
    obtain ⟨rest, rfl⟩ := hlead
    rw [Run.along_append, Run.along_append] at htimely
    exact htimely.1.2.1 (by simp [hstep])
  obtain ⟨scope, item, hitem, hbound, hgone⟩ :=
    record_releases hfollowed hcondition hrecord hstep hr
    (by rw [hcommitted, hreleased]; decide)
  obtain ⟨hscope, ⟨sha256, bytes, hresource⟩, hoperation⟩ := hbound
  refine ⟨fun g hg _ hg' => ?_, fun g hg _ hg' => ?_⟩
  · obtain ⟨hgscope, ⟨sha256', bytes', hgresource⟩, hgoperation⟩ := hg'
    rw [← hgscope, hscope]
    rcases mem_retiredObjects hitem with ⟨g', hg'mem, -, rfl⟩ | ⟨g', -, -, i, -, rfl⟩
    · obtain rfl := eq_of_operationID hfollowed.distinct.caches hg hg'mem
        (Option.some_inj.mp (hgoperation.symm.trans hoperation))
      exact hgone
    · rw [hgresource] at hresource
      cases hresource
  · obtain ⟨hgscope, ⟨sha256', bytes', hgresource⟩, hgoperation⟩ := hg'
    rw [← hgscope, hscope]
    rcases mem_retiredObjects hitem with ⟨g', -, -, rfl⟩ | ⟨g', hg'mem, -, i, hi, rfl⟩
    · rw [hgresource] at hresource
      cases hresource
    · obtain rfl := eq_of_operationID hfollowed.distinct.images hg hg'mem
        (Option.some_inj.mp (hgoperation.symm.trans hoperation))
      exact ⟨i, hi, hgone⟩

/-- What happens some seconds after the start of the sample. -/
def sampleEvent (seconds : ℤ) (h : Happening Term) : Occurrence Term :=
  ⟨1700000000000000000 + seconds * 1000000000, h⟩

/-- After a first scan a cache is admitted, claimed and written to. -/
def sampleWriting : List (Occurrence Term) :=
  [.listContainers 0 sampleKey.scope, .listVolumes 0, .listImages 0, .observe 0, .record 0,
    .transact (.admission (some sampleKey.scope) (sampleImageOwner "a") ⟨2 ^ 40, 2 ^ 41⟩ []
      [⟨.bundle, sampleKey.sha256, sampleKey.bytes⟩]),
    .transact (.storage
      (.pinAdmission (sampleImageOwner "a") sampleKey.scope [(.archive [1], 1)] none) 0),
    .transact (.storage (.claimCache (sampleImageOwner "a") sampleKey "1" "hcop_1") 0),
    .transact (.storage (.beginWrite (sampleImageOwner "a") "hcgen_1") 0)].map (sampleEvent 0)

def sampleVolume : ObservedObject Term := ⟨.volume "relay-cache-1", some 1, true, none⟩

/-- The writer finishes, and its generation is retired. -/
def sampleRetiring (seconds : ℤ) : List (Occurrence Term) :=
  [.create sampleKey.scope sampleVolume,
    .transact (.storage (.finishWrite (sampleImageOwner "a") "hcgen_1") 0),
    .transact (.storage (.retireCache "hcgen_1") 0)].map (sampleEvent seconds)

/-- The volume goes before the scan that settles its reservation. -/
def sampleGone : List (Occurrence Term) :=
  sampleWriting ++ sampleRetiring 1 ++
    [sampleEvent 2 (.delete sampleKey.scope sampleVolume.object),
      sampleEvent 3 (.listContainers 1 sampleKey.scope), sampleEvent 4 (.listVolumes 1),
      sampleEvent 5 (.listImages 1), sampleEvent 6 (.observe 1)]

def sampleBound (state : ReservationState) : Reservation Term :=
  { scope := sampleKey.scope
    resource := .content .cache sampleKey.sha256 sampleKey.bytes
    bytes := 1
    owner := sampleImageOwner "a"
    operation := some "hcop_1"
    state }

def sampleRetired : CacheGeneration Term :=
  { id := "hcgen_1"
    key := sampleKey
    volumeName := "relay-cache-1"
    operationID := "hcop_1"
    owner := sampleImageOwner "a"
    state := .retired
    writerPhase := .finished }

theorem sampleGone_records :
    ((Run.run (World.step .terms) {} sampleGone).step .terms (sampleEvent 7 (.record 1))).isSome =
      true := by
  decide +kernel

theorem gone_reservation_settled :
    GoneSince .terms sampleGone sampleKey.scope (.volume "relay-cache-1")
      ((Run.run (World.step .terms) {} sampleGone).inventory.cacheRetiredAt "hcgen_1") :=
  (absence_settles_reservation .terms (sampleGone ++ [sampleEvent 7 (.record 1)])
    (by decide +kernel) sampleGone
    (sampleEvent 7 (.record 1)) 1 (List.prefix_refl _) rfl _
      (Option.some_get sampleGone_records).symm
    (sampleBound .committed) (sampleBound .released) (by decide +kernel) rfl rfl).1 sampleRetired
    (by decide +kernel) rfl ⟨rfl, ⟨_, _, rfl⟩, rfl⟩

/-- The volume is created after the listing of volumes, and its generation retired before the end of
the scan. -/
def sampleHidden : List (Occurrence Term) :=
  sampleWriting ++ [sampleEvent 1 (.listContainers 1 sampleKey.scope),
    sampleEvent 2 (.listVolumes 1)] ++
    sampleRetiring 3 ++ [sampleEvent 4 (.listImages 1), sampleEvent 5 (.observe 1)]

theorem sampleHidden_holds : ∀ p ∈ sampleHidden.inits,
    ∀ retired ∈ (Run.run (World.step .terms) {} sampleHidden).inventory.cacheRetiredAt "hcgen_1",
      retired ≤ (Run.run (World.step .terms) {} p).clock →
        sampleVolume.object ∈
        ((Run.run (World.step .terms) {} p).host sampleKey.scope).map (·.object) := by
  decide +kernel

/-- Its reservation is released although the volume was on the host ever since. -/
theorem reservation_released_in_presence :
    let w := Run.run (World.step .terms) {} sampleHidden
    let w' := Run.run (World.step .terms) {} (sampleHidden ++ [sampleEvent 6 (.record 1)])
    sampleRetired ∈ w.inventory.accounts.storage.caches ∧
      (sampleBound .committed, sampleBound .released) ∈
        w.inventory.accounts.reservations.zip w'.inventory.accounts.reservations ∧
      ¬ GoneSince .terms sampleHidden sampleKey.scope (.volume "relay-cache-1")
        (w.inventory.cacheRetiredAt "hcgen_1") := by
  refine ⟨by decide +kernel, by decide +kernel, ?_⟩
  rintro ⟨p, hp, ⟨retired, hretired, hle⟩, habsent⟩
  obtain ⟨b, hb, hobject⟩ := List.mem_map.mp
    (sampleHidden_holds p ((List.mem_inits p sampleHidden).mpr hp) retired hretired hle)
  exact habsent ⟨b, hb, hobject⟩

end Store
end ComputeRelay
