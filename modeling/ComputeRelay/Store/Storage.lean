import Mathlib.Tactic
import ComputeRelay.Lib.Rows
import ComputeRelay.Lib.Run
import ComputeRelay.Store.Attempt

/-!
# Content on a host: caches, application images and their deletion

The tables of `internal/store/sqlite/migrations/0033` to `0035` and the transactions on them:

* `host_cache.go`, `host_application_image.go`: the pins of an attempt, taken when a job is admitted
  and copied by a retry, and the generations of a cache volume or an application image;
* `storage_fence.go`: content whose deletion is open takes no new pin. The check is made by the Go
  code of an admission, and once more, for every insertion, by a trigger;
* `storage_eviction.go`, `storage_cleanup_work.go`: evictions are queued for content without a pin,
  leased to a worker, begun after one more look at the pins, and settled by their outcome.

Content is named by its SHA-256, of which nothing is assumed here. The identity of an image is the
digest of its normalised config, or of the manifest that names that config, and the config carries
the digest of the archive in a label.
-/

namespace ComputeRelay
namespace Store

open Domain Provider Scheduler Dispatch

/-! ### Digests -/

/-- `hoststorage.Scope`: one engine of one machine, as this installation knows it. -/
structure StorageScope where
  installationID : String
  machineID : String
  engineID : String
  deriving DecidableEq

/-- `hostcache.Key` and `hostimages.Key`: some content on one engine. -/
structure ContentKey (δ : Type) where
  scope : StorageScope
  sha256 : δ
  bytes : ℤ
  deriving DecidableEq

/-- The labels `rewriteConfig` adds to the config of an image; the kind and the schema of an
application image are constant. -/
structure ImageLabels (δ : Type) where
  installation : String
  archive : δ
  machine : String
  engine : String
  deriving DecidableEq

/-- The documents that are named by their digest. -/
inductive Document (δ : Type)
  | archive (content : List UInt8)
  | config (labels : ImageLabels δ) (rest : String)
  | manifest (config : δ) (layers : List String)
  deriving DecidableEq

/-- SHA-256. -/
structure Digests (δ : Type) where
  sha256 : Document δ → δ

/-- The image stores of an engine, which `applicationImageID` tells apart. -/
inductive ImageStore
  | classic | containerd
  deriving DecidableEq

/-- `hostimages.Prepared`: a normalised image. -/
structure Prepared (δ : Type) where
  labels : ImageLabels δ
  rest : String
  layers : List String

section Digests

variable {δ : Type} (D : Digests δ)

/-- The labels `Normalize` gives the image of a key. -/
def imageLabels (k : ContentKey δ) : ImageLabels δ :=
  { installation := k.scope.installationID
    archive := k.sha256
    machine := k.scope.machineID
    engine := k.scope.engineID }

/-- `applicationImageID`: the digest of the config, or of the manifest that names it. -/
def applicationImageID (p : Prepared δ) : ImageStore → δ
  | .classic => D.sha256 (.config p.labels p.rest)
  | .containerd => D.sha256 (.manifest (D.sha256 (.config p.labels p.rest)) p.layers)

end Digests

/-! ### Rows -/

/-- `hostcache.Attempt`. -/
structure PinOwner where
  workspaceID : String
  jobID : String
  attemptID : String
  deriving DecidableEq

/-- A row of `host_cache_pins`. -/
structure CachePin (δ : Type) where
  owner : PinOwner
  key : ContentKey δ
  released : Bool := false

/-- A row of `host_application_image_pins`. -/
structure ImagePin (δ : Type) where
  owner : PinOwner
  key : ContentKey δ
  objectID : String
  released : Bool := false

inductive CacheState
  | claimed | verified | retired
  deriving DecidableEq

inductive WriterPhase
  | intent | begun | finished
  deriving DecidableEq

/-- A row of `host_cache_generations`. -/
structure CacheGeneration (δ : Type) where
  id : String
  key : ContentKey δ
  volumeName : String
  operationID : String
  owner : PinOwner
  state : CacheState := .claimed
  writerPhase : WriterPhase := .intent
  deriving DecidableEq

inductive ImageState
  | preparing | loading | ready | unknown | retired
  deriving DecidableEq

/-- A row of `host_application_images`. -/
structure ImageGeneration (δ : Type) where
  id : String
  key : ContentKey δ
  operationID : String
  owner : PinOwner
  objectID : String
  /-- Empty until the load of the image begins. -/
  expectedImageID : Option δ := none
  state : ImageState := .preparing
  leaseUntil : ℤ
  deriving DecidableEq

inductive StorageAction
  | orphanContainer | orphanVolume | orphanImage | evictCache | evictImage
  deriving DecidableEq

/-- The class and the identity of an object of the engine. -/
inductive StorageObject (δ : Type)
  | container (id : String)
  | volume (name : String)
  | image (id : δ)
  deriving DecidableEq

/-- The class of an object is that of the action: `Target.Valid`. -/
def StorageAction.covers {δ : Type} : StorageAction → StorageObject δ → Bool
  | .orphanContainer, .container _ => true
  | .orphanVolume, .volume _ | .evictCache, .volume _ => true
  | .orphanImage, .image _ | .evictImage, .image _ => true
  | _, _ => false

inductive StorageStatus
  | accepted | running | succeeded | failed
  deriving DecidableEq

inductive StorageResult
  | pending | running | deleted | absent | retained | unknown
  deriving DecidableEq

/-- A row of `host_storage_cleanup_leases`. -/
structure StorageLease where
  generation : ℤ
  fence : String
  untilMs : ℤ
  deriving DecidableEq

/-- What the column `key_sha256` of an operation is the digest of: the idempotency key of a request,
or the fingerprint of an eviction. -/
inductive StorageKey (δ : Type)
  | request (key : String)
  | eviction (scope : StorageScope) (object : StorageObject δ) (scanSeq : ℤ)
  deriving DecidableEq

/-- A row of `host_storage_cleanup_operations`, with its lease. -/
structure StorageOperation (δ : Type) where
  id : String
  workspaceID : String
  key : StorageKey δ
  scope : StorageScope
  action : StorageAction
  object : StorageObject δ
  status : StorageStatus := .accepted
  result : StorageResult := .pending
  reason : String
  confirmedScan : ℤ := 0
  lease : Option StorageLease := none

/-- The deletion owns its target until it settles. An unknown result keeps that fence. -/
def StorageOperation.isOpen {δ : Type} (o : StorageOperation δ) : Bool :=
  o.status = .accepted || o.status = .running || o.result = .unknown

/-- The tables on the content of hosts. -/
structure Storage (δ : Type) where
  floor : ℤ := 0
  caches : List (CacheGeneration δ) := []
  images : List (ImageGeneration δ) := []
  cachePins : List (CachePin δ) := []
  imagePins : List (ImagePin δ) := []
  operations : List (StorageOperation δ) := []

/-! ### The fence -/

/-- The two kinds of content. -/
inductive ContentClass
  | cache | image
  deriving DecidableEq

section Transactions

variable {δ : Type} [DecidableEq δ]

/-- The objects that the generations of a class own, with their keys. -/
def Storage.contents (s : Storage δ) : ContentClass → List (ContentKey δ × StorageObject δ)
  | .cache => s.caches.map fun g => (g.key, .volume g.volumeName)
  | .image => s.images.filterMap fun g => g.expectedImageID.map fun i => (g.key, .image i)

/-- The keys of the unreleased pins of a class. -/
def Storage.pinned (s : Storage δ) : ContentClass → List (ContentKey δ)
  | .cache => (s.cachePins.filter fun p => !p.released).map (·.key)
  | .image => (s.imagePins.filter fun p => !p.released).map (·.key)

/-- `storageContentFencedInTx`, and the condition of the two triggers. -/
def storageContentFenced (s : Storage δ) (c : ContentClass) (k : ContentKey δ) : Bool :=
  (s.contents c).any fun e => e.1 = k &&
    s.operations.any fun o => o.scope = k.scope && o.object = e.2 && o.isOpen

/-! ### Pins -/

/-- An insertion into `host_cache_pins`, behind its primary key and its trigger. -/
def insertCachePin (s : Storage δ) (owner : PinOwner) (k : ContentKey δ) :
    Except Err (Storage δ) := do
  require (s.cachePins.all fun p => !(p.owner = owner && p.key = k)) .conflict
  require (!storageContentFenced s .cache k) .conflict
  pure { s with cachePins := s.cachePins ++ [{ owner, key := k }] }

/-- An insertion into `host_application_image_pins`; an attempt has one pin. -/
def insertImagePin (s : Storage δ) (owner : PinOwner) (k : ContentKey δ) (objectID : String) :
    Except Err (Storage δ) := do
  require (s.imagePins.all fun p => p.owner ≠ owner) .conflict
  require (!storageContentFenced s .image k) .conflict
  pure { s with imagePins := s.imagePins ++ [{ owner, key := k, objectID }] }

/-- The loop of `pinHostCacheAdmission`, over the bundle and the inputs. -/
def pinCaches (s : Storage δ) (owner : PinOwner) : List (ContentKey δ) → Except Err (Storage δ)
  | [] => pure s
  | k :: ks => do
    require (!storageContentFenced s .cache k) .storageIneligible
    let s ← insertCachePin s owner k
    pinCaches s owner ks

/-- `pinHostCacheAdmission`: content that is named twice is pinned once. -/
def pinHostCacheAdmission (s : Storage δ) (owner : PinOwner) (scope : StorageScope)
    (refs : List (δ × ℤ)) : Except Err (Storage δ) :=
  pinCaches s owner (refs.eraseDups.map fun r => { scope, sha256 := r.1, bytes := r.2 })

/-- `pinHostApplicationImageAdmission`. -/
def pinHostApplicationImageAdmission (s : Storage δ) (owner : PinOwner) (scope : StorageScope) :
    Option (δ × ℤ × String) → Except Err (Storage δ)
  | none => pure s
  | some (sha256, bytes, objectID) => do
    require (!storageContentFenced s .image { scope, sha256, bytes }) .storageIneligible
    insertImagePin s owner { scope, sha256, bytes } objectID

/-- The pins of a job that is admitted. -/
def pinAdmission (s : Storage δ) (owner : PinOwner) (scope : StorageScope) (refs : List (δ × ℤ))
    (image : Option (δ × ℤ × String)) : Except Err (Storage δ) := do
  let s ← pinHostCacheAdmission s owner scope refs
  pinHostApplicationImageAdmission s owner scope image

/-- The rows a retry inserts: those of the old attempt, released or not. There is no check but the
trigger. -/
def copyCachePins (s : Storage δ) (new : PinOwner) : List (CachePin δ) → Except Err (Storage δ)
  | [] => pure s
  | p :: ps => do
    let s ← insertCachePin s new p.key
    copyCachePins s new ps

def copyImagePins (s : Storage δ) (new : PinOwner) : List (ImagePin δ) → Except Err (Storage δ)
  | [] => pure s
  | p :: ps => do
    let s ← insertImagePin s new p.key p.objectID
    copyImagePins s new ps

/-- `pinHostCacheRetry`. -/
def pinHostCacheRetry (s : Storage δ) (old new : PinOwner) : Except Err (Storage δ) := do
  require (old.workspaceID = new.workspaceID && old.jobID = new.jobID) .cacheInvalid
  copyCachePins s new (s.cachePins.filter fun p => p.owner = old)

/-- `pinHostApplicationImageRetry`. -/
def pinHostApplicationImageRetry (s : Storage δ) (old new : PinOwner) : Except Err (Storage δ) :=
  copyImagePins s new (s.imagePins.filter fun p => p.owner = old)

/-- The pins of an attempt that replaces another. -/
def pinRetry (s : Storage δ) (old new : PinOwner) : Except Err (Storage δ) := do
  let s ← pinHostCacheRetry s old new
  pinHostApplicationImageRetry s old new

/-- The release of the pins of an attempt, once its staging container is confirmed deleted or
absent, or when it is cancelled or fails before its preparation. -/
def releaseHostCachePins (s : Storage δ) (owner : PinOwner) : Storage δ :=
  { s with cachePins := s.cachePins.map fun p =>
      if p.owner = owner then { p with released := true } else p }

/-- `releaseHostApplicationImagePins`. -/
def releaseHostApplicationImagePins (s : Storage δ) (owner : PinOwner) : Storage δ :=
  { s with imagePins := s.imagePins.map fun p =>
      if p.owner = owner then { p with released := true } else p }

/-! ### Cache generations -/

/-- `Store.Claim`: the active generation of the key, or a new one, of a pinned key. -/
def claimCache (s : Storage δ) (owner : PinOwner) (k : ContentKey δ) (id operationID : String) :
    Except Err (Storage δ) := do
  require (s.cachePins.any fun p => p.owner = owner && p.key = k && !p.released) .cacheInvalid
  if s.caches.any fun g => g.key = k && (g.state = .claimed || g.state = .verified) then pure s
  else do
    let g : CacheGeneration δ :=
      { id := "hcgen_" ++ id, key := k, volumeName := "relay-cache-" ++ id, operationID, owner }
    require (s.caches.all fun h =>
      h.id ≠ g.id && h.volumeName ≠ g.volumeName && h.operationID ≠ g.operationID) .conflict
    pure { s with caches := s.caches ++ [g] }

/-- An update of one generation of a cache. -/
def onCache (s : Storage δ) (id : String)
    (f : CacheGeneration δ → Except Err (CacheGeneration δ × Unit)) : Except Err (Storage δ) := do
  let (caches, _) ← Rows.edit (fun g : CacheGeneration δ => g.id = id) f .cacheConflict s.caches
  pure { s with caches }

/-- `BeginWrite`. -/
def beginWrite (s : Storage δ) (owner : PinOwner) (id : String) : Except Err (Storage δ) :=
  onCache s id fun g => do
    require (g.owner = owner && g.state = .claimed) .cacheConflict
    require (g.writerPhase = .intent) .cacheUnknown
    require (!storageContentFenced s .cache g.key) .storageIneligible
    pure ({ g with writerPhase := .begun }, ())

/-- `FinishWrite`. -/
def finishWrite (s : Storage δ) (owner : PinOwner) (id : String) : Except Err (Storage δ) :=
  onCache s id fun g => do
    require (g.owner = owner) .cacheConflict
    require (g.writerPhase = .finished || g.state = .claimed && g.writerPhase = .begun)
      .cacheConflict
    pure ({ g with writerPhase := .finished }, ())

/-- `Verify`, of an observation that matches the generation. -/
def verifyCache (s : Storage δ) (id : String) : Except Err (Storage δ) :=
  onCache s id fun g =>
    match g.state with
    | .verified => pure (g, ())
    | .retired => .error .cacheConflict
    | .claimed => do
      require (g.writerPhase ≠ .intent) .cacheUnknown
      pure ({ g with state := .verified, writerPhase := .finished }, ())

/-- `Retire`, of an observation that the content is missing or corrupt. -/
def retireCache (s : Storage δ) (id : String) : Except Err (Storage δ) :=
  onCache s id fun g => do
    require (!(g.state = .claimed && g.writerPhase ≠ .finished)) .cacheUnknown
    pure ({ g with state := .retired }, ())

/-! ### Image generations -/

/-- `ImageGeneration` rows that `imageByKey` reads. -/
def ImageGeneration.active (g : ImageGeneration δ) : Bool := g.state ≠ .retired

/-- An unfinished preparation whose lease has run out. -/
def ImageGeneration.expired (g : ImageGeneration δ) (now : ℤ) : Bool :=
  g.state = .preparing && g.leaseUntil ≤ now

/-- `ClaimImage`: the active generation of the key, or a new one, of a pinned key. -/
def claimImage (s : Storage δ) (owner : PinOwner) (objectID : String) (k : ContentKey δ)
    (id operationID : String) (now : ℤ) : Except Err (Storage δ) := do
  require (s.imagePins.any fun p =>
    p.owner = owner && p.objectID = objectID && p.key = k && !p.released) .imageState
  let images := s.images.map fun g =>
    if g.key = k && g.expired now then { g with state := .retired } else g
  if images.any fun g => g.key = k && g.active then pure s
  else do
    require (images.all fun g => g.id ≠ id && g.operationID ≠ operationID) .conflict
    pure { s with
      images := images ++
        [{ id, key := k, operationID, owner, objectID, leaseUntil := now + 1800000000000 }] }

/-- An update of one generation of an image. -/
def onImage (s : Storage δ) (id : String)
    (f : ImageGeneration δ → Except Err (ImageGeneration δ × Unit)) : Except Err (Storage δ) := do
  let (images, _) ← Rows.edit (fun g : ImageGeneration δ => g.id = id) f .imageState s.images
  pure { s with images }

/-- The election of `BeginImageLoad`, which compares the texts of the two times. -/
def ImageGeneration.elected (g : ImageGeneration δ) (now : ℤ) : Bool :=
  g.state = .preparing && Rfc3339.formatNano now < Rfc3339.formatNano g.leaseUntil

/-- The update of `BeginImageLoad`, behind `hostimages.Normalize` and `applicationImageID`: the
archive is the one the key names, and its digest goes into the labels of the image. -/
def loadedImage (D : Digests δ) (s : Storage δ) (content : List UInt8) (store : ImageStore)
    (rest : String) (layers : List String) (now : ℤ) (g : ImageGeneration δ) :
    Except Err (ImageGeneration δ × Unit) := do
  require (g.key.bytes = content.length) .digestMismatch
  require (D.sha256 (.archive content) = g.key.sha256) .digestMismatch
  require (g.elected now) .imageState
  require (!storageContentFenced s .image g.key) .storageIneligible
  let prepared : Prepared δ := { labels := imageLabels g.key, rest, layers }
  pure ({ g with
    state := .loading
    expectedImageID := some (applicationImageID D prepared store) }, ())

/-- `BeginImageLoad`, as the provider calls it: the load is recorded with the identity of the
labelled image. -/
def beginImageLoad (D : Digests δ) (s : Storage δ) (id : String) (content : List UInt8)
    (store : ImageStore) (rest : String) (layers : List String) (now : ℤ) :
    Except Err (Storage δ) :=
  onImage s id (loadedImage D s content store rest layers now)

/-- The other updates of an image move its state, behind a check of the old one. -/
def moveImage (s : Storage δ) (id : String) (allowed : ImageState → Bool) (next : ImageState) :
    Except Err (Storage δ) :=
  onImage s id fun g => do
    require (allowed g.state) .imageState
    pure ({ g with state := next }, ())

def retirePreloadImage (s : Storage δ) (id : String) : Except Err (Storage δ) :=
  moveImage s id (fun st => st = .preparing) .retired

def markImageReady (s : Storage δ) (id : String) : Except Err (Storage δ) :=
  moveImage s id (fun st => st = .loading || st = .unknown || st = .ready) .ready

def markImageUnknown (s : Storage δ) (id : String) : Except Err (Storage δ) :=
  moveImage s id (fun st => st = .loading || st = .unknown) .unknown

def retireMissingImage (s : Storage δ) (id : String) : Except Err (Storage δ) :=
  moveImage s id (fun st => st = .ready) .retired

/-! ### Evictions -/

/-- A cache generation whose volume may be deleted. -/
def CacheGeneration.idle (s : Storage δ) (g : CacheGeneration δ) : Bool :=
  (g.state = .verified || g.state = .retired) && g.writerPhase = .finished &&
    !(s.pinned .cache).contains g.key

/-- An image generation whose image may be deleted. -/
def ImageGeneration.idle (s : Storage δ) (g : ImageGeneration δ) : Bool :=
  (g.state = .ready || g.state = .retired) && !(s.pinned .image).contains g.key

/-- `evictionCandidate`: the object, the content it holds, and the generation that owns it. -/
structure EvictionCandidate (δ : Type) where
  object : StorageObject δ
  key : ContentKey δ
  generation : String
  operationID : String
  deriving DecidableEq

/-- The query `eligible` of `QueueStorageEvictions`. -/
def evictionCandidates (s : Storage δ) (scope : StorageScope) : List (EvictionCandidate δ) :=
  ((s.caches.filter fun g => g.key.scope = scope && g.idle s).map fun g =>
    ⟨.volume g.volumeName, g.key, g.id, g.operationID⟩) ++
  (s.images.filter fun g => g.key.scope = scope && g.idle s).filterMap fun g =>
    g.expectedImageID.map fun i => ⟨.image i, g.key, g.id, g.operationID⟩

/-- The labels of a cache volume and of an application image that the loop compares. -/
inductive ObjectLabels (δ : Type)
  | cache (generation operationID : String) (scope : StorageScope) (sha256 : δ) (bytes : ℤ)
  | application (scope : StorageScope) (archive : δ)
  | other
  deriving DecidableEq

/-- An object of a complete scan. -/
structure ScannedObject (δ : Type) where
  object : StorageObject δ
  sizeKnown : Bool
  references : ℤ
  labels : ObjectLabels δ
  charged : ℤ

/-- The labels of a scanned object are those of the candidate. -/
def ScannedObject.labelled (b : ScannedObject δ) (scope : StorageScope)
    (item : EvictionCandidate δ) : Bool :=
  b.labels = match item.object with
    | .volume _ => .cache item.generation item.operationID scope item.key.sha256 item.key.bytes
    | _ => .application scope item.key.sha256

/-- What `QueueStorageEvictions` reads beside the tables above: the latest complete scan with its
counts and charges, the workspace of the profile with its budget, the order in which the query
returns its rows, and the identities the random source gives the new operations. -/
structure EvictionInput (δ : Type) where
  workspaceID : String
  scanSeq : ℤ
  objects : List (ScannedObject δ)
  volumes : ℤ
  images : ℤ
  chargedBytes : ℤ
  softBytes : ℤ
  order : List (EvictionCandidate δ)
  operationID : StorageObject δ → String

def cacheVolumeLimit : ℤ := 64

/-- `hostimages.ImageRetentionTarget`. -/
def imageRetentionTarget : ℤ := 15

/-- How much there still is to evict. -/
structure Excess where
  remaining : ℤ
  volumes : ℤ
  images : ℤ

def Excess.cleared (e : Excess) : Bool := e.remaining ≤ 0 && e.volumes ≤ 0 && e.images ≤ 0

/-- Why a candidate is evicted; `none` when it is passed over. -/
def Excess.reason (e : Excess) : StorageObject δ → Option String
  | .volume _ => if 0 < e.remaining then some "soft_limit_lru"
    else if 0 < e.volumes then some "count_limit_lru" else none
  | .image _ => if 0 < e.remaining then some "soft_limit_lru"
    else if 0 < e.images then some "image_count_limit_lru" else none
  | .container _ => if 0 < e.remaining then some "soft_limit_lru" else none

def Excess.less (e : Excess) (charged : ℤ) : StorageObject δ → Excess
  | .volume _ => { e with remaining := e.remaining - charged, volumes := e.volumes - 1 }
  | .image _ => { e with remaining := e.remaining - charged, images := e.images - 1 }
  | .container _ => { e with remaining := e.remaining - charged }

/-- The target has a deletion that is open, or that the scan does not show yet. -/
def StorageOperation.blocks (o : StorageOperation δ) (scanSeq : ℤ) : Bool :=
  o.isOpen || (o.result = .deleted || o.result = .absent) && scanSeq ≤ o.confirmedScan

def evictionAction : StorageObject δ → StorageAction
  | .image _ => .evictImage
  | _ => .evictCache

/-- An insertion into `host_storage_cleanup_operations`, behind its unique indexes. -/
def insertStorageOperation (ops : List (StorageOperation δ)) (o : StorageOperation δ) :
    Except Err (List (StorageOperation δ)) := do
  require (ops.all fun p => p.id ≠ o.id) .conflict
  require (ops.all fun p => !(p.workspaceID = o.workspaceID && p.key = o.key)) .conflict
  require (ops.all fun p => !(p.scope = o.scope && p.object = o.object &&
    (p.status = .accepted || p.status = .running))) .conflict
  pure (ops ++ [o])

/-- The checks that pass a candidate over, in the order of the loop. -/
def evictionTarget (scope : StorageScope) (i : EvictionInput δ) (ops : List (StorageOperation δ))
    (e : Excess) (item : EvictionCandidate δ) : Option (String × ℤ) := do
  let reason ← e.reason item.object
  let object ← i.objects.find? fun b => b.object = item.object
  if !object.sizeKnown || object.references ≠ 0 || item.key.bytes < 0 ||
    !object.labelled scope item then none
  else if ops.any fun o => o.scope = scope && o.object = item.object && o.blocks i.scanSeq then none
  else some (reason, object.charged)

/-- The loop of `QueueStorageEvictions`. -/
def queueEvictions (scope : StorageScope) (i : EvictionInput δ) (ops : List (StorageOperation δ)) :
    Excess → List (EvictionCandidate δ) → Except Err (List (StorageOperation δ))
  | _, [] => pure ops
  | e, item :: items =>
    if e.cleared then pure ops
    else
      match evictionTarget scope i ops e item with
      | none => queueEvictions scope i ops e items
      | some (reason, charged) => do
        let ops ← insertStorageOperation ops
          { id := i.operationID item.object
            workspaceID := i.workspaceID
            key := .eviction scope item.object i.scanSeq
            scope, action := evictionAction item.object, object := item.object, reason }
        queueEvictions scope i ops (e.less charged item.object) items

/-- The images of the scan whose deletion is under way already. -/
def scheduledImages (scope : StorageScope) (i : EvictionInput δ)
    (ops : List (StorageOperation δ)) : ℤ :=
  (((ops.filter fun o => o.scope = scope && o.blocks i.scanSeq &&
      i.objects.any fun b => b.object = o.object).map (·.object)).filter fun o =>
        StorageAction.orphanImage.covers o).dedup.length

/-- What the scan shows above the budget, the count of volumes and the count of images. -/
def evictionExcess (scope : StorageScope) (i : EvictionInput δ) (ops : List (StorageOperation δ)) :
    Excess :=
  let images := i.images - imageRetentionTarget
  { remaining := i.chargedBytes - i.softBytes
    volumes := i.volumes - cacheVolumeLimit
    images := if 0 < images then images - scheduledImages scope i ops else images }

/-- `QueueStorageEvictions`, once the connection is enabled and the scan complete and fresh. The
labels of a scan are short enough for an operation, since `RecordStorageScan` has bounded them. -/
def queueStorageEvictions (s : Storage δ) (scope : StorageScope) (i : EvictionInput δ) :
    Except Err (Storage δ) :=
  if (evictionExcess scope i s.operations).cleared then pure s
  else do
    require (i.order.isPerm (evictionCandidates s scope)) .invalid
    require (i.order.length ≤ 2048) .storageUnknown
    let operations ← queueEvictions scope i s.operations
      (evictionExcess scope i s.operations) i.order
    pure { s with operations }

/-- `AdmitStorageCleanup`, of an object no row knows: its preview and the scan it comes from are
open. -/
def admitStorageCleanup (s : Storage δ) (id workspaceID key : String) (scope : StorageScope)
    (action : StorageAction) (object : StorageObject δ) : Except Err (Storage δ) := do
  require ((action = .orphanContainer || action = .orphanVolume || action = .orphanImage) &&
    action.covers object) .storageIneligible
  let operations ← insertStorageOperation s.operations
    { id, workspaceID, key := .request key, scope, action, object, reason := "awaiting_worker" }
  pure { s with operations }

/-! ### The cleanup worker -/

/-- `cleanup.StorageWork`: the operation with the lease it was claimed under and the result it had.
The target is that of the operation, whose columns never change. -/
structure StorageWork where
  operationID : String
  generation : ℤ
  fence : String
  /-- The result was `running` when the work was claimed. -/
  running : Bool
  deriving DecidableEq

/-- An update of one operation. -/
def onStorageOperation (s : Storage δ) (id : String)
    (f : StorageOperation δ → Except Err (StorageOperation δ × Unit)) : Except Err (Storage δ) := do
  let (operations, _) ← Rows.edit (fun o : StorageOperation δ => o.id = id) f .cleanupLeaseLost
    s.operations
  pure { s with operations }

def StorageOperation.claimable (o : StorageOperation δ) (now : ℤ) : Bool :=
  (o.status = .accepted || o.status = .running) &&
    match o.lease with
    | none => true
    | some l => l.untilMs ≤ unixMilli now

/-- `ClaimStorageCleanup`, of the operation the query chooses. -/
def claimStorageCleanup (s : Storage δ) (id fence : String) (ttl now : ℤ) :
    Except Err (Storage δ) := do
  require (1000000000 ≤ ttl && ttl ≤ 31 * 60 * 1000000000) .invalid
  onStorageOperation s id fun o => do
    require (o.claimable now) .cleanupLeaseLost
    let generation := (o.lease.map (·.generation)).getD 0
    require (generation ≠ 2 ^ 63 - 1) .corrupt
    pure ({ o with
      status := .running
      lease := some { generation := generation + 1, fence, untilMs := unixMilli (now + ttl) } }, ())

/-- `storageLeaseCurrent`. -/
def storageLeaseCurrent (o : StorageOperation δ) (w : StorageWork) (now : ℤ) : Bool :=
  o.status = .running && o.lease.any fun l =>
    l.generation = w.generation && l.fence = w.fence && unixMilli now < l.untilMs

/-- `RenewStorageCleanup`. -/
def renewStorageCleanup (s : Storage δ) (w : StorageWork) (ttl now : ℤ) :
    Except Err (Storage δ) := do
  require (1000000000 ≤ ttl && ttl ≤ 31 * 60 * 1000000000) .invalid
  onStorageOperation s w.operationID fun o => do
    require (storageLeaseCurrent o w now) .cleanupLeaseLost
    pure ({ o with lease := o.lease.map fun l => { l with untilMs := unixMilli (now + ttl) } }, ())

/-- `storageEligibleInTx`; `known` is `storageKnownObject`. -/
def storageEligible (s : Storage δ) (o : StorageOperation δ) (known : Bool) : Bool :=
  match o.action, o.object with
  | .evictCache, .volume name =>
    s.caches.any fun g => g.key.scope = o.scope && g.volumeName = name && g.idle s
  | .evictImage, .image id =>
    s.images.any fun g => g.key.scope = o.scope && g.expectedImageID = some id && g.idle s
  | .evictCache, _ | .evictImage, _ => false
  | _, _ => !known

/-- `BeginStorageCleanup`: the delete intent is recorded after one more look at the pins. -/
def beginStorageCleanup (s : Storage δ) (w : StorageWork) (known : Bool) (now : ℤ) :
    Except Err (Storage δ) := do
  require (!w.running) .invalid
  onStorageOperation s w.operationID fun o => do
    require (storageLeaseCurrent o w now) .cleanupLeaseLost
    require (storageEligible s o known) .storageIneligible
    require (o.result = .pending) .cleanupLeaseLost
    pure ({ o with result := .running, reason := "delete_intent_recorded" }, ())

/-- `hoststorage.DeleteOutcome`. -/
inductive DeleteOutcome
  | deleted | absent | retained | unknown
  deriving DecidableEq

def DeleteOutcome.result : DeleteOutcome → StorageResult
  | .deleted => .deleted
  | .absent => .absent
  | .retained => .retained
  | .unknown => .unknown

def DeleteOutcome.status : DeleteOutcome → StorageStatus
  | .deleted | .absent => .succeeded
  | .retained | .unknown => .failed

/-- `releaseDeletedStorageContentInTx`: what was deleted is retired. -/
def releaseDeletedStorageContent (s : Storage δ) (o : StorageOperation δ) :
    Except Err (Storage δ) :=
  match o.action, o.object with
  | .evictCache, .volume name => do
    require (s.caches.any fun g => g.key.scope = o.scope && g.volumeName = name) .notFound
    pure { s with caches := s.caches.map fun g =>
      if g.key.scope = o.scope && g.volumeName = name && g.state = .verified then
        { g with state := .retired } else g }
  | .evictImage, .image id =>
    pure { s with images := s.images.map fun g =>
      if g.key.scope = o.scope && g.expectedImageID = some id && g.state = .ready then
        { g with state := .retired } else g }
  | _, _ => pure s

/-- The update of `CompleteStorageCleanup`; the lease goes with it. -/
def completedOperation (w : StorageWork) (outcome : DeleteOutcome) (reason : String)
    (confirmedScan now : ℤ) (o : StorageOperation δ) :
    Except Err (StorageOperation δ × StorageOperation δ) := do
  require (storageLeaseCurrent o w now) .cleanupLeaseLost
  require (o.result = .running || !w.running && o.result = .pending) .cleanupLeaseLost
  pure ({ o with
    status := outcome.status
    result := outcome.result
    reason
    confirmedScan := if outcome.status = .succeeded then confirmedScan else 0
    lease := none }, o)

/-- `CompleteStorageCleanup`. -/
def completeStorageCleanup (s : Storage δ) (w : StorageWork) (outcome : DeleteOutcome)
    (reason : String) (confirmedScan now : ℤ) : Except Err (Storage δ) := do
  let (operations, o) ← Rows.edit (fun o : StorageOperation δ => o.id = w.operationID)
    (completedOperation w outcome reason confirmedScan now) .cleanupLeaseLost s.operations
  if outcome.status = .succeeded then releaseDeletedStorageContent { s with operations } o
  else pure { s with operations }

/-! ### The machine -/

/-- The transactions on the content of hosts. -/
inductive StorageRequest (δ : Type)
  | pinAdmission (owner : PinOwner) (scope : StorageScope) (refs : List (δ × ℤ))
    (image : Option (δ × ℤ × String))
  | pinRetry (old new : PinOwner)
  | releaseCachePins (owner : PinOwner)
  | releaseImagePins (owner : PinOwner)
  | claimCache (owner : PinOwner) (key : ContentKey δ) (id operationID : String)
  | beginWrite (owner : PinOwner) (id : String)
  | finishWrite (owner : PinOwner) (id : String)
  | verifyCache (id : String)
  | retireCache (id : String)
  | claimImage (owner : PinOwner) (objectID : String) (key : ContentKey δ) (id operationID : String)
  | beginImageLoad (id : String) (content : List UInt8) (store : ImageStore) (rest : String)
    (layers : List String)
  | retirePreloadImage (id : String)
  | markImageReady (id : String)
  | markImageUnknown (id : String)
  | retireMissingImage (id : String)
  | queueStorageEvictions (scope : StorageScope) (input : EvictionInput δ)
  | admitStorageCleanup (id workspaceID key : String) (scope : StorageScope)
    (action : StorageAction)
    (object : StorageObject δ)
  | claimStorageCleanup (id fence : String) (ttl : ℤ)
  | renewStorageCleanup (work : StorageWork) (ttl : ℤ)
  | beginStorageCleanup (work : StorageWork) (known : Bool)
  | completeStorageCleanup (work : StorageWork) (outcome : DeleteOutcome) (reason : String)
    (confirmedScan : ℤ)

def Storage.perform (D : Digests δ) (s : Storage δ) (now : ℤ) :
    StorageRequest δ → Except Err (Storage δ)
  | .pinAdmission owner scope refs image => Store.pinAdmission s owner scope refs image
  | .pinRetry old new => Store.pinRetry s old new
  | .releaseCachePins owner => pure (releaseHostCachePins s owner)
  | .releaseImagePins owner => pure (releaseHostApplicationImagePins s owner)
  | .claimCache owner key id operationID => Store.claimCache s owner key id operationID
  | .beginWrite owner id => Store.beginWrite s owner id
  | .finishWrite owner id => Store.finishWrite s owner id
  | .verifyCache id => Store.verifyCache s id
  | .retireCache id => Store.retireCache s id
  | .claimImage owner objectID key id operationID =>
    Store.claimImage s owner objectID key id operationID now
  | .beginImageLoad id content store rest layers =>
    Store.beginImageLoad D s id content store rest layers now
  | .retirePreloadImage id => Store.retirePreloadImage s id
  | .markImageReady id => Store.markImageReady s id
  | .markImageUnknown id => Store.markImageUnknown s id
  | .retireMissingImage id => Store.retireMissingImage s id
  | .queueStorageEvictions scope input => Store.queueStorageEvictions s scope input
  | .admitStorageCleanup id workspaceID key scope action object =>
    Store.admitStorageCleanup s id workspaceID key scope action object
  | .claimStorageCleanup id fence ttl => Store.claimStorageCleanup s id fence ttl now
  | .renewStorageCleanup work ttl => Store.renewStorageCleanup s work ttl now
  | .beginStorageCleanup work known => Store.beginStorageCleanup s work known now
  | .completeStorageCleanup work outcome reason confirmedScan =>
    Store.completeStorageCleanup s work outcome reason confirmedScan now

/-- A request and the reading of the wall clock it meets. -/
structure StorageTx (δ : Type) where
  wall : ℤ
  request : StorageRequest δ

/-- One transaction under the clock of the store; a failed one leaves no trace. -/
def Storage.transact (D : Digests δ) (s : Storage δ) (tx : StorageTx δ) :
    Except Err (Storage δ) := do
  let (now, next) ← write s.floor tx.wall
  let t ← s.perform D now tx.request
  pure { t with floor := next }

def Storage.step (D : Digests δ) (s : Storage δ) (tx : StorageTx δ) : Option (Storage δ) :=
  (s.transact D tx).toOption

end Transactions

end Store
end ComputeRelay
