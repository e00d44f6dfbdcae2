import Mathlib.Tactic
import ComputeRelay.Lib.Fallible
import ComputeRelay.Lib.Peaks
import ComputeRelay.Store.Storage

/-!
# The storage charge of a machine and the admission that reserves it

`internal/store/sqlite/storage_account.go` and `storage_budget_gate.go`: what a machine is charged
for is a table of largest amounts over physical objects, fed by the generations in the ledger, the
objects of the latest scan and the reservations, where a reservation goes to the object its writer
made. An admission adds an allowance for its attempt and reservations for the content that nothing
covers yet, if the sum stays below the hard limit.

The keys of the table are those of the source, with their class as a constructor instead of a text
before a zero byte. The scan, the connections and the frozen objects of the job are read as they
are.
-/

namespace ComputeRelay
namespace Store

open Domain Provider Scheduler Dispatch Fallible

/-! ### Rows -/

/-- What a row of `host_storage_reservations` reserves room for: `class` and `resource_key`. The key
of an attempt is its owner's. -/
inductive ReservedFor (δ : Type)
  | attempt
  | content (c : ContentClass) (sha256 : δ) (bytes : ℤ)
  deriving DecidableEq

inductive ReservationState
  | provisional | committed | released
  deriving DecidableEq

/-- A row of `host_storage_reservations`. -/
structure Reservation (δ : Type) where
  scope : StorageScope
  resource : ReservedFor δ
  bytes : ℤ
  owner : PinOwner
  /-- `mutation_operation_id`. -/
  operation : Option String := none
  state : ReservationState := .provisional
  deriving DecidableEq

/-- `hoststorage.Object`, as the accounts read it. -/
structure ObservedObject (δ : Type) where
  object : StorageObject δ
  /-- `SizeBytes`, when the size is known. -/
  size : Option ℤ
  /-- The labels of a volume or an image name this machine, this engine and the kind. -/
  verified : Bool
  /-- The attempt in the labels. -/
  attempt : Option String

/-- `storageObservation`: the latest scan of a machine. -/
structure Observation (δ : Type) where
  seq : ℤ := 0
  at_ : ℤ := 0
  complete : Bool := false
  objects : List (ObservedObject δ) := []

/-- The tables that the accounts of the machines are made from. -/
structure Accounts (δ : Type) where
  storage : Storage δ
  reservations : List (Reservation δ) := []
  observation : StorageScope → Observation δ

/-- The keys of `storageCharge.objects`. -/
inductive ChargeKey (δ : Type)
  | container (id : String)
  | volume (name : String)
  | image (id : δ)
  /-- An image whose identity is not known yet. -/
  | generation (id : String)
  | attempt (id : String)
  | reservation (c : ContentClass) (sha256 : δ) (bytes : ℤ)
  deriving DecidableEq

def StorageObject.chargeKey {δ : Type} : StorageObject δ → ChargeKey δ
  | .container id => .container id
  | .volume name => .volume name
  | .image id => .image id

def ImageGeneration.chargeKey {δ : Type} (g : ImageGeneration δ) : ChargeKey δ :=
  match g.expectedImageID with
  | some i => .image i
  | none => .generation g.id

/-! ### The charge -/

def maxInt64 : ℤ := 2 ^ 63 - 1

/-- `addStorageCharge`, of `hoststorage.AddChecked`. -/
def addStorageCharge (total bytes : ℤ) : Except Err ℤ := do
  ensure (decide (0 ≤ total ∧ 0 ≤ bytes ∧ total ≤ maxInt64 - bytes)) .corrupt
  pure (total + bytes)

def sumStorageCharge (amounts : List ℤ) : Except Err ℤ := amounts.foldlM addStorageCharge 0

section Charge

variable {δ : Type} [DecidableEq δ]

/-- `storageDeletedSinceScan`. -/
def storageDeletedSinceScan (s : Accounts δ) (scope : StorageScope) (o : Observation δ)
    (k : ChargeKey δ) : Bool :=
  o.complete && decide (o.seq ≠ 0) && s.storage.operations.any fun p =>
    p.scope = scope && (p.result = .deleted || p.result = .absent) &&
      decide (o.seq ≤ p.confirmedScan) &&
      p.object.chargeKey = k

/-- The objects of the scan that are not known to be deleted since. -/
def accountedObjects (s : Accounts δ) (scope : StorageScope) (o : Observation δ) :
    List (ObservedObject δ) :=
  o.objects.filter fun b => !storageDeletedSinceScan s scope o b.object.chargeKey

/-- The generations of the machine: their key, their size, and whether they are retired. -/
def storageLedger (s : Accounts δ) (scope : StorageScope) : List (ChargeKey δ × ℤ × Bool) :=
  ((s.storage.caches.filter fun g => g.key.scope = scope).map fun g =>
    (.volume g.volumeName, g.key.bytes, decide (g.state = .retired))) ++
  (s.storage.images.filter fun g => g.key.scope = scope).map fun g =>
    (g.chargeKey, g.key.bytes, decide (g.state = .retired))

/-- The table after the ledger. Only a complete exact absence discharges a retired generation. -/
def chargeLedger (s : Accounts δ) (scope : StorageScope) (o : Observation δ) :
    List (ChargeKey δ × ℤ) :=
  ((storageLedger s scope).filter fun r =>
    !storageDeletedSinceScan s scope o r.1 &&
      !(r.2.2 && o.complete &&
        !(accountedObjects s scope o).any fun b => b.object.chargeKey = r.1)).foldl
    (fun m r => Peaks.raise r.1 r.2.1 m) []

/-- One turn of the loop over the objects of the scan: the table, and whether the charge is
unknown. -/
def chargeObject (acc : List (ChargeKey δ × ℤ) × Bool) (b : ObservedObject δ) :
    List (ChargeKey δ × ℤ) × Bool :=
  let unverified := match b.object with
    | .container _ => false
    | _ => !b.verified
  match b.size with
  | some n => (Peaks.raise b.object.chargeKey n acc.1, acc.2 || unverified)
  | none =>
    (acc.1, acc.2 || unverified || !acc.1.any fun e => e.1 = b.object.chargeKey)

/-- `observedAttempts`: the sizes of the containers of an attempt add up. -/
def observeAttempt (m : List (String × ℤ)) (b : ObservedObject δ) :
    Except Err (List (String × ℤ)) :=
  match b.object, b.attempt, b.size with
  | .container _, some attempt, some n => do
    let amount ← addStorageCharge (Peaks.peak attempt m) n
    pure ((attempt, amount) :: m.filter fun e => e.1 ≠ attempt)
  | _, _, _ => pure m

/-- The cache generation of a reservation: its writer's, or the live one of the content. -/
def reservedCache (s : Accounts δ) (k : ContentKey δ) : Option String → Option (CacheGeneration δ)
  | some op => s.storage.caches.find? fun g => g.key.scope = k.scope && g.operationID = op
  | none => s.storage.caches.reverse.find? fun g => g.key = k && g.state ≠ .retired

def reservedImage (s : Accounts δ) (k : ContentKey δ) : Option String → Option (ImageGeneration δ)
  | some op => s.storage.images.find? fun g => g.key.scope = k.scope && g.operationID = op
  | none => s.storage.images.reverse.find? fun g => g.key = k && g.state ≠ .retired

/-- The object a reservation is charged to. A writer's claim transfers a provisional content
reservation to a generation. -/
def Reservation.physical (s : Accounts δ) (scope : StorageScope) (r : Reservation δ) :
    ChargeKey δ :=
  match r.resource with
  | .attempt => .attempt r.owner.attemptID
  | .content .cache sha256 bytes =>
    match reservedCache s ⟨scope, sha256, bytes⟩ r.operation with
    | some g => .volume g.volumeName
    | none => .reservation .cache sha256 bytes
  | .content .image sha256 bytes =>
    match reservedImage s ⟨scope, sha256, bytes⟩ r.operation with
    | some g => g.chargeKey
    | none => .reservation .image sha256 bytes

/-- The reservations of the machine that are not released. -/
def Accounts.live (s : Accounts δ) (scope : StorageScope) : List (Reservation δ) :=
  s.reservations.filter fun r => r.scope = scope && r.state ≠ .released

/-- The parts of the charge. -/
inductive Part
  | cache | image | attempt | orphan
  deriving DecidableEq

/-- The part an object counts for. A container of an attempt is represented by the attempt. -/
def ChargeKey.part (objects : List (ObservedObject δ)) : ChargeKey δ → Option Part
  | .attempt _ => some .attempt
  | .volume _ | .reservation .cache _ _ => some .cache
  | .image _ | .generation _ | .reservation .image _ _ => some .image
  | .container id =>
    if ((objects.find? fun b => b.object = .container id).bind (·.attempt)).isSome then none
    else some .orphan

/-- The amount of an entry; an attempt is charged at least what its containers take. -/
def chargeAmount (attempts : List (String × ℤ)) (e : ChargeKey δ × ℤ) : ℤ :=
  match e.1 with
  | .attempt id => max e.2 (Peaks.peak id attempts)
  | _ => e.2

/-- `storageCharge`. -/
structure Charge where
  reservedBytes : ℤ
  cacheBytes : ℤ
  imageSizeUpperBound : ℤ
  attemptWritableBytes : ℤ
  orphanBytes : ℤ
  chargedBytes : ℤ
  referencedBytes : ℤ
  unknown : Bool

/-- The sum of one part, in the order of the table. -/
def chargePart (objects : List (ObservedObject δ)) (attempts : List (String × ℤ))
    (m : List (ChargeKey δ × ℤ)) (p : Part) : Except Err ℤ :=
  sumStorageCharge ((m.filter fun e => e.1.part objects = some p).map (chargeAmount attempts))

/-- What the caller's pins refer to. -/
def referencedBytes (s : Accounts δ) (scope : StorageScope) (caller : String) : Except Err ℤ :=
  sumStorageCharge
    [((s.storage.cachePins.filter fun p =>
        p.key.scope = scope && p.owner.workspaceID = caller && !p.released).map (·.key.bytes)).sum,
      ((s.storage.imagePins.filter fun p =>
        p.key.scope = scope && p.owner.workspaceID = caller && !p.released).map (·.key.bytes)).sum]

/-- The table of the charge before the reservations. -/
def chargeObserved (s : Accounts δ) (scope : StorageScope) (o : Observation δ) :
    List (ChargeKey δ × ℤ) × Bool :=
  (accountedObjects s scope o).foldl chargeObject (chargeLedger s scope o, false)

/-- The complete table: the reservations, and the containers of attempts. -/
def chargeTable (s : Accounts δ) (scope : StorageScope) (o : Observation δ)
    (attempts : List (String × ℤ)) : List (ChargeKey δ × ℤ) :=
  attempts.foldl (fun m a => Peaks.raise (.attempt a.1) a.2 m)
    ((s.live scope).foldl (fun m r => Peaks.raise (r.physical s scope) r.bytes m)
      (chargeObserved s scope o).1)

/-- `storageChargeInTx`. -/
def storageCharge (s : Accounts δ) (scope : StorageScope) (o : Observation δ) (caller : String) :
    Except Err Charge := do
  let objects := accountedObjects s scope o
  let attempts ← objects.foldlM observeAttempt []
  let reserved ← sumStorageCharge ((s.live scope).map (·.bytes))
  let m := chargeTable s scope o attempts
  let cache ← chargePart objects attempts m .cache
  let image ← chargePart objects attempts m .image
  let attempt ← chargePart objects attempts m .attempt
  let orphan ← chargePart objects attempts m .orphan
  let charged ← sumStorageCharge [cache, image, attempt, orphan]
  let referenced ← referencedBytes s scope caller
  pure ⟨reserved, cache, image, attempt, orphan, charged, referenced, (chargeObserved s scope o).2⟩

/-! ### Admission -/

/-- `hoststorage.Budget`. -/
structure Budget where
  softBytes : ℤ
  hardBytes : ℤ
  deriving DecidableEq

def Budget.valid (b : Budget) : Bool :=
  0 < b.softBytes && b.softBytes < b.hardBytes && b.hardBytes ≤ 2 ^ 50

def minBudget (a b : Budget) : Budget :=
  ⟨min a.softBytes b.softBytes, min a.hardBytes b.hardBytes⟩

/-- `effectiveStorageBudget`, over the budgets of the enabled connections to the machine. -/
def effectiveStorageBudget (configured : Budget) (connections : List Budget) : Except Err Budget :=
  connections.foldlM (fun e b => do
    ensure b.valid .corrupt
    pure (minBudget e b)) configured

/-- `hoststorage.ScanFreshness`. -/
def scanFreshness : ℤ := 120000000000

/-- `freshStorageChargeInTx`. -/
def freshStorageCharge (s : Accounts δ) (scope : StorageScope) (now : ℤ) : Except Err Charge := do
  let o := s.observation scope
  ensure (o.complete && decide (o.at_ ≤ now) && decide (now - o.at_ ≤ scanFreshness))
    .storageUnknown
  let c ← storageCharge s scope o ""
  ensure (!c.unknown) .storageUnknown
  pure c

/-- The role of a frozen object. -/
inductive ObjectRole
  | bundle
  | input (name : String)
  | applicationImage
  | other (name : String)
  deriving DecidableEq

/-- `admission.FrozenObject`. -/
structure FrozenObject (δ : Type) where
  role : ObjectRole
  sha256 : δ
  bytes : ℤ
  deriving DecidableEq

def ObjectRole.contentClass : ObjectRole → Option ContentClass
  | .bundle | .input _ => some .cache
  | .applicationImage => some .image
  | .other _ => none

/-- A live generation holds the content. -/
def liveGeneration (s : Accounts δ) (k : ContentKey δ) : ContentClass → Bool
  | .cache => s.storage.caches.any fun g =>
    g.key = k && (g.state = .claimed || g.state = .verified)
  | .image => s.storage.images.any fun g => g.key = k &&
    (g.state = .preparing || g.state = .loading || g.state = .ready || g.state = .unknown)

/-- A provisional reservation holds room for the content. -/
def provisionalReservation (s : Accounts δ) (scope : StorageScope) (r : ReservedFor δ) : Bool :=
  s.reservations.any fun p => p.scope = scope && p.resource = r && p.state = .provisional

/-- `hoststorage.AttemptAllowanceBytes`. -/
def attemptAllowanceBytes : ℤ := 4 * 2 ^ 30

/-- The room for an application image: a bounded normalized tar and its expansion. -/
def imageReservationBytes : ℤ := 4 * 2 ^ 30

/-- The reservation an object needs, unless its content is covered. -/
def proposedContent (s : Accounts δ) (scope : StorageScope) (ref : FrozenObject δ) :
    Option (ReservedFor δ × ℤ) :=
  match ref.role.contentClass with
  | none => none
  | some c =>
    if liveGeneration s ⟨scope, ref.sha256, ref.bytes⟩ c ||
      provisionalReservation s scope (.content c ref.sha256 ref.bytes) then none
    else some (.content c ref.sha256 ref.bytes,
      match c with
      | .cache => ref.bytes
      | .image => imageReservationBytes)

/-- The proposed reservations: the allowance of the attempt, and the content that nothing covers.
What is named twice is proposed once. -/
def proposedReservations (s : Accounts δ) (scope : StorageScope) (refs : List (FrozenObject δ)) :
    List (ReservedFor δ × ℤ) :=
  (.attempt, attemptAllowanceBytes) :: (refs.filterMap (proposedContent s scope)).eraseDups

/-- An insertion into `host_storage_reservations`, behind its unique index on active keys. -/
def insertReservation (s : Accounts δ) (r : Reservation δ) : Except Err (Accounts δ) := do
  ensure (s.reservations.all fun p => !(p.scope = r.scope && p.resource = r.resource &&
    match r.resource with
    | .attempt => p.owner.attemptID = r.owner.attemptID && p.state ≠ .released
    | .content .. => p.state = .provisional)) .conflict
  ensure (decide (0 ≤ r.bytes)) .conflict
  pure { s with reservations := s.reservations ++ [r] }

/-- `storageAdmissionInTx`; without a target there is nothing to account for. -/
def storageAdmission (s : Accounts δ) (target : Option StorageScope) (owner : PinOwner)
    (configured : Budget) (connections : List Budget) (refs : List (FrozenObject δ)) (now : ℤ) :
    Except Err (Accounts δ) :=
  match target with
  | none => pure s
  | some scope => do
    let charge ← freshStorageCharge s scope now
    let effective ← effectiveStorageBudget configured connections
    ensure (decide (charge.chargedBytes < effective.hardBytes)) .storageHardLimit
    let proposed := proposedReservations s scope refs
    let total ← ((proposed.map Prod.snd).foldlM addStorageCharge charge.chargedBytes).mapError
      fun _ => .storageUnknown
    ensure (decide (total < effective.hardBytes)) .storageHardLimit
    proposed.foldlM (fun s p => insertReservation s
      { scope, resource := p.1, bytes := p.2, owner }) s

end Charge

end Store
end ComputeRelay
