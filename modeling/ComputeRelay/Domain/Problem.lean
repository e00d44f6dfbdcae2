import Mathlib.Data.List.AList
import Mathlib.Tactic
import ComputeRelay.Lib.Text

/-!
# Problems and identifiers

The structured error of `internal/domain/errors.go` and the identifier checks of
`internal/domain/id.go`.

* `ErrorCode.category`, `defaultFailureStage`: the taxonomy that fixes the stage of each code.
* `Problem`, with `newProblem`, `withDetail`, `withRetrySemantics`, `withRecommendedAction` and
  the check `Problem.validate`.
* `Problem.publicDetails` keeps only closed reasons, resource names and submission diagnostics;
  `detail_publicDetails` says what it keeps.

A `Details` map has at most one value per key, and reading a missing key gives the empty text. The
unexported cause of a problem is never stored and is left out.
-/

namespace ComputeRelay
namespace Domain

open Text

/-! ### Identifiers -/

def maxOpaqueIDLength : ℕ := 128

/-- `validOpaqueID`: a letter or digit, then letters, digits and `-_.:`, at most 128 bytes. -/
def validOpaqueID (s : String) : Bool :=
  match bytes s with
  | [] => false
  | b :: bs => s.utf8ByteSize ≤ maxOpaqueIDLength && (letter b || digit b) &&
      bs.all fun c => letter c || digit c || c = 45 || c = 95 || c = 46 || c = 58

/-- `SHA256Digest.Valid`: 64 lowercase hexadecimal characters. -/
def validSHA256Digest (s : String) : Bool :=
  s.utf8ByteSize = 64 && allBytes (fun c => digit c || (97 ≤ c && c ≤ 102)) s

/-! ### The taxonomy -/

inductive ErrorCategory
  | validation | authenticationAuthorization | inputPreparation | providerPreparation | submission
  | execution | observation | results | operations | localRuntime
  deriving DecidableEq

inductive ErrorCode
  | invalidJobSpec | unsupportedCapability | invalidInputPath | resourceRequirementUnsatisfied
  | runtimeAuthRequired | workspaceForbidden | providerAuthFailed | providerAccessDenied
  | inputNotFound | inputFetchFailed | inputChanged | inputDigestMismatch | inputTooLarge
  | stagingFailed | stagingNotReady | privateStagingUnavailable | providerStorageLimit
  | providerRejected | providerSubmissionUnknown | providerRateLimited | quotaExhausted
  | dependencySetupFailed | commandFailed | remoteTimeout | resourceExhausted
  | providerExecutionLost | providerUnreachable | providerStateUnknown | logCursorReset
  | remoteIdentityMismatch | resultManifestMissing | artifactMissing | artifactDigestMismatch
  | artifactCollectionFailed | remoteCancelUnsupported | remoteExecutionUnresolved
  | illegalStateTransition | idempotencyConflict | stateStoreUnavailable | diskLimitExceeded
  | stateDirectoryLocked | configurationInvalid
  deriving DecidableEq

def ErrorCode.category : ErrorCode → ErrorCategory
  | .invalidJobSpec | .unsupportedCapability | .invalidInputPath
  | .resourceRequirementUnsatisfied => .validation
  | .runtimeAuthRequired | .workspaceForbidden | .providerAuthFailed
  | .providerAccessDenied => .authenticationAuthorization
  | .inputNotFound | .inputFetchFailed | .inputChanged | .inputDigestMismatch
  | .inputTooLarge => .inputPreparation
  | .stagingFailed | .stagingNotReady | .privateStagingUnavailable
  | .providerStorageLimit => .providerPreparation
  | .providerRejected | .providerSubmissionUnknown | .providerRateLimited
  | .quotaExhausted => .submission
  | .dependencySetupFailed | .commandFailed | .remoteTimeout | .resourceExhausted
  | .providerExecutionLost => .execution
  | .providerUnreachable | .providerStateUnknown | .logCursorReset
  | .remoteIdentityMismatch => .observation
  | .resultManifestMissing | .artifactMissing | .artifactDigestMismatch
  | .artifactCollectionFailed => .results
  | .remoteCancelUnsupported | .remoteExecutionUnresolved | .illegalStateTransition
  | .idempotencyConflict => .operations
  | .stateStoreUnavailable | .diskLimitExceeded | .stateDirectoryLocked
  | .configurationInvalid => .localRuntime

inductive FailureStage
  | validation | authentication | inputPreparation | providerPreparation | submission | execution
  | observation | results | operation | localRuntime
  deriving DecidableEq

inductive RecommendedAction
  | none | fixRequest | configure | wait | retryRead | reconcile | collect
  | retryComputeExplicitly | inspectProvider | freeSpace | contactOperator
  deriving DecidableEq

def defaultFailureStage : ErrorCategory → FailureStage
  | .validation => .validation
  | .authenticationAuthorization => .authentication
  | .inputPreparation => .inputPreparation
  | .providerPreparation => .providerPreparation
  | .submission => .submission
  | .execution => .execution
  | .observation => .observation
  | .results => .results
  | .operations => .operation
  | .localRuntime => .localRuntime

/-! ### Details -/

/-- A `map[string]string`. -/
abbrev Details := AList fun _ : String => String

/-- Reading a key; a missing one gives the empty text. -/
def Details.get (d : Details) (key : String) : String := (d.lookup key).getD ""

@[simp] theorem Details.get_empty (key : String) : Details.get ∅ key = "" := by
  simp [Details.get]

@[simp] theorem Details.get_insert (d : Details) (key value : String) :
    Details.get (d.insert key value) key = value := by
  simp [Details.get]

theorem Details.get_insert_of_ne (d : Details) {key other : String} (value : String)
    (h : key ≠ other) : Details.get (d.insert other value) key = d.get key := by
  simp [Details.get, AList.lookup_insert_ne h]

/-- Every key is a word. -/
def Details.keysOk (d : Details) : Bool := d.keys.all fun key => !blank key

@[simp] theorem Details.keysOk_empty : Details.keysOk ∅ = true := rfl

theorem Details.keysOk_insert {d : Details} (h : d.keysOk = true) {key : String}
    (hk : blank key = false) (value : String) : Details.keysOk (d.insert key value) = true := by
  simp only [Details.keysOk, List.all_eq_true, Bool.not_eq_true'] at h ⊢
  intro k hmem
  rw [← AList.mem_keys, AList.mem_insert] at hmem
  rcases hmem with rfl | hmem
  · exact hk
  · exact h k (AList.mem_keys.mp hmem)

/-! ### Problems -/

structure Problem where
  code : ErrorCode
  message : String
  stage : FailureStage
  safeOperationRetry : Bool := false
  computeMayHaveStarted : Bool := false
  recommendedAction : RecommendedAction := .none
  details : Details := ∅
  deriving DecidableEq

/-- A closed adapter reason, never provider, URL or OS text. -/
def reasonDetail : String := "reason"
/-- Why the latest provider read stayed unresolved. -/
def causeDetail : String := "cause"
/-- The step that failed first. -/
def firstCauseDetail : String := "first_cause"
def resourceNameDetail : String := "resource_name"

/-- `ValidReason`: a lowercase letter, then lowercase letters, digits and `_`, at most 64 bytes. -/
def validReason (reason : String) : Bool :=
  match bytes reason with
  | [] => false
  | b :: bs => reason.utf8ByteSize ≤ 64 && lower b && bs.all fun c => lower c || digit c || c = 95

/-- `ValidResourceName`: letters, digits and `-_./`, at most 256 bytes. -/
def validResourceName (name : String) : Bool :=
  name ≠ "" && name.utf8ByteSize ≤ 256 &&
    allBytes (fun c => letter c || digit c || c = 45 || c = 95 || c = 46 || c = 47) name

theorem validResourceName_ne_empty {name : String} (h : validResourceName name = true) :
    name ≠ "" := by
  rintro rfl
  exact absurd h (by decide)

def httpStatus (s : String) : Bool :=
  match bytes s with
  | [a, b, c] => 49 ≤ a && a ≤ 53 && digit b && digit c
  | _ => false

/-- Whether a value may be published under a key. -/
def publicValue (key value : String) : Bool :=
  if key = reasonDetail ∨ key = causeDetail ∨ key = firstCauseDetail then validReason value
  else if key = resourceNameDetail then validResourceName value
  else if key = "submission_http_status" then httpStatus value
  else if key = "submission_error_type" then
    value ∈ ["unavailable", "http_error", "timeout", "interrupted", "transport",
      "invalid_response", "PERMISSION_DENIED", "UNAUTHENTICATED", "RESOURCE_EXHAUSTED",
      "UNAVAILABLE", "DEADLINE_EXCEEDED", "INVALID_ARGUMENT", "INTERNAL", "NOT_FOUND",
      "ALREADY_EXISTS"]
  else if key = "submission_operation" then value ∈ ["save_kernel", "verify_kernel", "unknown"]
  else false

/-- The keys a problem may publish, in the order the source writes them. -/
def publicKeys : List String :=
  [reasonDetail, causeDetail, firstCauseDetail, resourceNameDetail, "submission_http_status",
    "submission_error_type", "submission_operation"]

namespace Problem

def withRetrySemantics (p : Problem) (safe may : Bool) : Problem :=
  { p with safeOperationRetry := safe, computeMayHaveStarted := may }

def withRecommendedAction (p : Problem) (action : RecommendedAction) : Problem :=
  { p with recommendedAction := action }

def withDetail (p : Problem) (key value : String) : Problem :=
  { p with details := p.details.insert key value }

def detail (p : Problem) (key : String) : String := p.details.get key

/-- The published part of the details; the source's nil and empty maps read alike. -/
def publicDetails (p : Problem) : Details :=
  publicKeys.foldl
    (fun d key => if publicValue key (p.detail key) then d.insert key (p.detail key) else d) ∅

def validate (p : Problem) : Bool :=
  !blank p.message && p.stage = defaultFailureStage p.code.category &&
  !(p.computeMayHaveStarted && p.safeOperationRetry &&
    p.recommendedAction = .retryComputeExplicitly) &&
  p.details.keysOk

end Problem

/-- The problem `NewProblem` builds before it validates it. -/
def draft (code : ErrorCode) (message : String) (stage : FailureStage) : Problem :=
  { code := code, message := trimSpace message, stage := stage }

def newProblem (code : ErrorCode) (message : String) (stage : FailureStage) : Option Problem :=
  if (draft code message stage).validate then some (draft code message stage) else none

/-! ### What the projections keep -/

/-- Copying the public keys one by one. -/
theorem get_foldl_public (p : Problem) (keys : List String) (d : Details) (key : String) :
    (keys.foldl (fun d key => if publicValue key (p.detail key) then d.insert key (p.detail key)
      else d) d).get key =
    if key ∈ keys ∧ publicValue key (p.detail key) = true then p.detail key else d.get key := by
  induction keys generalizing d with
  | nil => simp
  | cons k keys ih =>
    rw [List.foldl_cons, ih]
    by_cases hkey : key = k
    · subst hkey
      by_cases hpub : publicValue key (p.detail key) = true <;> simp [hpub]
    · have hstep : Details.get (if publicValue k (p.detail k) = true then d.insert k (p.detail k)
          else d) key = d.get key := by
        split_ifs
        · exact Details.get_insert_of_ne d _ hkey
        · rfl
      simp [hstep, hkey]

namespace Problem

variable (p : Problem)

theorem detail_publicDetails (key : String) :
    p.publicDetails.get key =
      if key ∈ publicKeys ∧ publicValue key (p.detail key) = true then p.detail key else "" := by
  rw [publicDetails, get_foldl_public, Details.get_empty]

theorem detail_publicDetails_of_mem {key : String} (h : key ∈ publicKeys) :
    p.publicDetails.get key = if publicValue key (p.detail key) then p.detail key else "" := by
  simp [detail_publicDetails, h]

theorem detail_publicDetails_of_notMem {key : String} (h : key ∉ publicKeys) :
    p.publicDetails.get key = "" := by
  rw [detail_publicDetails, if_neg fun hc => h hc.1]

theorem publicDetails_reason :
    p.publicDetails.get reasonDetail =
      if validReason (p.detail reasonDetail) then p.detail reasonDetail else "" := by
  rw [detail_publicDetails_of_mem p (by simp [publicKeys])]
  rfl

theorem publicDetails_cause :
    p.publicDetails.get causeDetail =
      if validReason (p.detail causeDetail) then p.detail causeDetail else "" := by
  rw [detail_publicDetails_of_mem p (by simp [publicKeys])]
  rfl

theorem publicDetails_resourceName :
    p.publicDetails.get resourceNameDetail =
      if validResourceName (p.detail resourceNameDetail) then p.detail resourceNameDetail
      else "" := by
  rw [detail_publicDetails_of_mem p (by simp [publicKeys])]
  rfl

/-- Only public keys are published. -/
theorem mem_publicKeys_of_mem {key : String} (h : key ∈ p.publicDetails.keys) :
    key ∈ publicKeys := by
  suffices hsub : ∀ (keys : List String) (d : Details), key ∈ (keys.foldl (fun d key =>
      if publicValue key (p.detail key) then d.insert key (p.detail key) else d) d).keys →
      key ∈ keys ∨ key ∈ d.keys from
    (hsub publicKeys ∅ h).resolve_right (by simp)
  intro keys
  induction keys with
  | nil => exact fun d hd => Or.inr hd
  | cons k keys ih =>
    intro d hd
    rw [List.foldl_cons] at hd
    rcases ih _ hd with hk | hk
    · exact Or.inl (List.mem_cons_of_mem _ hk)
    · split_ifs at hk
      · rw [← AList.mem_keys, AList.mem_insert] at hk
        rcases hk with rfl | hk
        · exact Or.inl (List.mem_cons_self ..)
        · exact Or.inr (AList.mem_keys.mp hk)
      · exact Or.inr hk

theorem blank_of_mem_publicKeys : ∀ key ∈ publicKeys, blank key = false := by decide

theorem keysOk_publicDetails : p.publicDetails.keysOk = true := by
  rw [Details.keysOk, List.all_eq_true]
  intro key hkey
  rw [blank_of_mem_publicKeys key (mem_publicKeys_of_mem p hkey)]
  rfl

/-- The details of a problem may be replaced by others with proper keys. -/
theorem validate_details {p : Problem} (h : p.validate = true) {d : Details}
    (hd : d.keysOk = true) : ({ p with details := d } : Problem).validate = true := by
  simp only [validate, Bool.and_eq_true] at h ⊢
  exact ⟨h.1, hd⟩

theorem validate_withDetail {p : Problem} (h : p.validate = true) {key : String}
    (hk : blank key = false) (value : String) : (p.withDetail key value).validate = true := by
  refine validate_details h (Details.keysOk_insert ?_ hk value)
  simp only [validate, Bool.and_eq_true] at h
  exact h.2

@[simp] theorem detail_withDetail (key value : String) :
    (p.withDetail key value).detail key = value :=
  Details.get_insert p.details key value

theorem detail_withDetail_of_ne {key other : String} (value : String) (h : key ≠ other) :
    (p.withDetail other value).detail key = p.detail key :=
  Details.get_insert_of_ne p.details value h

@[simp] theorem detail_withRetrySemantics (safe may : Bool) (key : String) :
    (p.withRetrySemantics safe may).detail key = p.detail key := rfl

@[simp] theorem detail_withRecommendedAction (action : RecommendedAction) (key : String) :
    (p.withRecommendedAction action).detail key = p.detail key := rfl

end Problem

end Domain
end ComputeRelay
