import Mathlib.Tactic
import ComputeRelay.Lib.JsonText
import ComputeRelay.Provider.Shared
import ComputeRelay.RunnerPlan.Agreement
import ComputeRelay.RunnerPlan.InputIdentity
import ComputeRelay.Collection.Snapshot
import ComputeRelay.Kaggle.Pacer

/-!
# Where the inputs of an attempt are staged

`buildSharedInput` and `buildStagingPlan` of `internal/provider/kaggle/staging_plan.go`. The attempt
gets a private dataset with a marker, the bundle and its inputs; large inputs have a dataset of
their own, which every attempt with the same bytes finds again. The plan has three lists, of local
objects, of files and of locations, and inputs with a shared dataset are missing from the first two.
-/

namespace ComputeRelay
namespace Kaggle

open Text Domain Provider RunnerPlan

def maxMarkerBytes : ℤ := 2 * 2 ^ 20

def maxStagingBytes : ℤ := 4 * 2 ^ 30 + 100 * 2 ^ 20 + maxMarkerBytes

structure Config where
  instanceID : String
  revision : String
  accountName : String
  credentialRef : String

/-- `VaultReference`: `vault:con_`, a letter or digit, and at most 123 more characters. -/
def vaultReference (ref : String) : Bool :=
  (bytes "vault:con_").isPrefixOf (bytes ref) &&
    match (bytes ref).drop 10 with
    | [] => false
    | b :: rest => (letter b || digit b) && rest.length ≤ 123 &&
        rest.all fun b => letter b || digit b || b = 46 || b = 95 || b = 45

def Config.validate (c : Config) : Bool :=
  validOpaqueID c.instanceID && validOpaqueID c.revision && Kaggle.accountName c.accountName &&
    vaultReference c.credentialRef

structure StagingPolicy where
  license : String
  maxBytes : ℤ
  timeout : ℤ
  sharedMinBytes : ℤ

def StagingPolicy.valid (p : StagingPolicy) : Bool :=
  (p.license = "other" || p.license = "unknown") &&
    0 < p.maxBytes && p.maxBytes ≤ maxStagingBytes &&
    Rfc3339.second ≤ p.timeout && p.timeout ≤ 3600 * Rfc3339.second && 0 ≤ p.sharedMinBytes

structure StagingFile where
  name : String
  bytes : ℤ
  sha256 : String
  deriving DecidableEq

structure StagingRequest where
  protocol : ℕ
  owner : String
  slug : String
  license : String
  markerSHA256 : String
  files : List StagingFile
  deriving DecidableEq

/-- The bytes that a file is recorded with. -/
def StagingFile.content (f : StagingFile) : String × ℤ := (f.sha256, f.bytes)

/-- The dataset has a file of the name, recorded with the content. -/
def StagingRequest.Holds (r : StagingRequest) (name : String) (content : String × ℤ) : Prop :=
  ∃ f ∈ r.files, f.name = name ∧ f.content = content

/-- A dataset for one content. -/
structure SharedInput where
  request : StagingRequest
  marker : String
  object : ObjectMetadata
  deriving DecidableEq

/-- The dataset and the file where the runner finds an input. -/
structure StagedInput where
  slug : String
  file : String
  deriving DecidableEq

structure StagingPlan where
  request : StagingRequest
  marker : String
  objects : List ObjectMetadata
  shared : List SharedInput
  inputs : List StagedInput

inductive StagingError
  | config
  | input
  deriving DecidableEq

def sharedMarkerFile : String := "relay-shared.bin"

def sharedBlobFile : String := "blob.bin"

def stagingMarkerFile : String := "relay-stage.bin"

section Build

variable (c : Codec)

def seedText (seed : List String) : String := Json.marshal Json.escapeHTML (.arr (seed.map .str))

/-- The first 40 digits of the digest of a text. -/
def digest40 (text : String) : List Char := (c.digest text).toList.take 40

def datasetName (lead : String) (seed : List String) : String :=
  lead ++ String.ofList (digest40 c (seedText seed))

def sharedMarker (object : ObjectMetadata) : String :=
  Json.marshal Json.escapeHTML
    (.obj [("format", .str "compute-relay/shared-input/v1"), ("sha256", .str object.sha256),
    ("bytes", .int object.bytes)])

def sharedSeed (cfg : Config) (installation : String) (object : ObjectMetadata) : List String :=
  [installation, cfg.accountName, object.sha256, String.ofList (decimal object.bytes)]

def buildSharedInput (cfg : Config) (policy : StagingPolicy) (installation : String)
    (object : ObjectMetadata) : SharedInput :=
  let marker := sharedMarker object
  let digest := c.digest marker
  { request :=
      { protocol := 1
        owner := cfg.accountName
        slug := datasetName c "crx-" (sharedSeed cfg installation object)
        license := policy.license
        markerSHA256 := digest
        files := [⟨sharedMarkerFile, marker.utf8ByteSize, digest⟩,
          ⟨sharedBlobFile, object.bytes, object.sha256⟩] }
    marker
    object }

/-! ### The inputs -/

/-- One input of the marker; `dataset` is left out if it is empty. -/
structure MarkerInput where
  name : String
  target : String
  file : String
  dataset : String

/-- What the loop over the inputs appends to. -/
structure Staging where
  objects : List ObjectMetadata
  files : List StagingFile
  entries : List MarkerInput := []
  inputs : List StagedInput := []

/-- The map from keys to shared inputs, where the last one is kept. -/
def byContent (shared : List SharedInput) (key : String) : Option SharedInput :=
  shared.reverse.find? fun e => e.object.key = key

/-- One turn of the loop. -/
def stageInput (slug : String) (shared : List SharedInput) (s : Staging) (x : FrozenInput × ℕ) :
    Staging :=
  let (input, i) := x
  match byContent shared input.object.key with
  | some e =>
    { s with
      entries := s.entries ++ [⟨input.name, input.target, sharedBlobFile, e.request.slug⟩]
      inputs := s.inputs ++ [⟨e.request.slug, sharedBlobFile⟩] }
  | none =>
    { objects := s.objects ++ [input.object]
      files := s.files ++ [⟨inputPath i, input.object.bytes, input.object.sha256⟩]
      entries := s.entries ++ [⟨input.name, input.target, inputPath i, ""⟩]
      inputs := s.inputs ++ [⟨slug, inputPath i⟩] }

/-! ### The marker -/

def StagingFile.toJson (f : StagingFile) : Json :=
  .obj [("name", .str f.name), ("bytes", .int f.bytes), ("sha256", .str f.sha256)]

def MarkerInput.toJson (e : MarkerInput) : Json :=
  .obj ([("name", .str e.name), ("target", .str e.target), ("file", .str e.file)] ++
    if e.dataset = "" then [] else [("dataset", .str e.dataset)])

def SharedInput.toJson (e : SharedInput) : Json :=
  .obj [("dataset", .str e.request.slug), ("sha256", .str e.object.sha256),
    ("bytes", .int e.object.bytes)]

def stagingMarker (policy : StagingPolicy) (plan : Plan) (operation : String)
    (shared : List SharedInput) (s : Staging) : String :=
  Json.marshal Json.escapeHTML (.obj ([
    ("format", .str
      (if shared.length > 0 then "compute-relay/staging/v2" else "compute-relay/staging/v1")),
    ("identity", Collection.identityJson plan.job.identity), ("preparation_id", .str operation),
    ("plan_sha256", .str (plan.digest c)), ("license", .str policy.license),
    ("files", .arr (s.files.map StagingFile.toJson)),
    ("inputs", if s.entries.length = 0 then .null else .arr (s.entries.map MarkerInput.toJson))] ++
    if shared.length = 0 then [] else [("shared", .arr (shared.map SharedInput.toJson))]))

/-! ### The plan -/

/-- The bytes that were spent before, and those to come, one after the other. -/
def spend (maxBytes : ℤ) : ℤ → List ℤ → Option ℤ
  | total, [] => some total
  | total, n :: rest => if maxBytes - total < n then none else spend maxBytes (total + n) rest

def attemptSlug (id : Identity) (operation : String) : String :=
  datasetName c "crs-" [id.installationID, id.workspaceID, id.instanceID, id.jobID,
    id.attemptID, operation]

def sharedInputs (cfg : Config) (policy : StagingPolicy) (installation : String)
    (inputs : List FrozenInput) : List SharedInput :=
  (selectSharedInputs inputs policy.sharedMinBytes defaultSharedInputLimit).map
    (buildSharedInput c cfg policy installation)

def stageInputs (slug : String) (shared : List SharedInput) (snapshot : InputSnapshot) : Staging :=
  snapshot.inputs.zipIdx.foldl (stageInput slug shared)
    ⟨[snapshot.bundle], [⟨bundlePath, snapshot.bundle.bytes, snapshot.bundle.sha256⟩], [], []⟩

/-- The first checks of `buildStagingPlan`, without that for a snapshot. -/
def stageable (cfg : Config) (policy : StagingPolicy) (job : ResolvedJob) (operation : String) :
    Bool :=
  cfg.validate && policy.valid && job.validate c && validOpaqueID operation &&
    job.identity.instanceID = cfg.instanceID && job.binding.providerInstanceID = cfg.instanceID &&
    job.binding.configurationRevision = cfg.revision

def buildStagingPlan (cfg : Config) (policy : StagingPolicy) (plan : Plan) (operation : String) :
    Except StagingError StagingPlan :=
  match plan.job.inputs with
  | none => .error .config
  | some snapshot =>
    if !stageable c cfg policy plan.job operation then .error .config
    else
      let slug := attemptSlug c plan.job.identity operation
      let shared := sharedInputs c cfg policy plan.job.identity.installationID snapshot.inputs
      let s := stageInputs slug shared snapshot
      let raw := stagingMarker c policy plan operation shared s
      if maxMarkerBytes < raw.utf8ByteSize then .error .config
      else
        match spend policy.maxBytes raw.utf8ByteSize
          (s.files.map (·.bytes) ++ shared.map (·.object.bytes)) with
        | none => .error .input
        | some _ =>
          let digest := c.digest raw
          .ok {
            request :=
              { protocol := 1
                owner := cfg.accountName
                slug
                license := policy.license
                markerSHA256 := digest
                files := ⟨stagingMarkerFile, raw.utf8ByteSize, digest⟩ :: s.files }
            marker := raw
            objects := s.objects
            shared
            inputs := s.inputs }

end Build

/-! ### Names -/

theorem inputPath_injective : Function.Injective inputPath := by
  intro i j h
  have hvalue (n : ℕ) : Nat.ofDigitChars 10 (List.replicate (3 - (Nat.toDigits 10 n).length) '0' ++
      Nat.toDigits 10 n) 0 =
      n := by
    have hzeros (k : ℕ) : Nat.ofDigitChars 10 (List.replicate k '0') 0 = 0 := by
      induction k with
      | zero => rfl
      | succ k ih => exact ih
    rw [Nat.ofDigitChars_append, hzeros]
    exact Nat.ofDigitChars_toDigits (by norm_num) (by norm_num)
  have hdigits := List.append_cancel_left (List.append_cancel_right (String.ofList_injective h))
  rw [← hvalue i, hdigits, hvalue j]

/-- The names of the other files begin with other letters. -/
theorem inputPath_ne (i : ℕ) : inputPath i ≠ stagingMarkerFile ∧ inputPath i ≠ bundlePath := by
  constructor <;>
    · intro h
      have hhead := congrArg (fun s => s.toList.head?) h
      simp [inputPath, stagingMarkerFile, bundlePath] at hhead

/-! ### The loop in closed form -/

variable {slug : String} {shared : List SharedInput}

/-- Where an input is found. -/
def location (slug : String) (shared : List SharedInput) (x : FrozenInput × ℕ) : StagedInput :=
  match byContent shared x.1.object.key with
  | some e => ⟨e.request.slug, sharedBlobFile⟩
  | none => ⟨slug, inputPath x.2⟩

/-- The inputs that are staged with the attempt. -/
def inline (shared : List SharedInput) (x : FrozenInput × ℕ) : Bool :=
  (byContent shared x.1.object.key).isNone

def inputFile (x : FrozenInput × ℕ) : StagingFile :=
  ⟨inputPath x.2, x.1.object.bytes, x.1.object.sha256⟩

theorem foldl_stageInput (xs : List (FrozenInput × ℕ)) (s : Staging) :
    (xs.foldl (stageInput slug shared) s).objects =
      s.objects ++ (xs.filter (inline shared)).map (·.1.object) ∧
    (xs.foldl (stageInput slug shared) s).files =
      s.files ++ (xs.filter (inline shared)).map inputFile ∧
    (xs.foldl (stageInput slug shared) s).inputs = s.inputs ++ xs.map (location slug shared) := by
  induction xs generalizing s with
  | nil => simp
  | cons x xs ih =>
    obtain ⟨hobjects, hfiles, hinputs⟩ := ih (stageInput slug shared s x)
    rw [List.foldl_cons, hobjects, hfiles, hinputs]
    cases hfound : byContent shared x.1.object.key with
    | some e => simp [stageInput, inline, location, hfound]
    | none => simp [stageInput, inline, location, inputFile, hfound]

theorem byContent_eq_some {key : String} {e : SharedInput} (h : byContent shared key = some e) :
    e ∈ shared ∧ e.object.key = key :=
  ⟨List.mem_reverse.mp (List.mem_of_find?_eq_some h), by simpa using List.find?_some h⟩

theorem byContent_eq_none {key : String} (h : byContent shared key = none) :
    ∀ e ∈ shared, e.object.key ≠ key := by
  intro e he
  have hnone := List.find?_eq_none.mp h e (List.mem_reverse.mpr he)
  simpa using hnone

theorem spend_le {maxBytes total spent : ℤ} {ns : List ℤ} (h : spend maxBytes total ns = some spent)
    (hne : ns ≠ []) : total + ns.sum ≤ maxBytes := by
  induction ns generalizing total with
  | nil => exact absurd rfl hne
  | cons n rest ih =>
    rw [spend] at h
    split_ifs at h with hn
    rw [List.sum_cons, ← add_assoc]
    cases rest with
    | nil =>
      rw [List.sum_nil]
      omega
    | cons m rest => exact ih h (by simp)

theorem isSome_spend {maxBytes total : ℤ} {ns : List ℤ} (hns : ∀ n ∈ ns, 0 ≤ n)
    (h : total + ns.sum ≤ maxBytes) : (spend maxBytes total ns).isSome = true := by
  induction ns generalizing total with
  | nil => rfl
  | cons n rest ih =>
    have hrest : ∀ m ∈ rest, 0 ≤ m := fun m hm => hns m (List.mem_cons_of_mem _ hm)
    have hsum := List.sum_nonneg hrest
    rw [List.sum_cons] at h
    rw [spend, if_neg (by omega)]
    exact ih hrest (by omega)

/-! ### Shared datasets -/

/-- The datasets are those of distinct contents, and hold them. -/
structure Sharing (c : Codec) (cfg : Config) (policy : StagingPolicy) (installation : String)
    (shared : List SharedInput) : Prop where
  built : ∀ e ∈ shared, e = buildSharedInput c cfg policy installation e.object
  identified : ∀ e ∈ shared, e.object.Identified
  distinct : (shared.map (·.object.content)).Nodup

section Sharing

variable {c : Codec} {cfg : Config} {policy : StagingPolicy} {installation : String}

theorem sharing_select {inputs : List FrozenInput} (hinputs : ∀ i ∈ inputs, i.object.Identified) :
    Sharing c cfg policy installation (sharedInputs c cfg policy installation inputs) where
  built e he := by
    obtain ⟨o, -, rfl⟩ := List.mem_map.mp he
    rfl
  identified e he := by
    obtain ⟨o, ho, rfl⟩ := List.mem_map.mp he
    exact identified_of_mem_selectSharedInputs hinputs ho
  distinct := by
    rw [sharedInputs, List.map_map]
    exact nodup_selectSharedInputs hinputs (by decide)

variable (h : Sharing c cfg policy installation shared)
include h

theorem Sharing.eq_of_content {e e' : SharedInput} (he : e ∈ shared) (he' : e' ∈ shared)
    (heq : e.object.content = e'.object.content) : e = e' :=
  List.inj_on_of_nodup_map h.distinct he he' heq

/-- An input whose content is shared is found in the dataset of the content. -/
theorem Sharing.byContent {e : SharedInput} (he : e ∈ shared) {o : ObjectMetadata}
    (ho : o.Identified)
    (heq : o.content = e.object.content) : Kaggle.byContent shared o.key = some e := by
  have hkey : e.object.key = o.key := (sharedResourceKey_inj (h.identified e he) ho).mpr heq.symm
  cases hfound : Kaggle.byContent shared o.key with
  | none => exact absurd hkey (byContent_eq_none hfound e he)
  | some e' =>
    obtain ⟨he', hkey'⟩ := byContent_eq_some hfound
    have hcontent :=
      (sharedResourceKey_inj (h.identified e' he') (h.identified e he)).mp (hkey'.trans hkey.symm)
    rw [h.eq_of_content he' he hcontent]

theorem Sharing.holds_iff {e : SharedInput} (he : e ∈ shared) (content : String × ℤ) :
    e.request.Holds sharedBlobFile content ↔ e.object.content = content := by
  have hname : sharedMarkerFile ≠ sharedBlobFile := by decide
  rw [h.built e he]
  simp [StagingRequest.Holds, buildSharedInput, hname, StagingFile.content, ObjectMetadata.content]

/-- The names of the datasets differ, unless two digests agree in their first 40 digits. -/
theorem Sharing.slugs
    (hdigest : ∀ e ∈ shared, ∀ e' ∈ shared,
      digest40 c (seedText (sharedSeed cfg installation e.object)) =
        digest40 c (seedText (sharedSeed cfg installation e'.object)) →
      seedText (sharedSeed cfg installation e.object) =
        seedText (sharedSeed cfg installation e'.object)) :
    (shared.map (·.request.slug)).Nodup := by
  refine List.Nodup.map_on (fun e he e' he' heq => ?_) (List.Nodup.of_map _ h.distinct)
  refine h.eq_of_content he he' ?_
  have hslug (e : SharedInput) (he : e ∈ shared) :
      e.request.slug = datasetName c "crx-" (sharedSeed cfg installation e.object) := by
    conv_lhs => rw [h.built e he]
    rfl
  rw [hslug e he, hslug e' he', datasetName, datasetName, ← String.toList_inj] at heq
  simp only [String.toList_append, String.toList_ofList, List.append_cancel_left_eq] at heq
  have htext :=
    Json.write_injective Json.htmlSpelling (String.ofList_injective (hdigest e he e' he' heq))
  simp only [sharedSeed, List.map_cons, List.map_nil, Json.arr.injEq, List.cons.injEq,
    Json.str.injEq, true_and, and_true] at htext
  have hsize :=
    decimal_inj (h.identified e he).2 (h.identified e' he').2 (String.ofList_injective htext.2)
  exact Prod.ext htext.1 hsize

end Sharing

/-! ### Plans that are built -/

section Plans

variable {c : Codec} {cfg : Config} {policy : StagingPolicy} {plan : Plan} {operation : String}
  {result : StagingPlan}
  {snapshot : InputSnapshot}

/-- The inputs of a snapshot that are staged with the attempt, with their places. -/
def inlined (shared : List SharedInput) (snapshot : InputSnapshot) : List (FrozenInput × ℕ) :=
  snapshot.inputs.zipIdx.filter (inline shared)

def bundleFile (snapshot : InputSnapshot) : StagingFile :=
  ⟨bundlePath, snapshot.bundle.bytes, snapshot.bundle.sha256⟩

theorem stageInputs_eq :
    (stageInputs slug shared snapshot).objects =
      snapshot.bundle :: (inlined shared snapshot).map (·.1.object) ∧
    (stageInputs slug shared snapshot).files =
      bundleFile snapshot :: (inlined shared snapshot).map inputFile ∧
    (stageInputs slug shared snapshot).inputs = snapshot.inputs.zipIdx.map (location slug shared) :=
  foldl_stageInput snapshot.inputs.zipIdx _

theorem buildStagingPlan_ok (h : buildStagingPlan c cfg policy plan operation = .ok result) :
    ∃ snapshot, plan.job.inputs = some snapshot ∧ stageable c cfg policy plan.job operation = true ∧
      result.request.slug = attemptSlug c plan.job.identity operation ∧
      result.shared = sharedInputs c cfg policy plan.job.identity.installationID snapshot.inputs ∧
      result.objects = snapshot.bundle :: (inlined result.shared snapshot).map (·.1.object) ∧
      (∃ marker : StagingFile, marker.name = stagingMarkerFile ∧
        result.request.files =
          marker :: bundleFile snapshot :: (inlined result.shared snapshot).map inputFile) ∧
      result.inputs = snapshot.inputs.zipIdx.map (location result.request.slug result.shared) ∧
      (result.marker.utf8ByteSize : ℤ) +
        (result.request.files.tail.map (·.bytes) ++ result.shared.map (·.object.bytes)).sum ≤
          policy.maxBytes := by
  unfold buildStagingPlan at h
  cases hinputs : plan.job.inputs with
  | none => simp [hinputs] at h
  | some snapshot =>
    simp only [hinputs] at h
    cases hstageable : stageable c cfg policy plan.job operation with
    | false => simp [hstageable] at h
    | true =>
      rw [if_neg (by simp [hstageable])] at h
      split at h
      · cases h
      split at h
      · cases h
      next spent hspend =>
      obtain ⟨hobjects, hfiles, hlocations⟩ :=
        @stageInputs_eq (attemptSlug c plan.job.identity operation)
        (sharedInputs c cfg policy plan.job.identity.installationID snapshot.inputs) snapshot
      cases h
      refine ⟨snapshot, rfl, rfl, rfl, rfl, hobjects, ⟨_, rfl, congrArg _ hfiles⟩, hlocations,
        spend_le hspend ?_⟩
      rw [hfiles]
      exact List.cons_ne_nil _ _

/-- A plan is built if its marker and its bytes are within the limits. -/
theorem exists_buildStagingPlan (hinputs : plan.job.inputs = some snapshot)
    (hstageable : stageable c cfg policy plan.job operation = true)
    (hshared : sharedInputs c cfg policy plan.job.identity.installationID snapshot.inputs = shared)
    (hmarker : ((stagingMarker c policy plan operation shared
      (stageInputs (attemptSlug c plan.job.identity operation) shared snapshot)).utf8ByteSize : ℤ) ≤
        maxMarkerBytes)
    (hspend : (spend policy.maxBytes
      (stagingMarker c policy plan operation shared
        (stageInputs (attemptSlug c plan.job.identity operation) shared snapshot)).utf8ByteSize
      ((stageInputs (attemptSlug c plan.job.identity operation) shared snapshot).files.map
        (·.bytes) ++
        shared.map (·.object.bytes))).isSome = true) :
    ∃ result, buildStagingPlan c cfg policy plan operation = .ok result := by
  obtain ⟨spent, hspent⟩ := Option.isSome_iff_exists.mp hspend
  unfold buildStagingPlan
  simp only [hinputs, hstageable, hshared, if_neg (not_lt.mpr hmarker), hspent]
  exact ⟨_, rfl⟩

theorem identified_of_stageable (hinputs : plan.job.inputs = some snapshot)
    (h : stageable c cfg policy plan.job operation = true) :
    ∀ i ∈ snapshot.inputs, i.object.Identified := by
  have hvalid : inputsValid plan.job.identity.workspaceID [] [] 0 snapshot.inputs = true := by
    simp only [stageable, ResolvedJob.validate, hinputs, Bool.and_eq_true,
      InputSnapshot.validate] at h
    exact h.1.1.1.1.2.1.2.1.1.2
  intro i hi
  have hobject := ((inputsValid_bounds hvalid (by norm_num)).1 i hi).1
  simp only [ObjectMetadata.valid, Bool.and_eq_true, decide_eq_true_eq] at hobject
  exact ⟨hobject.2, hobject.1.2⟩

theorem datasetName_ne (seed seed' : List String) :
    datasetName c "crx-" seed ≠ datasetName c "crs-" seed' := by
  intro h
  have hthird := congrArg (fun s => s.toList[2]?) h
  simp [datasetName] at hthird

theorem nodup_inlined : ((inlined shared snapshot).map fun x => inputPath x.2).Nodup := by
  rw [show (fun x : FrozenInput × ℕ => inputPath x.2) = inputPath ∘ Prod.snd from rfl,
    ← List.map_map]
  refine List.Nodup.map inputPath_injective (List.Nodup.sublist (List.filter_sublist.map _) ?_)
  rw [List.zipIdx_map_snd]
  exact List.nodup_range'

/-- **Staging maps every input to its own bytes.** There is one location for each input, in order,
in the dataset of the attempt or in exactly one shared dataset, and the file there is recorded with
the content of the input. The local objects are the files after the marker, and no two files have
one name. With a positive threshold the shared contents are the first seven distinct ones of at
least that size, and every input with such a content is found there; with threshold zero nothing is
shared. All bytes together are within the limit of the policy. -/
theorem staging_maps_inputs (h : buildStagingPlan c cfg policy plan operation = .ok result) :
    ∃ snapshot, plan.job.inputs = some snapshot ∧
      result.inputs.length = snapshot.inputs.length ∧
      (∀ (i : ℕ) (input : FrozenInput) (loc : StagedInput), snapshot.inputs[i]? = some input →
        result.inputs[i]? = some loc →
        (loc.slug = result.request.slug ∧ result.request.Holds loc.file input.object.content) ∨
        ∃! e, e ∈ result.shared ∧ loc.slug = e.request.slug ∧
          e.request.Holds loc.file input.object.content) ∧
      result.objects.map ObjectMetadata.content =
        result.request.files.tail.map StagingFile.content ∧
      (result.request.files.map (·.name)).Nodup ∧
      result.shared.map (·.object.content) =
        (if 0 < policy.sharedMinBytes then
          (largeContents policy.sharedMinBytes snapshot.inputs).eraseDups.take 7
        else []) ∧
      (∀ e ∈ result.shared, e.request.slug ≠ result.request.slug ∧
        ∀ (i : ℕ) (input : FrozenInput), snapshot.inputs[i]? = some input →
          input.object.content = e.object.content →
          result.inputs[i]? = some ⟨e.request.slug, sharedBlobFile⟩) ∧
      ((∀ e ∈ result.shared, ∀ e' ∈ result.shared,
        digest40 c (seedText (sharedSeed cfg plan.job.identity.installationID e.object)) =
          digest40 c (seedText (sharedSeed cfg plan.job.identity.installationID e'.object)) →
        seedText (sharedSeed cfg plan.job.identity.installationID e.object) =
          seedText (sharedSeed cfg plan.job.identity.installationID e'.object)) →
        (result.shared.map (·.request.slug)).Nodup) ∧
      (result.marker.utf8ByteSize : ℤ) + (result.request.files.tail.map (·.bytes)).sum +
        (result.shared.map (·.object.bytes)).sum ≤ policy.maxBytes := by
  obtain ⟨snapshot, hinputs, hstageable, hslug, hshared, hobjects, ⟨marker, hmarker, hfiles⟩,
    hlocations, hbytes⟩ :=
    buildStagingPlan_ok h
  have hidentified := identified_of_stageable hinputs hstageable
  have hsharing : Sharing c cfg policy plan.job.identity.installationID result.shared :=
    hshared ▸ sharing_select hidentified
  have hlocation (i : ℕ) (input : FrozenInput) (hi : snapshot.inputs[i]? = some input) :
      result.inputs[i]? = some (location result.request.slug result.shared (input, i)) := by
    rw [hlocations, List.getElem?_map, List.getElem?_zipIdx, hi]
    simp
  refine ⟨snapshot, hinputs, ?_, ?_, ?_, ?_, ?_, ?_, hsharing.slugs, ?_⟩
  · rw [hlocations, List.length_map, List.length_zipIdx]
  · intro i input loc hi hloc
    have hmem := List.mem_of_getElem? hi
    obtain rfl := Option.some.inj ((hlocation i input hi).symm.trans hloc)
    unfold location
    cases hfound : byContent result.shared input.object.key with
    | none =>
      refine .inl ⟨rfl, inputFile (input, i), ?_, rfl, rfl⟩
      have hzip : (input, i) ∈ snapshot.inputs.zipIdx := List.mk_mem_zipIdx_iff_getElem?.mpr hi
      rw [hfiles]
      refine List.mem_cons_of_mem _
        (List.mem_cons_of_mem _ (List.mem_map_of_mem (List.mem_filter.mpr ⟨hzip, ?_⟩)))
      simp [inline, hfound]
    | some e =>
      obtain ⟨he, hkey⟩ := byContent_eq_some hfound
      have hcontent :=
        (sharedResourceKey_inj (hsharing.identified e he) (hidentified input hmem)).mp hkey
      refine .inr ⟨e, ⟨he, rfl, (hsharing.holds_iff he _).mpr hcontent⟩, ?_⟩
      rintro e' ⟨he', -, hholds⟩
      exact hsharing.eq_of_content he' he
        (((hsharing.holds_iff he' _).mp hholds).trans hcontent.symm)
  · rw [hobjects, hfiles]
    simp [bundleFile, inputFile, ObjectMetadata.content, StagingFile.content, Function.comp_def]
  · have hne (name : String) (hname : ∀ i, inputPath i ≠ name) :
        name ∉ (inlined result.shared snapshot).map fun x => inputPath x.2 := by
      intro hmem
      obtain ⟨x, -, hx⟩ := List.mem_map.mp hmem
      exact hname x.2 hx
    rw [hfiles, List.map_cons, List.map_cons, List.map_map, hmarker, List.nodup_cons,
      List.nodup_cons, List.mem_cons, not_or]
    exact ⟨⟨show stagingMarkerFile ≠ bundlePath by decide, hne _ fun i => (inputPath_ne i).1⟩,
      hne _ fun i => (inputPath_ne i).2, nodup_inlined⟩
  · rw [hshared, sharedInputs, List.map_map]
    exact map_content_selectSharedInputs hidentified (by decide)
  · intro e he
    constructor
    · rw [hsharing.built e he, hslug]
      exact datasetName_ne _ _
    · intro i input hi hcontent
      rw [hlocation i input hi, location,
        hsharing.byContent he (hidentified input (List.mem_of_getElem? hi)) hcontent]
  · rw [List.sum_append] at hbytes
    rw [add_assoc]
    exact hbytes

end Plans

def sampleConfig : Config := ⟨"instance", "1", "account", "vault:con_key"⟩

def samplePolicy (minBytes : ℤ) : StagingPolicy := ⟨"other", 10000, 60 * Rfc3339.second, minBytes⟩

/-- A job with inputs of seven and of twelve bytes. -/
def twoInputsPlan : Plan where
  job := {
    identity := sampleIdentity
    binding := ⟨"default", "instance", "1"⟩
    specification := "\x7b\x7d"
    specificationSHA256 := sampleDigest
    required := [capabilityBatchExecution]
    wallSeconds := 600
    inputs := some twoInputs }
  verifyAfterStart := []

/-- The shared datasets of the job. -/
def twoInputsShared (minBytes : ℤ) : List SharedInput :=
  sharedInputs sampleCodec sampleConfig (samplePolicy minBytes) "installation" twoInputs.inputs

def twoInputsStaging (minBytes : ℤ) : Staging :=
  stageInputs (attemptSlug sampleCodec sampleIdentity "prepare")
    (twoInputsShared minBytes) twoInputs

theorem buildStagingPlan_twoInputs {minBytes : ℤ} (hmin : minBytes = 0 ∨ minBytes = 10) :
    ∃ result, buildStagingPlan sampleCodec sampleConfig (samplePolicy minBytes)
      twoInputsPlan "prepare" =
      .ok result := by
  have hstageable :
      stageable sampleCodec sampleConfig (samplePolicy minBytes) twoInputsPlan.job "prepare" =
        true := by
    rcases hmin with rfl | rfl <;> decide +kernel
  have hmarker : ((stagingMarker sampleCodec (samplePolicy minBytes) twoInputsPlan "prepare"
      (twoInputsShared minBytes)
      (twoInputsStaging minBytes)).utf8ByteSize : ℤ) ≤ 2000 := by
    rw [stagingMarker, Json.utf8ByteSize_marshal]
    rcases hmin with rfl | rfl <;> decide +kernel
  have hbytes : (∀ n ∈ (twoInputsStaging minBytes).files.map (·.bytes) ++
        (twoInputsShared minBytes).map (·.object.bytes), 0 ≤ n) ∧
      ((twoInputsStaging minBytes).files.map (·.bytes) ++
        (twoInputsShared minBytes).map (·.object.bytes)).sum ≤
        200 := by
    rcases hmin with rfl | rfl <;> decide +kernel
  have hinputs : twoInputsPlan.job.inputs = some twoInputs := rfl
  have hshared : sharedInputs sampleCodec sampleConfig (samplePolicy minBytes)
      twoInputsPlan.job.identity.installationID
      twoInputs.inputs = twoInputsShared minBytes := rfl
  refine exists_buildStagingPlan hinputs hstageable hshared (hmarker.trans (by decide))
    (isSome_spend hbytes.1 ?_)
  exact (add_le_add hmarker hbytes.2).trans (show (2000 + 200 : ℤ) ≤ 10000 by decide)

theorem twoInputs_staging_maps_inputs :
    ∃ result, buildStagingPlan sampleCodec sampleConfig (samplePolicy 10) twoInputsPlan "prepare" =
      .ok result ∧
      result.inputs.length = 2 ∧ result.shared.map (·.object.content) = [(sampleDigest, 12)] := by
  obtain ⟨result, h⟩ := buildStagingPlan_twoInputs (.inr rfl)
  obtain ⟨snapshot, hsnapshot, hlength, -, -, -, hshared, -⟩ := staging_maps_inputs h
  obtain rfl : twoInputs = snapshot := Option.some.inj hsnapshot
  exact ⟨result, h, hlength, hshared.trans (by decide +kernel)⟩

/-- Without a threshold every input is of the threshold's size, and still none is shared. -/
theorem zero_threshold_shares_nothing :
    ∃ result, buildStagingPlan sampleCodec sampleConfig (samplePolicy 0) twoInputsPlan "prepare" =
      .ok result ∧
      result.shared.map (·.object.content) ≠
        (largeContents (samplePolicy 0).sharedMinBytes twoInputs.inputs).eraseDups.take 7 := by
  obtain ⟨result, h⟩ := buildStagingPlan_twoInputs (.inl rfl)
  obtain ⟨snapshot, hsnapshot, -, -, hshared, -⟩ := buildStagingPlan_ok h
  obtain rfl : twoInputs = snapshot := Option.some.inj hsnapshot
  refine ⟨result, h, ?_⟩
  rw [hshared]
  decide +kernel

end Kaggle
end ComputeRelay
