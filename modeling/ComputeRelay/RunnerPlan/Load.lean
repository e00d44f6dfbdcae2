import Mathlib.Tactic
import ComputeRelay.Lib.JsonLayout
import ComputeRelay.RunnerPlan.Agreement

/-!
# Whether the runner loads what the relay builds

The runner reads the manifest twice: `main` loads the text that `json.Marshal` wrote, and `execute`
begins with `load(json.dumps(manifest).encode())`, after a start control may have tightened the
timeouts. Where a provider hands the manifest over as a value, the second load is the only one.

`manifestBytes` adds up the text of the manifest, in either layout, from the parts of the request
and the frozen inputs, and `validate_manifestOf` collects what the runner checks of it. For a job
that was admitted and found compatible, two limits of the runner are left: its arguments and
environment values are measured in bytes there and in code points before, and nothing before
measures either text.
-/

namespace ComputeRelay
namespace RunnerPlan

open Text Paths Admission Provider Domain

/-! ### The size of the manifest -/

section Size

variable (L : Json.Layout)

/-- The bytes of one input: its keys and punctuation, the staged name, and the texts of the frozen
input. -/
def inputBytes (f : FrozenInput) : ℕ :=
  61 + 9 * L.gap + L.size (.int f.object.bytes) + L.quoted f.name + L.quoted f.object.sha256 +
    L.quoted f.target

/-- The bytes of the manifest of a job: its keys and punctuation, the identity, the parts of the
request that are copied, and one entry for each input. -/
def manifestBytes (id : Identity) (inputs : InputSnapshot) (s : Spec) : ℕ :=
  232 + 28 * L.gap + L.quoted id.jobID + L.quoted id.attemptID + L.quoted id.nonce +
  L.quoted id.inputManifestSHA256 + L.size (.int inputs.bundle.bytes) +
  L.quoted inputs.bundle.sha256 + L.size s.execution.toJson + L.size s.network.toJson +
  L.size (outputsJson s.outputs) + L.size s.resources.toJson + L.size s.timeouts.toJson +
  (if s.separateStart then 41 + 2 * L.gap else 0) +
  (match s.workloadSecrets with
    | none => 0
    | some slots => 20 + 2 * L.gap + L.size (slotsJson slots)) +
  (inputs.inputs.map (inputBytes L)).sum + (inputs.inputs.length - 1) * (1 + L.gap)

end Size

/-- The manifest as `json.dumps` writes it; the order of the members does not change its size. -/
def dumpManifest (m : Runner.Manifest) : String :=
  String.ofList (Json.dump Json.escapeASCII (manifestJson m))

/-- The manifest of a specification and the inputs frozen for it. -/
def manifestOf (id : Identity) (inputs : InputSnapshot) (s : Spec) : Runner.Manifest where
  manifestVersion := "compute-relay/runner/v1"
  jobID := id.jobID
  attemptID := id.attemptID
  attemptNonce := id.nonce
  inputManifestSHA256 := id.inputManifestSHA256
  bundle := ⟨bundlePath, inputs.bundle.bytes, inputs.bundle.sha256⟩
  inputs := (inputs.inputs.zipIdx 0).map fun p => frozenEntry p.1 p.2
  execution := s.execution
  outputs := s.outputs
  resources := s.resources
  network := s.network
  timeouts := s.timeouts
  workloadSecrets := s.workloadSecrets
  executionControl := if s.separateStart then some .prepareThenStart else none

theorem build_eq {read : String → Option Spec} {plan : Plan} {m : Runner.Manifest} {spec : Spec}
    (h : build read plan = some (m, spec)) :
    ∃ inputs, plan.job.inputs = some inputs ∧ parse read plan.job.specification = some spec ∧
      spec.inputs.map (·.name) = inputs.inputs.map (·.name) ∧
      spec.inputs.map (·.target) = inputs.inputs.map (·.target) ∧
      m = manifestOf plan.job.identity inputs spec := by
  unfold build at h
  cases hinputs : plan.job.inputs with
  | none => simp [hinputs] at h
  | some inputs =>
    cases hparse : parse read plan.job.specification with
    | none => simp [hinputs, hparse] at h
    | some s =>
      simp only [hinputs, hparse, bind, Option.bind_some, Option.ite_none_right_eq_some,
        Option.bind_eq_some_iff, Bool.and_eq_true, decide_eq_true_eq, Option.some.injEq,
        Prod.mk.injEq] at h
      obtain ⟨⟨-, hlen⟩, entries, hentries, hm, rfl⟩ := h
      obtain ⟨rfl, hnames, htargets⟩ := buildInputs_eq hentries hlen
      exact ⟨inputs, rfl, rfl, hnames, htargets, hm.symm⟩

section Size

variable (L : Json.Layout)

theorem quoted_inputPath {n : ℕ} (h : n < 1000) : L.quoted (inputPath n) = 15 := by
  obtain ⟨a, b, c, ha, hb, hc, htoList⟩ := toList_inputPath h
  have hdigit : ∀ d : Char, d.isDigit = true → Json.plainChar d = true := by
    intro d hd
    have hrange : 48 ≤ d.toNat ∧ d.toNat ≤ 57 := by
      simpa [Char.isDigit, UInt32.le_iff_toNat_le] using hd
    have hout : (['"', '\\', '<', '>', '&'].all fun e => !e.isDigit) = true := by decide
    have hmem : d ∉ ['"', '\\', '<', '>', '&'] := fun hmem => by
      have hnot := List.all_eq_true.mp hout d hmem
      rw [hd] at hnot
      cases hnot
    simp only [Json.plainChar, List.contains_eq_mem, hmem, decide_false, Bool.not_false,
      Bool.and_true, Bool.and_eq_true, decide_eq_true_eq]
    omega
  refine L.quoted_plain ?_ (by rw [htoList]; rfl)
  rw [htoList]
  simp only [List.all_cons, hdigit a ha, hdigit b hb, hdigit c hc]
  decide

theorem size_inputJson {f : FrozenInput} {n : ℕ} (h : n < 1000) :
    L.size (inputJson (frozenEntry f n)) = inputBytes L f := by
  have h1 : L.quoted "bytes" = 7 := L.quoted_plain (by decide) rfl
  have h2 : L.quoted "name" = 6 := L.quoted_plain (by decide) rfl
  have h3 : L.quoted "path" = 6 := L.quoted_plain (by decide) rfl
  have h4 : L.quoted "sha256" = 8 := L.quoted_plain (by decide) rfl
  have h5 : L.quoted "target" = 8 := L.quoted_plain (by decide) rfl
  simp only [inputJson, frozenEntry, L.size_members, List.map_cons, List.map_nil, List.sum_cons,
    List.sum_nil, List.length_cons, List.length_nil, L.size_str, quoted_inputPath L h,
      h1, h2, h3, h4,
    h5, inputBytes]
  omega

/-- The text of the manifest has the size that its parts add up to. -/
theorem size_manifestJson (id : Identity) {inputs : InputSnapshot} (s : Spec)
    (hcount : inputs.inputs.length ≤ 1000) :
    L.size (manifestJson (manifestOf id inputs s)) = manifestBytes L id inputs s := by
  have hinputs : ((manifestOf id inputs s).inputs.map inputJson).map L.size =
      inputs.inputs.map (inputBytes L) := by
    rw [manifestOf, List.map_map, List.map_map]
    conv_rhs => rw [← List.zipIdx_map_fst 0 inputs.inputs, List.map_map]
    refine List.map_congr_left fun p hp => ?_
    have hn := List.snd_lt_of_mem_zipIdx hp
    exact size_inputJson L (by omega)
  have hlength : (manifestOf id inputs s).inputs.length = inputs.inputs.length := by
    simp [manifestOf]
  have hkeys : ∀ k ∈ ["attempt_id", "attempt_nonce", "bundle", "execution", "execution_control",
      "input_manifest_sha256", "inputs", "job_id", "manifest_version", "network", "outputs",
      "resources", "timeouts", "workload_secrets", "bytes", "path", "sha256",
      "compute-relay/runner/v1", "code.bin", "prepare_then_start"],
      L.quoted k = k.toList.length + 2 := by
    have hplain : ∀ k ∈ ["attempt_id", "attempt_nonce", "bundle", "execution", "execution_control",
        "input_manifest_sha256", "inputs", "job_id", "manifest_version", "network", "outputs",
        "resources", "timeouts", "workload_secrets", "bytes", "path", "sha256",
        "compute-relay/runner/v1", "code.bin", "prepare_then_start"],
        k.toList.all Json.plainChar = true := by decide
    exact fun k hk => L.quoted_plain (hplain k hk) rfl
  simp only [List.forall_mem_cons, List.not_mem_nil, false_imp_iff, implies_true, and_true] at hkeys
  rw [manifestJson, L.size_members]
  simp only [List.map_append, List.sum_append, List.length_append, List.map_cons, List.map_nil,
    List.sum_cons, List.sum_nil, List.length_cons, List.length_nil, L.size_members, L.size_items,
    hinputs, List.length_map, hlength, L.size_str, fileMembers]
  simp only [manifestOf, bundlePath, hkeys, manifestBytes]
  -- the two members that may be left out
  cases hsep : s.separateStart <;> cases hsecrets : s.workloadSecrets <;>
    simp only [member, Bool.false_eq_true, if_false, if_true, Option.map_none, Option.map_some,
      Option.toList_none, Option.toList_some, List.map_cons, List.map_nil, List.sum_cons,
      List.sum_nil, List.length_cons, List.length_nil, ExecutionControl.word, L.size_str, hkeys] <;>
    simp <;> omega

end Size

/-! ### The two sides together -/

theorem resolveSources_eq {s spec : Spec} {inputs : InputSnapshot}
    (h : resolveSources s inputs = some spec) :
    spec.inputs.map (·.target) = s.inputs.map (·.target) ∧
      spec = { s with inputs := spec.inputs } := by
  simp only [resolveSources, Option.ite_none_right_eq_some, Option.some.injEq] at h
  obtain ⟨hlen, rfl⟩ := h
  exact ⟨List.ext_getElem (by simp [hlen]) fun n _ _ => by simp, rfl⟩

theorem runnerCompatible_resolve {s spec : Spec} {inputs : InputSnapshot} {m : Packaging.Manifest}
    (h : resolveSources s inputs = some spec) :
    runnerCompatible spec m = runnerCompatible s m := by
  obtain ⟨htargets, hspec⟩ := resolveSources_eq h
  have hall : spec.inputs.all (fun i => runnerPath i.target) =
      s.inputs.all fun i => runnerPath i.target := by
    have := congrArg (List.all · runnerPath) htargets
    simpa only [List.all_map, Function.comp_def] using this
  rw [hspec]
  simp only [runnerCompatible, hall, htargets]

theorem timeoutsValid_of_admitted {spec : Spec} (hschema : spec.schema = true)
    (hsemantic : semantic spec = true) : Runner.timeoutsValid spec.timeouts = true := by
  simp only [Spec.schema, Bool.and_eq_true, decide_eq_true_eq] at hschema
  simp only [semantic, Bool.and_eq_true, decide_eq_true_eq] at hsemantic
  exact timeoutsValid_of_parsed hschema.1.1.2 hsemantic.1.1.1.1.1.1.1.2 hsemantic.1.1.1.1.1.2

/-- What is left of the runner's checks for a manifest of admitted parts, whose timeouts a start
control may have tightened. -/
theorem validate_manifestOf {c : Codec} {job : ResolvedJob} {inputs : InputSnapshot} {spec : Spec}
    {bundle : Packaging.Manifest} {t : Timeouts} (ht : Runner.timeoutsValid t = true)
    (hjob : job.validate c = true) (hinputs : job.inputs = some inputs)
    (hschema : spec.schema = true) (hsemantic : semantic spec = true)
    (hnames : spec.inputs.map (·.name) = inputs.inputs.map (·.name))
    (htargets : spec.inputs.map (·.target) = inputs.inputs.map (·.target))
    (hbundle : bundle.valid Packaging.defaultLimits = true)
    (hcompatible : runnerCompatible spec bundle = true) :
    Runner.validate (manifestOf job.identity inputs { spec with timeouts := t }) =
      some Runner.defaultLimits ↔ withinBytes spec.execution = true := by
  have hid : job.identity.validate = true ∧ inputs.validate job.identity.workspaceID = true := by
    simp only [ResolvedJob.validate, hinputs, Bool.and_eq_true] at hjob
    exact ⟨hjob.1.1.1.1.1.1.1.1.1.1.1, hjob.1.2.1.1⟩
  obtain ⟨hidentity, hsnapshot⟩ := hid
  simp only [Identity.validate, Bool.and_eq_true, decide_eq_true_eq] at hidentity
  obtain ⟨⟨⟨⟨⟨⟨⟨⟨⟨-, hjobID⟩, hattemptID⟩, -⟩, -⟩, -⟩, hnonce⟩, hnonceSize⟩, -⟩, hdigest⟩ :=
    hidentity
  simp only [Spec.schema, Bool.and_eq_true, decide_eq_true_eq] at hschema
  obtain ⟨⟨⟨⟨⟨⟨⟨⟨⟨⟨-, hexec⟩, hincount⟩, hinschema⟩, houtone⟩, houtmax⟩, houtschema⟩, hresources⟩,
    -⟩, -⟩, hslots⟩ := hschema
  have hsem := hsemantic
  simp only [semantic, Bool.and_eq_true, decide_eq_true_eq] at hsem
  obtain ⟨⟨⟨⟨⟨⟨⟨⟨⟨⟨-, hvalidSlots⟩, -⟩, -⟩, -⟩, -⟩, -⟩, -⟩, -⟩, hseminputs⟩, -⟩ := hsem
  have hcomp := hcompatible
  simp only [runnerCompatible, Bool.and_eq_true] at hcomp
  obtain ⟨⟨⟨⟨⟨-, hinpaths⟩, houtpaths⟩, hindisjoint⟩, houtdisjoint⟩, -⟩ := hcomp
  have hinputsValid : Runner.inputsValid ((inputs.inputs.zipIdx 0).map fun p => frozenEntry p.1 p.2)
      Runner.defaultLimits.inputBytes = true := by
    refine inputsValid_of_frozen hsnapshot (fun f hf => ?_) ?_ ?_
    · have hmem : f.name ∈ spec.inputs.map (·.name) := hnames ▸ List.mem_map_of_mem hf
      obtain ⟨i, hi, hname⟩ := List.mem_map.mp hmem
      have hschema := List.all_eq_true.mp hinschema i hi
      simp only [Input.schema, Bool.and_eq_true] at hschema
      exact hname ▸ hschema.1.1
    · exact hnames ▸ (semanticInputs_nodup hseminputs).1
    · rw [← htargets, Runner.disjoint, Bool.and_eq_true]
      refine ⟨?_, hindisjoint⟩
      rw [List.all_map, List.all_eq_true]
      exact fun i hi => relative_of_runnerPath (List.all_eq_true.mp hinpaths i hi)
  have hbundleEntry : Runner.Entry.valid ⟨bundlePath, inputs.bundle.bytes, inputs.bundle.sha256⟩
      Runner.defaultLimits.bundleBytes = true := by
    simp only [InputSnapshot.validate, Bool.and_eq_true, decide_eq_true_eq] at hsnapshot
    obtain ⟨⟨⟨⟨⟨hvalid, -⟩, hmax⟩, -⟩, -⟩, -⟩ := hsnapshot
    exact entry_valid (by decide) hvalid hmax
  have hsecrets : (spec.workloadSecrets.all fun slots =>
      (if spec.separateStart then some ExecutionControl.prepareThenStart else none) =
        some .prepareThenStart && Runner.slotsValid slots) = true := by
    cases hs : spec.workloadSecrets with
    | none => rfl
    | some slots =>
      simp only [hs, Option.all_some, Option.getD_some, Bool.and_eq_true,
        decide_eq_true_eq] at hslots hvalidSlots ⊢
      obtain ⟨⟨⟨⟨hone, hmax⟩, -⟩, hslot⟩, hcontrol⟩ := hslots
      exact ⟨by simp [Spec.separateStart, hcontrol],
        slotsValid_of_parsed hone hmax hslot hvalidSlots⟩
  have hcontrol : (if spec.separateStart then some ExecutionControl.prepareThenStart else none).all
      (· = .prepareThenStart) = true := by
    split <;> rfl
  have hrest : Runner.executionValid spec.execution = true ↔ withinBytes spec.execution = true :=
    executionValid_iff hexec hsemantic hbundle hcompatible
  simp only [Runner.validate, manifestOf, Bool.and_eq_true, hrest]
  rw [Option.ite_none_right_eq_some]
  constructor
  · rintro ⟨h, -⟩
    exact h.1.1.1.2
  · intro hbytes
    refine ⟨⟨⟨⟨⟨⟨⟨⟨⟨⟨⟨⟨⟨⟨hcontrol, ?_⟩, rfl⟩, ?_⟩, ?_⟩, ?_⟩, ?_⟩, rfl⟩, hbundleEntry⟩,
      hinputsValid⟩, hbytes⟩, resourcesValid_of_schema hresources⟩, ht⟩,
      outputsValid_of_compatible houtone houtmax houtschema houtpaths houtdisjoint⟩, rfl⟩
    · exact hsecrets
    · exact idPattern_of_validOpaqueID hjobID
    · exact idPattern_of_validOpaqueID hattemptID
    · exact noncePattern_of_validOpaqueID hnonce hnonceSize
    · exact digestPattern_of_valid hdigest

theorem parse_admitted {read : String → Option Spec} {raw : String} {s : Spec}
    (h : parse read raw = some s) : s.schema = true ∧ semantic s = true := by
  unfold parse at h
  rw [Option.ite_none_left_eq_some] at h
  cases hread : read raw with
  | none => simp [hread] at h
  | some t =>
    simp only [hread, Option.ite_none_right_eq_some, Bool.and_eq_true, Option.some.injEq] at h
    obtain ⟨-, ⟨⟨-, hschema⟩, hsemantic⟩, rfl⟩ := h
    exact ⟨hschema, hsemantic⟩

/-- A load of a manifest in some layout: its text is bounded and its parts are checked. -/
theorem load_iff {loads : String → Option Runner.Manifest} {m : Runner.Manifest} {raw : String}
    {fits : Prop} {n : ℕ} (hloads : loads raw = some m) (hsize : raw.utf8ByteSize = n)
    (hvalidate : Runner.validate m = some Runner.defaultLimits ↔ fits) :
    Runner.load loads raw = some (m, Runner.defaultLimits) ↔ fits ∧ n ≤ 2 ^ 20 := by
  rw [Runner.load, hsize, hloads, Option.bind_some, Option.ite_none_right_eq_some,
    Option.map_eq_some_iff]
  constructor
  · rintro ⟨hbytes, limits, hlimits, hpair⟩
    rw [Prod.mk.injEq] at hpair
    exact ⟨hvalidate.mp (hpair.2 ▸ hlimits), hbytes⟩
  · rintro ⟨hfits, hbytes⟩
    exact ⟨hbytes, _, hvalidate.mpr hfits, rfl⟩

/-- The runner takes the manifest of an admitted and compatible job, in `main` and again at the
start of `execute`, exactly when its arguments and environment values fit their byte limits and
either text of the manifest fits its own. -/
theorem runner_accepts_iff (c : Codec) (read : String → Option Spec)
    (loads : String → Option Runner.Manifest) {s spec : Spec} {bundle : Packaging.Manifest}
    {plan : Plan} {inputs : InputSnapshot} {m : Runner.Manifest}
    (hbundle : bundle.valid Packaging.defaultLimits = true)
    (hcompatible : runnerCompatible s bundle = true) (hplan : plan.job.validate c = true)
    (hinputs : plan.job.inputs = some inputs) (hresolve : resolveSources s inputs = some spec)
    (hbuild : build read plan = some (m, spec)) (hloads : loads (marshalManifest m) = some m) :
    (Runner.load loads (marshalManifest m) = some (m, Runner.defaultLimits) ↔
      withinBytes s.execution = true ∧
        manifestBytes .compact plan.job.identity inputs s ≤ 2 ^ 20) ∧
    ∀ t, Runner.timeoutsValid t = true →
      loads (dumpManifest { m with timeouts := t }) = some { m with timeouts := t } →
      (Runner.load loads (dumpManifest { m with timeouts := t }) =
          some ({ m with timeouts := t }, Runner.defaultLimits) ↔
        withinBytes s.execution = true ∧
          manifestBytes .spaced plan.job.identity inputs { s with timeouts := t } ≤ 2 ^ 20) := by
  obtain ⟨inputs', hinputs', hparse, hnames, htargets, rfl⟩ := build_eq hbuild
  obtain rfl : inputs' = inputs := Option.some.inj (hinputs'.symm.trans hinputs)
  have hspec := (resolveSources_eq hresolve).2
  obtain ⟨hschema, hsemantic⟩ := parse_admitted hparse
  have hcount : inputs'.inputs.length ≤ 1000 := by
    have hlen := congrArg List.length hnames
    rw [List.length_map, List.length_map] at hlen
    have hadmitted := hschema
    simp only [Spec.schema, Bool.and_eq_true, decide_eq_true_eq] at hadmitted
    have hmax := hadmitted.1.1.1.1.1.1.1.1.2
    omega
  have hexecution : spec.execution = s.execution := by rw [hspec]
  have htimeouts : spec.timeouts = s.timeouts := by rw [hspec]
  have hvalidate : ∀ t, Runner.timeoutsValid t = true →
      (Runner.validate (manifestOf plan.job.identity inputs' { spec with timeouts := t }) =
        some Runner.defaultLimits ↔ withinBytes s.execution = true) := fun t ht =>
    hexecution ▸ validate_manifestOf ht hplan hinputs hschema hsemantic hnames htargets hbundle
      (runnerCompatible_resolve hresolve ▸ hcompatible)
  -- both texts are measured without the sources of the inputs
  have hsize : ∀ (L : Json.Layout) t, (String.ofList (L.text (manifestJson
      (manifestOf plan.job.identity inputs' { spec with timeouts := t })))).utf8ByteSize =
        manifestBytes L plan.job.identity inputs' { s with timeouts := t } := by
    intro L t
    have h := size_manifestJson L plan.job.identity { spec with timeouts := t } hcount
    rw [hspec] at h ⊢
    exact (utf8ByteSize_ofList _).trans h
  refine ⟨load_iff hloads ((hsize .compact spec.timeouts).trans (by rw [htimeouts])) ?_,
    fun t ht hreloads => load_iff hreloads (hsize .spaced t) (hvalidate t ht)⟩
  exact hvalidate spec.timeouts (timeoutsValid_of_admitted hschema hsemantic)

/-! ### A job with one long argument -/

def sampleDigest : String := "0000000000000000000000000000000000000000000000000000000000000000"

def sampleCodec : Codec where
  jsonValid _ := true
  digest _ := sampleDigest
  marshalPlan _ := none
  encodeEntries _ := some ""
  marshalReadiness _ := ""

/-- A job that runs `python` on one argument. -/
def sampleSpec (arg : String) : Spec where
  apiVersion := apiVersion
  name := "job"
  profile := "default"
  bundle := ⟨"bundle", none⟩
  execution := { kind := .python, command := ["python", arg] }
  inputs := []
  outputs := [{ path := "result", required := true }]
  resources := { accelerator := .cpu }
  network := .disabled
  timeouts := { remoteWallSeconds := 600, setupSeconds := 60, finalizationGraceSeconds := 60 }

/-- A reader that knows the canonical text of this one job. -/
def sampleRead (arg raw : String) : Option Spec :=
  if raw = (sampleSpec arg).canonical then some (sampleSpec arg) else none

def sampleBundle : Packaging.Manifest := ⟨Packaging.version, [⟨"main.py", 3, sampleDigest, false⟩]⟩

def sampleIdentity : Identity where
  installationID := "installation"
  workspaceID := "workspace"
  jobID := "job"
  attemptID := "attempt"
  instanceID := "instance"
  intentID := "intent"
  resourceKey := "key"
  nonce := "0123456789abcdef"
  bundleSHA256 := sampleDigest
  inputManifestSHA256 := sampleDigest

def sampleInputs : InputSnapshot := ⟨⟨"bundle", "workspace", 100, sampleDigest⟩, [], none⟩

def samplePlan (arg : String) : Plan where
  job := {
    identity := sampleIdentity
    binding := ⟨"default", "instance", "1"⟩
    specification := (sampleSpec arg).canonical
    specificationSHA256 := sampleDigest
    required := [capabilityBatchExecution]
    wallSeconds := 600
    inputs := some sampleInputs }
  verifyAfterStart := []

section Sample

variable {arg : String}

theorem sampleSpec_admitted (hone : 1 ≤ arg.toList.length) (hmax : arg.toList.length ≤ 4096)
    (hnul : noNul arg = true) :
    (sampleSpec arg).schema = true ∧ semantic (sampleSpec arg) = true := by
  have hclosed : (points "job" 1 128 && profileName "default" && objectIDPattern "bundle" &&
      relativeFilePath "result" && argument "python" && noNul "python" && !blank "job") = true := by
    decide
  simp only [Bool.and_eq_true, Bool.not_eq_true'] at hclosed
  obtain ⟨⟨⟨⟨⟨⟨h1, h2⟩, h3⟩, h4⟩, h5⟩, h6⟩, h7⟩ := hclosed
  constructor
  · simp [Spec.schema, sampleSpec, Execution.schema, Output.schema, Resources.schema,
      Timeouts.schema, within, expectedSchema, h1, h2, h3, h4, h5]
    simp [argument, points, hone, hmax]
  · simp [semantic, sampleSpec, validObjectExpectation, validSlots, semanticInputs, semanticOutputs,
      overlaps, h6, h7, hnul]

theorem size_sampleSpec :
    Json.Layout.compact.size (sampleSpec arg).toJson + Json.Layout.compact.quoted "" =
      Json.Layout.compact.size (sampleSpec "").toJson + Json.Layout.compact.quoted arg := by
  simp only [Spec.toJson, sampleSpec, Execution.toJson, arguments, Json.Layout.size_members,
    Json.Layout.size_items, List.map_cons, List.map_nil, List.map_append, List.sum_cons,
    List.sum_nil, List.sum_append, List.length_append, List.length_cons, List.length_nil,
    Json.Layout.size_str]
  omega

theorem canonical_sampleSpec (h : Json.Layout.compact.quoted arg ≤ 2 ^ 19) :
    (sampleSpec arg).canonical.utf8ByteSize ≤ maxRequestBytes := by
  have hrest : Json.Layout.compact.size (sampleSpec "").toJson ≤ 1000 := by decide +kernel
  have hsize := @size_sampleSpec arg
  have hmarshal : (sampleSpec arg).canonical.utf8ByteSize =
      Json.Layout.compact.size (sampleSpec arg).toJson := Json.utf8ByteSize_marshal _ _
  rw [hmarshal, maxRequestBytes]
  omega

theorem parse_sampleSpec (hone : 1 ≤ arg.toList.length) (hmax : arg.toList.length ≤ 4096)
    (hnul : noNul arg = true) (h : Json.Layout.compact.quoted arg ≤ 2 ^ 19) :
    parse (sampleRead arg) (sampleSpec arg).canonical = some (sampleSpec arg) := by
  obtain ⟨hschema, hsemantic⟩ := sampleSpec_admitted hone hmax hnul
  have hsize := canonical_sampleSpec h
  have hne : (sampleSpec arg).canonical ≠ "" := by
    rw [Spec.canonical, Json.marshal, Spec.toJson, Json.write]
    simp
  simp [parse, sampleRead, hschema, hsemantic, hsize, hne, not_lt.mpr hsize]

theorem trimSpace_obj (members : List (String × Json)) :
    trimSpace (Json.marshal Json.escapeHTML (.obj members)) =
      Json.marshal Json.escapeHTML (.obj members) := by
  have hends : (bytes (Json.marshal Json.escapeHTML (.obj members))).head?.any graphic = true ∧
      (bytes (Json.marshal Json.escapeHTML (.obj members))).getLast?.any graphic = true := by
    rw [Json.marshal, Json.write, ← List.cons_append, bytes_ofList_append, bytes_ofList_cons]
    exact ⟨rfl, by rw [List.getLast?_append]; rfl⟩
  rw [trimSpace, hends.1, hends.2]
  rfl

theorem samplePlan_valid (h : Json.Layout.compact.quoted arg ≤ 2 ^ 19) :
    (samplePlan arg).job.validate sampleCodec = true := by
  have hclosed : sampleIdentity.validate = true ∧
      sampleInputs.validate "workspace" = true ∧
      ProviderBinding.validate ⟨"default", "instance", "1"⟩ = true ∧
      capabilitiesValid [capabilityBatchExecution] = true := by decide
  obtain ⟨hidentity, hinputs, hbinding, hcapabilities⟩ := hclosed
  have hsize := canonical_sampleSpec h
  have htrim : trimSpace (sampleSpec arg).canonical = (sampleSpec arg).canonical := trimSpace_obj _
  have hhead : (sampleSpec arg).canonical.toList.head? = some '\x7b' := by
    rw [Spec.canonical, Json.marshal, String.toList_ofList, Spec.toJson, Json.write]
    rfl
  have hone : 1 ≤ (sampleSpec arg).canonical.utf8ByteSize := by
    apply utf8ByteSize_pos
    cases hs : (sampleSpec arg).canonical.toList with
    | nil => simp [hs] at hhead
    | cons c cs => simp
  have hdigest : sampleInputs.inputDigest sampleCodec = sampleDigest := rfl
  simp only [ResolvedJob.validate, samplePlan, htrim, hhead, hone, hidentity, hbinding,
    hcapabilities, hdigest, Bool.and_eq_true, decide_eq_true_eq]
  exact ⟨⟨⟨⟨⟨⟨⟨⟨⟨⟨⟨trivial, trivial⟩, rfl⟩, rfl⟩, rfl⟩, trivial⟩, decide_eq_true hsize⟩, rfl⟩,
    trivial⟩, rfl⟩, ⟨hinputs, rfl⟩, rfl⟩, trivial⟩

theorem build_samplePlan (hone : 1 ≤ arg.toList.length) (hmax : arg.toList.length ≤ 4096)
    (hnul : noNul arg = true) (h : Json.Layout.compact.quoted arg ≤ 2 ^ 19) :
    build (sampleRead arg) (samplePlan arg) =
      some (manifestOf sampleIdentity sampleInputs (sampleSpec arg), sampleSpec arg) := by
  have hparse := parse_sampleSpec hone hmax hnul h
  simp only [build, samplePlan, bind, Option.bind_some, hparse]
  rfl

theorem runnerCompatible_sampleSpec (hnul : noNul arg = true) :
    runnerCompatible (sampleSpec arg) sampleBundle = true := by
  have hclosed : noNul "python" = true ∧ runnerPath "result" = true ∧
      disjointRunnerPaths [] = true ∧ disjointRunnerPaths ["result"] = true := by decide
  obtain ⟨h1, h2, h3, h4⟩ := hclosed
  simp [runnerCompatible, sampleSpec, workingDirectory, h1, h2, h3, h4, hnul]

end Sample

theorem sampleBundle_valid : sampleBundle.valid Packaging.defaultLimits = true := by decide

def manifestSample (arg : String) : Runner.Manifest :=
  manifestOf sampleIdentity sampleInputs (sampleSpec arg)

/-- A reader that knows the two texts of one manifest. -/
def sampleLoads (raw : String) : Option Runner.Manifest :=
  if raw = marshalManifest (manifestSample "main.py") ∨
    raw = dumpManifest (manifestSample "main.py")
  then some (manifestSample "main.py") else none

theorem runner_loads_sample :
    Runner.load sampleLoads (marshalManifest (manifestSample "main.py")) =
        some (manifestSample "main.py", Runner.defaultLimits) ∧
      Runner.load sampleLoads (dumpManifest (manifestSample "main.py")) =
        some (manifestSample "main.py", Runner.defaultLimits) := by
  have h := runner_accepts_iff sampleCodec (sampleRead "main.py") sampleLoads sampleBundle_valid
    (runnerCompatible_sampleSpec (by decide)) (samplePlan_valid (by decide)) rfl rfl
    (build_samplePlan (by decide) (by decide) (by decide) (by decide)) (if_pos (.inl rfl))
  exact ⟨h.1.mpr ⟨by decide, by decide +kernel⟩,
    (h.2 (sampleSpec "main.py").timeouts (by decide) (if_pos (.inr rfl))).mpr
      ⟨by decide, by decide +kernel⟩⟩

/-- An argument of 2049 two-byte characters: within the 4096 code points of the schema, beyond the
4096 bytes of the runner. -/
def sampleArgument : String := String.ofList (List.replicate 2049 'é')

theorem size_replicate (n : ℕ) : size (List.replicate n 'é') = 2 * n := by
  rw [size, List.map_replicate, List.sum_replicate, smul_eq_mul, mul_comm]
  rfl

theorem sampleArgument_facts :
    sampleArgument.toList.length = 2049 ∧ sampleArgument.utf8ByteSize = 4098 ∧
      noNul sampleArgument = true ∧ Json.Layout.compact.quoted sampleArgument = 4100 := by
  have hlist : sampleArgument.toList = List.replicate 2049 'é' := String.toList_ofList
  have hplain : ∀ n, (List.replicate n 'é').flatMap Json.escapeHTML = List.replicate n 'é' := by
    intro n
    induction n with
    | zero => rfl
    | succ n ih => rw [List.replicate_succ, List.flatMap_cons, ih]; rfl
  refine ⟨by rw [hlist, List.length_replicate], ?_, ?_, ?_⟩
  · rw [utf8ByteSize_eq, hlist, size_replicate]
  · rw [noNul, hlist, decide_eq_true_eq, List.mem_replicate]
    exact fun h => absurd h.2 (by decide)
  · rw [Json.Layout.quoted, Json.quote, hlist]
    change size ('"' :: ((List.replicate 2049 'é').flatMap Json.escapeHTML ++ ['"'])) = _
    rw [hplain, size_cons, size_append, size_replicate]
    rfl

theorem validate_eq_none {m : Runner.Manifest} (h : Runner.validate m ≠ some m.limits.resolve) :
    Runner.validate m = none := by
  simp only [Runner.validate] at h ⊢
  rw [if_neg fun hvalid => h (if_pos hvalid)]

/-- An admitted, compatible job whose manifest every reader of the runner hands to a refusal. -/
theorem runner_refuses_sample :
    sampleBundle.valid Packaging.defaultLimits = true ∧
      parse (sampleRead sampleArgument) (sampleSpec sampleArgument).canonical =
        some (sampleSpec sampleArgument) ∧
      runnerCompatible (sampleSpec sampleArgument) sampleBundle = true ∧
      (samplePlan sampleArgument).job.validate sampleCodec = true ∧
      resolveSources (sampleSpec sampleArgument) sampleInputs = some (sampleSpec sampleArgument) ∧
      ∃ m, build (sampleRead sampleArgument) (samplePlan sampleArgument) =
          some (m, sampleSpec sampleArgument) ∧
        ∀ loads, loads (marshalManifest m) = some m →
          Runner.load loads (marshalManifest m) = none := by
  obtain ⟨hlen, hbytes, hnul, hquoted⟩ := sampleArgument_facts
  have hone : 1 ≤ sampleArgument.toList.length := by omega
  have hmax : sampleArgument.toList.length ≤ 4096 := by omega
  have hfit : Json.Layout.compact.quoted sampleArgument ≤ 2 ^ 19 := by omega
  have hparse := parse_sampleSpec hone hmax hnul hfit
  have hcompatible := runnerCompatible_sampleSpec hnul
  have hplan := samplePlan_valid hfit
  obtain ⟨hschema, hsemantic⟩ := sampleSpec_admitted hone hmax hnul
  refine ⟨sampleBundle_valid, hparse, hcompatible, hplan, rfl, _,
    build_samplePlan hone hmax hnul hfit, fun loads hloads => ?_⟩
  have hlong : ¬ withinBytes (sampleSpec sampleArgument).execution = true := by
    simp [withinBytes, sampleSpec, hbytes]
  have hnone :
      Runner.validate (manifestOf sampleIdentity sampleInputs (sampleSpec sampleArgument)) =
      none := validate_eq_none fun h => hlong
    ((validate_manifestOf (timeoutsValid_of_admitted hschema hsemantic) hplan rfl hschema hsemantic
      rfl rfl sampleBundle_valid hcompatible).mp h)
  rw [Runner.load, hloads, Option.bind_some, hnone]
  split <;> rfl

end RunnerPlan
end ComputeRelay
