import Mathlib.Tactic
import ComputeRelay.Runner.Artifacts
import ComputeRelay.RunnerPlan.Agreement
import ComputeRelay.RunnerPlan.ResultRules

/-!
# The size of a result

The runner lists every output file in `execution-result.json`. The relay refuses a result manifest
of more than `MaxManifestBytes` before it fetches it (`internal/collection/engine.go`), and
`strictValue` (`internal/provider/runnerplan/json.go`) bounds its bytes and its values once more.
The file limits of the runner keep the number of values far below its bound; nothing keeps the bytes
below theirs.
-/

namespace ComputeRelay
namespace RunnerPlan

open Text Runner Admission Paths Fallible

/-! ### The relay's checks -/

/-- `collection.MaxManifestBytes` and `runnerplan.MaxManifestBytes` -/
def maxResultBytes : ℕ := 2 ^ 20

/-- The first statements of `walkJSON`: the budget that is left after one more value. -/
def visitValue (depth budget : ℕ) : Option ℕ :=
  if 32 < depth ∨ budget = 0 then none else some (budget - 1)

mutual

/-- `walkJSON`, without its check for a member name that stands twice. -/
def walkJSON : Json → ℕ → ℕ → Option ℕ
  | .null, depth, budget => visitValue depth budget
  | .bool _, depth, budget => visitValue depth budget
  | .int _, depth, budget => visitValue depth budget
  | .str _, depth, budget => visitValue depth budget
  | .arr items, depth, budget => (visitValue depth budget).bind (walkItems items (depth + 1))
  | .obj members, depth, budget => (visitValue depth budget).bind (walkMembers members (depth + 1))

def walkItems : List Json → ℕ → ℕ → Option ℕ
  | [], _, budget => some budget
  | j :: rest, depth, budget => (walkJSON j depth budget).bind (walkItems rest depth)

def walkMembers : List (String × Json) → ℕ → ℕ → Option ℕ
  | [], _, budget => some budget
  | (_, j) :: rest, depth, budget => (walkJSON j depth budget).bind (walkMembers rest depth)

end

/-- The text of a document as `atomic_json` writes it, up to the order of the members: they are
sorted, which does not change the size. -/
def documentText (doc : Json) : String :=
  String.ofList (Json.write Json.escapeASCII doc ++ ['\n'])

/-- What the relay asks of a result manifest's size: the check of the catalog entry, and those of
`strictValue`. -/
def collectable (doc : Json) : Bool :=
  (documentText doc).utf8ByteSize ≤ maxResultBytes &&
    ((documentText doc).utf8ByteSize ≤ maxResultBytes && (walkJSON doc 0 100000).isSome)

/-- What is left of a budget, if it is enough. -/
def spend (cost budget : ℕ) : Option ℕ := if cost ≤ budget then some (budget - cost) else none

theorem spend_bind_spend (m n budget : ℕ) :
    (spend m budget).bind (spend n) = spend (m + n) budget := by
  unfold spend
  by_cases hm : m ≤ budget
  · rw [if_pos hm, Option.bind_some, Nat.sub_sub]
    exact if_congr (by omega) rfl rfl
  · rw [if_neg hm, if_neg (by omega), Option.bind_none]

theorem visitValue_eq {depth : ℕ} (h : depth ≤ 32) (budget : ℕ) :
    visitValue depth budget = spend 1 budget := by
  unfold visitValue spend
  split_ifs <;> first | rfl | omega

mutual

/-- A document of small depth spends one unit for each of its values. -/
theorem walkJSON_eq : ∀ (j : Json) (depth budget : ℕ), depth + j.depth ≤ 32 →
    walkJSON j depth budget = spend j.values budget
  | .null, _, _, h => visitValue_eq h _
  | .bool _, _, _, h => visitValue_eq h _
  | .int _, _, _, h => visitValue_eq h _
  | .str _, _, _, h => visitValue_eq h _
  | .arr items, depth, budget, h => by
    rw [Json.depth] at h
    rw [walkJSON, visitValue_eq (by omega), Json.values, ← spend_bind_spend]
    exact congrArg _ (funext fun b => walkItems_eq items depth b h)
  | .obj members, depth, budget, h => by
    rw [Json.depth] at h
    rw [walkJSON, visitValue_eq (by omega), Json.values, ← spend_bind_spend]
    exact congrArg _ (funext fun b => walkMembers_eq members depth b h)

theorem walkItems_eq : ∀ (items : List Json) (depth budget : ℕ),
    depth + Json.depthItems items ≤ 32 →
    walkItems items (depth + 1) budget = spend (Json.valuesItems items) budget
  | [], _, _, _ => by
    simp [walkItems, Json.valuesItems, spend]
  | j :: rest, depth, budget, h => by
    rw [Json.depthItems] at h
    rw [walkItems, walkJSON_eq j (depth + 1) budget (by omega), Json.valuesItems,
      ← spend_bind_spend]
    exact congrArg _ (funext fun b => walkItems_eq rest depth b (by omega))

theorem walkMembers_eq : ∀ (members : List (String × Json)) (depth budget : ℕ),
    depth + Json.depthMembers members ≤ 32 →
    walkMembers members (depth + 1) budget = spend (Json.valuesMembers members) budget
  | [], _, _, _ => by
    simp [walkMembers, Json.valuesMembers, spend]
  | (_, j) :: rest, depth, budget, h => by
    rw [Json.depthMembers] at h
    rw [walkMembers, walkJSON_eq j (depth + 1) budget (by omega), Json.valuesMembers,
      ← spend_bind_spend]
    exact congrArg _ (funext fun b => walkMembers_eq rest depth b (by omega))

end

/-- The checks of a document of small depth are two bounds. -/
theorem collectable_iff {doc : Json} (h : doc.depth ≤ 32) :
    collectable doc = true ↔
      Json.size Json.escapeASCII doc + 1 ≤ maxResultBytes ∧ doc.values ≤ 100000 := by
  have hsize : (documentText doc).utf8ByteSize = Json.size Json.escapeASCII doc + 1 := by
    rw [documentText, Text.utf8ByteSize_ofList, Text.size_append]
    rfl
  have hwalk : (walkJSON doc 0 100000).isSome = true ↔ doc.values ≤ 100000 := by
    rw [walkJSON_eq doc 0 100000 (by omega), spend]
    split_ifs with hv
    · exact iff_of_true rfl hv
    · exact iff_of_false (by simp) hv
  simp only [collectable, hsize, Bool.and_eq_true, decide_eq_true_eq, hwalk, ← and_assoc, and_self]

/-! ### The document of a result -/

theorem depth_artifact (a : Artifact) : a.toJson.depth = 1 := rfl

theorem depth_error (e : Option WireError) : (errorJson e).depth ≤ 2 := by
  rcases e with - | ⟨f, - | p⟩
  · exact Nat.zero_le _
  · exact Nat.le_succ 1
  · exact le_rfl

theorem depth_result (r : Result) : r.toJson.depth ≤ 32 := by
  have hfiles : Json.depthItems (r.artifacts.map Artifact.toJson) ≤ 2 := by
    refine Json.depthItems_le fun j hj => ?_
    obtain ⟨a, -, rfl⟩ := List.mem_map.mp hj
    exact (depth_artifact a).le
  have herror := depth_error r.error
  have hcheck : r.resourceCheck.toJson.depth = 1 := by
    obtain ⟨_, _, - | _⟩ := r.resourceCheck <;> rfl
  have hexit : (exitCodeJson r.exitCode).depth = 0 := by
    cases r.exitCode <;> rfl
  simp only [Result.toJson, Result.members, Json.depth, Json.depthMembers, hcheck, hexit]
  generalize Json.depthItems (r.artifacts.map Artifact.toJson) = m at *
  generalize (errorJson r.error).depth = n at *
  omega

theorem values_result (r : Result) : r.toJson.values ≤ 4 * r.artifacts.length + 29 := by
  have hfiles : Json.valuesItems (r.artifacts.map Artifact.toJson) = 4 * r.artifacts.length := by
    induction r.artifacts with
    | nil => rfl
    | cons a rest ih =>
      rw [List.map_cons, Json.valuesItems, ih, List.length_cons, show a.toJson.values = 4 from rfl]
      omega
  have herror : (errorJson r.error).values ≤ 6 := by
    rcases r.error with - | ⟨f, - | p⟩ <;> exact Nat.le_of_ble_eq_true rfl
  have hcheck : r.resourceCheck.toJson.values ≤ 6 := by
    obtain ⟨_, _, - | _⟩ := r.resourceCheck <;> exact Nat.le_of_ble_eq_true rfl
  have hexit : (exitCodeJson r.exitCode).values = 1 := by
    cases r.exitCode <;> rfl
  simp only [Result.toJson, Result.members, Json.values, Json.valuesMembers, hexit, hfiles]
  generalize (errorJson r.error).values = m at *
  generalize r.resourceCheck.toJson.values = n at *
  clear hfiles
  omega

/-! ### The bytes of a result -/

/-- How an attempt ended. -/
structure Ending where
  phase : ResultPhase
  exitCode : Option ℤ
  timedOut : Bool
  resourceCheck : ResourceCheck
  error : Option WireError

def ending (r : Result) : Ending :=
  ⟨r.phase, r.exitCode, r.timedOut, r.resourceCheck, r.error⟩

/-- The bytes of a text in the document. -/
def writtenBytes (s : String) : ℕ := Text.size (Json.quote Json.escapeASCII s)

def numberBytes (n : ℤ) : ℕ := (toString n).utf8ByteSize

def flagBytes (b : Bool) : ℕ := if b then 4 else 5

def exitCodeBytes (code : Option ℤ) : ℕ := code.elim 4 numberBytes

section Bytes

variable (redact : String → String)

def textBytes (s : String) : ℕ := writtenBytes (redact s)

/-- The bytes of an object, from its member names and the bytes of its values. Names that the
redactor makes one are written once, with the value of the last. -/
def objectBytes (members : List (String × ℕ)) : ℕ :=
  Json.objectSize Json.escapeASCII (members.map fun m => (redact m.1, m.2))

/-- The bytes of one listed file. -/
def fileBytes (f : Artifact) : ℕ :=
  objectBytes redact [("path", textBytes redact f.path), ("bytes", numberBytes f.bytes),
    ("sha256", textBytes redact f.sha256)]

def checkBytes (c : ResourceCheck) : ℕ :=
  objectBytes redact
    ([("gpu_required", flagBytes c.gpuRequired), ("gpu_verified", flagBytes c.gpuVerified)] ++
      (c.device.map fun d => ("device_name", textBytes redact d.deviceName)).toList ++
      (c.device.map fun d => ("cuda_version", textBytes redact d.cudaVersion)).toList ++
      (c.device.map fun d => ("framework", textBytes redact d.framework)).toList)

def errorBytes : Option WireError → ℕ
  | none => 4
  | some e => objectBytes redact
    ([("code", textBytes redact e.failure.code.word),
        ("stage", textBytes redact e.failure.stage.word),
        ("message", textBytes redact e.failure.message)] ++
      (e.runnerPhase.map fun p =>
        ("details", objectBytes redact [("runner_phase", textBytes redact p.word)])).toList)

/-- The bytes of a result and its line feed: of the identity in the manifest, the two times, the way
the attempt ended and the listed files. -/
def resultBytes (m : Manifest) (startedAt finishedAt : String) (e : Ending)
    (files : List Artifact) : ℕ :=
  objectBytes redact
    [("manifest_version", textBytes redact "1"), ("runner_version", textBytes redact runnerVersion),
      ("job_id", textBytes redact m.jobID), ("attempt_id", textBytes redact m.attemptID),
      ("attempt_nonce", textBytes redact m.attemptNonce),
      ("input_manifest_sha256", textBytes redact m.inputManifestSHA256),
      ("bundle_sha256", textBytes redact m.bundle.sha256),
      ("started_at", textBytes redact startedAt), ("finished_at", textBytes redact finishedAt),
      ("phase", textBytes redact e.phase.word), ("exit_code", exitCodeBytes e.exitCode),
      ("timed_out", flagBytes e.timedOut), ("resource_check", checkBytes redact e.resourceCheck),
      ("artifacts", Json.arraySize (files.map (fileBytes redact))),
      ("error", errorBytes redact e.error)] + 1

end Bytes

/-- Two secrets that are the words of member names: the entry of an empty file has two members. -/
example : fileBytes (fun s => if s = "bytes" ∨ s = "path" then "[REDACTED]" else s)
    ⟨"x", 0, "e3b0c44298fc1c149afbf4c8996fb92427ae41e4649b934ca495991b7852b855"⟩ = 92 := by
  decide

section Sizes

variable (redact : String → String)

theorem size_text (s : String) :
    Json.size Json.escapeASCII (Json.mapText redact (.str s)) = textBytes redact s := by
  rw [Json.mapText, Json.size, Json.write]
  rfl

theorem size_flag (b : Bool) :
    Json.size Json.escapeASCII (Json.mapText redact (.bool b)) = flagBytes b := by
  cases b <;> rfl

theorem size_number (n : ℤ) :
    Json.size Json.escapeASCII (Json.mapText redact (.int n)) = numberBytes n := by
  rw [Json.mapText, Json.size, Json.write, ← Text.utf8ByteSize_eq]
  rfl

theorem size_artifact (f : Artifact) :
    Json.size Json.escapeASCII (f.toJson.mapText redact) = fileBytes redact f := by
  simp only [Artifact.toJson, Json.size_mapText_obj, List.map_cons, List.map_nil, size_text,
    size_number, fileBytes, objectBytes]

theorem size_exitCode (code : Option ℤ) :
    Json.size Json.escapeASCII ((exitCodeJson code).mapText redact) = exitCodeBytes code := by
  cases code with
  | none => rfl
  | some n => exact size_number redact n

theorem size_check (c : ResourceCheck) :
    Json.size Json.escapeASCII (c.toJson.mapText redact) = checkBytes redact c := by
  rw [ResourceCheck.toJson, Json.size_mapText_obj, checkBytes, objectBytes]
  cases c.device <;>
    simp only [Option.map_none, Option.map_some, Option.toList_none, Option.toList_some,
      List.append_nil, List.cons_append, List.nil_append, List.map_cons, List.map_nil, size_flag,
      size_text]

theorem size_error (e : Option WireError) :
    Json.size Json.escapeASCII ((errorJson e).mapText redact) = errorBytes redact e := by
  cases e with
  | none => rfl
  | some e =>
    rw [errorJson, WireError.toJson, Json.size_mapText_obj, errorBytes, objectBytes]
    cases e.runnerPhase <;>
      simp only [Option.map_none, Option.map_some, Option.toList_none, Option.toList_some,
        List.append_nil, List.cons_append, List.nil_append, List.map_cons, List.map_nil, size_text,
        Json.size_mapText_obj, objectBytes]

end Sizes

/-- A result carries the identity of the manifest and the two times of the attempt. -/
structure Carries (a : Attempt) (r : Result) : Prop where
  jobID : r.jobID = a.manifest.jobID
  attemptID : r.attemptID = a.manifest.attemptID
  attemptNonce : r.attemptNonce = a.manifest.attemptNonce
  inputManifestSHA256 : r.inputManifestSHA256 = a.manifest.inputManifestSHA256
  bundleSHA256 : r.bundleSHA256 = a.manifest.bundle.sha256
  startedAt : r.startedAt = a.startedAt

theorem carries_afterBody {a : Attempt} {r : Result} (h : a.afterBody = some r) : Carries a r := by
  unfold Attempt.afterBody at h
  split at h
  · cases h
    exact ⟨rfl, rfl, rfl, rfl, rfl, rfl⟩
  · cases h
    unfold Attempt.handleFailure
    split <;> exact ⟨rfl, rfl, rfl, rfl, rfl, rfl⟩
  · cases h
    exact ⟨rfl, rfl, rfl, rfl, rfl, rfl⟩
  · cases h

theorem Carries.unlessFailed {a : Attempt} {r : Result} {change : Result → Result}
    (h : Carries a r) (hchange : Carries a (change r)) : Carries a (r.unlessFailed change) := by
  unfold Result.unlessFailed
  split
  · exact hchange
  · exact h

theorem carries_removeSecrets {a : Attempt} {r s : Result} (h : Carries a r)
    (hs : a.removeSecrets r = some s) : Carries a s := by
  unfold Attempt.removeSecrets at hs
  split at hs <;> cases hs
  · exact h
  · exact h.unlessFailed ⟨h.1, h.2, h.3, h.4, h.5, h.6⟩

theorem carries_collect {a : Attempt} {r s : Result} (h : Carries a r)
    (hs : a.collect r = some s) : Carries a s := by
  unfold Attempt.collect at hs
  split at hs <;> cases hs
  · exact ⟨h.1, h.2, h.3, h.4, h.5, h.6⟩
  · refine h.unlessFailed ?_
    split <;> exact ⟨h.1, h.2, h.3, h.4, h.5, h.6⟩
  · exact h.unlessFailed ⟨h.1, h.2, h.3, h.4, h.5, h.6⟩

theorem carries_result {a : Attempt} {r : Result} (h : a.result = some r) :
    Carries a r ∧ r.finishedAt = a.finishedAt := by
  simp only [Attempt.result, bind, Option.bind_eq_some_iff, Option.some.injEq] at h
  obtain ⟨r1, hbody, r2, hremove, r3, hcollect, rfl⟩ := h
  have hc := carries_collect (carries_removeSecrets (carries_afterBody hbody) hremove) hcollect
  exact ⟨⟨hc.1, hc.2, hc.3, hc.4, hc.5, hc.6⟩, rfl⟩

/-- The size of the document of an attempt, from what went into it. -/
theorem size_result {a : Attempt} {r : Result} (h : a.result = some r) (redact : String → String) :
    Json.size Json.escapeASCII (r.toJson.mapText redact) + 1 =
      resultBytes redact a.manifest a.startedAt a.finishedAt (ending r) r.artifacts := by
  obtain ⟨hc, hfinished⟩ := carries_result h
  simp only [Result.toJson, Result.members, Json.size_mapText_obj, Json.size_mapText_arr,
    List.map_cons, List.map_nil, List.map_map, size_text, size_flag, size_exitCode, size_check,
    size_error, Function.comp_def, size_artifact, resultBytes, objectBytes, hc.jobID, hc.attemptID,
    hc.attemptNonce, hc.inputManifestSHA256, hc.bundleSHA256, hc.startedAt, hfinished, ending]

theorem writtenBytes_of_pathChar {s : String} (h : ∀ c ∈ s.toList, pathChar c = true) :
    writtenBytes s = s.utf8ByteSize + 2 := by
  have hescape : ∀ c, pathChar c = true → Json.escapeASCII c = [c] := by
    intro c hc
    have hshort : Json.shortEscape c = none := by
      unfold Json.shortEscape
      split <;> first | rfl | exact absurd hc (by decide)
    have hrange : 32 ≤ c.toNat ∧ c.toNat < 127 := by
      simp only [pathChar, Bool.and_eq_true, decide_eq_true_eq] at hc
      omega
    rw [Json.escapeASCII, hshort]
    simp [hrange]
  have hflat : ∀ cs : List Char, (∀ c ∈ cs, pathChar c = true) →
      cs.flatMap Json.escapeASCII = cs := by
    intro cs hcs
    induction cs with
    | nil => rfl
    | cons c cs ih =>
      rw [List.flatMap_cons, hescape c (hcs c (List.mem_cons_self ..)),
        ih fun d hd => hcs d (List.mem_cons_of_mem _ hd)]
      rfl
  rw [writtenBytes, Json.quote, hflat _ h, Text.size_cons, Text.size_append, Text.utf8ByteSize_eq]
  change 1 + (Text.size s.toList + 1) = _
  omega

/-! ### Without secrets -/

/-- Member names that stay as they are are all written. -/
theorem objectBytes_id {members : List (String × ℕ)} (h : (members.map (·.1)).Nodup) :
    objectBytes id members = 2 +
      (members.map fun m => writtenBytes m.1 + 1 + m.2).sum + (members.length - 1) := by
  have hmap : (members.map fun m => (id m.1, m.2)) = members := List.map_id _
  rw [objectBytes, hmap, Json.objectSize_of_nodup _ h]
  rfl

theorem writtenBytes_digest {s : String} (h : digestPattern s = true) : writtenBytes s = 66 := by
  simp only [digestPattern, Bool.and_eq_true, decide_eq_true_eq, List.all_eq_true] at h
  have hpath : ∀ b : UInt8, (digit b || (97 ≤ b && b ≤ 102)) = true →
      Packaging.pathByte b = true := by
    intro b hb
    simp only [digit, Packaging.pathByte, Bool.or_eq_true, Bool.and_eq_true,
      decide_eq_true_eq, ne_eq,
      UInt8.le_iff_toNat_le, UInt8.lt_iff_toNat_lt, ← UInt8.toNat_inj, UInt8.reduceToNat] at hb ⊢
    omega
  have hchars : ∀ c ∈ s.toList, pathChar c = true := by
    intro c hc
    refine pathChar_of_ascii ?_
    have hhex := h.2 c hc
    rw [ascii, Bool.and_eq_true] at hhex ⊢
    exact ⟨hhex.1, hpath _ hhex.2⟩
  rw [writtenBytes_of_pathChar hchars,
    Text.utf8ByteSize_of_ascii fun c hc => pathChar_ascii (hchars c hc), h.1]

/-- An entry of a listed file takes 96 bytes beside the digits of its size and its path. -/
theorem fileBytes_id {f : Artifact} (h : f.Listed) :
    fileBytes id f = 96 + numberBytes f.bytes + f.path.utf8ByteSize := by
  have hkeys : writtenBytes "path" = 6 ∧ writtenBytes "bytes" = 7 ∧ writtenBytes "sha256" = 8 := by
    decide
  obtain ⟨hpath, hbytes, hsha⟩ := hkeys
  have hrelative := h.1
  simp only [relative, Bool.and_false, Bool.false_or, Bool.and_eq_true,
    List.all_eq_true] at hrelative
  have htext : writtenBytes f.path = f.path.utf8ByteSize + 2 :=
    writtenBytes_of_pathChar hrelative.2.1.1
  rw [fileBytes, objectBytes_id (by simp)]
  simp only [List.map_cons, List.map_nil, List.sum_cons, List.sum_nil, List.length_cons,
    List.length_nil, textBytes, id_eq, hpath, hbytes, hsha, htext, writtenBytes_digest h.2]
  omega

/-- The bytes of a result beside its files: keys and punctuation, the identity in the manifest, the
two times and the way the attempt ended. -/
def otherBytes (m : Manifest) (startedAt finishedAt : String) (e : Ending) : ℕ :=
  239 + writtenBytes m.jobID + writtenBytes m.attemptID + writtenBytes m.attemptNonce +
    writtenBytes m.inputManifestSHA256 + writtenBytes m.bundle.sha256 + writtenBytes startedAt +
    writtenBytes finishedAt + writtenBytes e.phase.word + exitCodeBytes e.exitCode +
    flagBytes e.timedOut + checkBytes id e.resourceCheck + errorBytes id e.error

theorem resultBytes_id (m : Manifest) (startedAt finishedAt : String) (e : Ending)
    {files : List Artifact} (h : ∀ f ∈ files, f.Listed) :
    resultBytes id m startedAt finishedAt e files = otherBytes m startedAt finishedAt e +
      (files.map fun f => 96 + numberBytes f.bytes + f.path.utf8ByteSize).sum +
      (files.length - 1) := by
  have hfiles : files.map (fileBytes id) =
      files.map fun f => 96 + numberBytes f.bytes + f.path.utf8ByteSize :=
    List.map_congr_left fun f hf => fileBytes_id (h f hf)
  have hkeys : (["manifest_version", "runner_version", "job_id", "attempt_id", "attempt_nonce",
      "input_manifest_sha256", "bundle_sha256", "started_at", "finished_at", "phase", "exit_code",
      "timed_out", "resource_check", "artifacts", "error", "1", runnerVersion].map writtenBytes) =
      [18, 16, 8, 12, 15, 23, 15, 12, 13, 7, 11, 11, 16, 11, 7, 3, 7] := by decide
  simp only [List.map_cons, List.map_nil, List.cons.injEq, and_true] at hkeys
  rw [resultBytes, objectBytes_id (by simp)]
  simp only [List.map_cons, List.map_nil, List.sum_cons, List.sum_nil, List.length_cons,
    List.length_nil, textBytes, id_eq, hkeys, Json.arraySize, hfiles, List.length_map, otherBytes]
  omega

/-! ### Working directories -/

/-- The SHA-256 of an empty file. -/
def emptyDigest : Digest :=
  ⟨"e3b0c44298fc1c149afbf4c8996fb92427ae41e4649b934ca495991b7852b855", by decide⟩

def noSecrets : Redactor := ⟨fun _ => false, fun _ => false⟩

def outDirectory : Output := { path := "out", kind := some .directory, required := true }

/-- A directory of empty files under the given names. -/
def flatNode (names : List String) : Node :=
  .directory [("out", .directory (names.map fun n => (n, .file 0 emptyDigest 1)))]

def flatPath (name : String) : String := "out" ++ "/" ++ name

def flatFile (path : String) : Artifact := ⟨path, 0, emptyDigest.1⟩

theorem scan_flat {names : List String} (hlen : names.length ≤ 10000)
    (hrel : ∀ n ∈ names, relative (flatPath n) false = true) :
    scan defaultLimits ⟨0, [("out", names.map fun n => (n, .file 0 emptyDigest 1))], []⟩ =
      .ok ⟨names.length, [], names.map flatPath⟩ := by
  have hloop : ∀ (names : List String) (w : Walk), w.visited + names.length ≤ 20000 →
      (∀ n ∈ names, relative (flatPath n) false = true) →
      (names.map fun n => (n, Node.file 0 emptyDigest 1)).foldlM
        (visitChild defaultLimits "out") w =
        .ok ⟨w.visited + names.length, w.pending, w.names ++ names.map flatPath⟩ := by
    intro names
    induction names with
    | nil => intro w _ _; simp [pure, Except.pure]
    | cons n rest ih =>
      intro w hw hr
      have hn : relative ("out" ++ "/" ++ n) false = true := hr n (List.mem_cons_self ..)
      have hstep : visitChild defaultLimits "out" w (n, Node.file 0 emptyDigest 1) =
          .ok ⟨w.visited + 1, w.pending, w.names ++ [flatPath n]⟩ := by
        rw [List.length_cons] at hw
        unfold visitChild
        rw [if_neg (by simp only [defaultLimits]; push_cast; omega), hn]
        rfl
      rw [List.map_cons, List.foldlM_cons, hstep]
      refine (ih _ (by simp only [List.length_cons] at hw ⊢; omega)
        fun m hm => hr m (List.mem_cons_of_mem _ hm)).trans ?_
      simp only [List.length_cons, List.append_assoc, List.singleton_append, List.map_cons]
      congr 2
      omega
  rw [scan]
  simp only
  have hread := hloop names ⟨0, [], []⟩ (by simp only; omega) hrel
  split
  · next e he => rw [hread] at he; cases he
  · next v hv =>
    rw [hread] at hv
    cases hv
    rw [scan]
    simp

theorem lookup_flat {names : List String} {name : String} (h : name ∈ names) :
    (names.map fun n => (n, Node.file 0 emptyDigest 1)).lookup name =
      some (.file 0 emptyDigest 1) := by
  induction names with
  | nil => cases h
  | cons n rest ih =>
    rw [List.map_cons, List.lookup_cons]
    cases hn : name == n with
    | true => rfl
    | false =>
      have hne : name ≠ n := by simpa using hn
      exact ih ((List.mem_cons.mp h).resolve_left hne)

theorem components_flatPath {name : String} (h : '/' ∉ name.toList) :
    components (flatPath name) = ["out".toList, name.toList] := by
  have hout : '/' ∉ "out".toList := by decide
  have hpath : (flatPath name).toList = "out".toList ++ '/' :: name.toList := by
    simp [flatPath]
  rw [components, hpath, List.splitOn_append_cons_self, List.splitOn_eq_singleton hout,
    List.splitOn_eq_singleton h]
  rfl

theorem openFile_flat {names : List String} {name : String} (h : name ∈ names)
    (hslash : '/' ∉ name.toList) (hrel : relative (flatPath name) false = true) :
    openFile (flatNode names) (flatPath name) = .ok (0, emptyDigest) := by
  have hfind : find (flatNode names) (components (flatPath name)) =
      some (.file 0 emptyDigest 1) := by
    rw [components_flatPath hslash]
    simp only [find, flatNode, String.ofList_toList, List.lookup_cons, beq_self_eq_true,
      Option.bind_some, lookup_flat h]
  rw [openFile, hrel, hfind]
  rfl

theorem collectFile_flat {names : List String} {name : String} {t : Tally} (h : name ∈ names)
    (hslash : '/' ∉ name.toList) (hrel : relative (flatPath name) false = true)
    (ht : t.result.length < 10000 ∧ t.total = 0 ∧ t.own = 0) :
    collectFile (flatNode names) defaultLimits noSecrets outDirectory t (flatPath name) =
      .ok ⟨t.result ++ [flatFile (flatPath name)], 0, 0⟩ := by
  have hroom : ¬ defaultLimits.artifactFiles ≤ (t.result.length : ℤ) := by
    simp only [defaultLimits]
    omega
  rw [collectFile, if_neg hroom, openFile_flat h hslash hrel, ht.2.1, ht.2.2]
  rfl

theorem collectFiles_flat {names paths : List String} (done : List Artifact)
    (hpaths : ∀ p ∈ paths, ∃ n ∈ names, p = flatPath n)
    (hrel : ∀ n ∈ names, relative (flatPath n) false = true)
    (hslash : ∀ n ∈ names, '/' ∉ n.toList)
    (hlen : done.length + paths.length ≤ 10000) :
    paths.foldlM (collectFile (flatNode names) defaultLimits noSecrets outDirectory) ⟨done, 0, 0⟩ =
      .ok ⟨done ++ paths.map flatFile, 0, 0⟩ := by
  induction paths generalizing done with
  | nil => rw [List.map_nil, List.append_nil]; rfl
  | cons p rest ih =>
    obtain ⟨n, hn, rfl⟩ := hpaths p (List.mem_cons_self ..)
    rw [List.length_cons] at hlen
    rw [List.foldlM_cons, collectFile_flat hn (hslash n hn)
      (hrel n hn) ⟨by change done.length < 10000; omega, rfl, rfl⟩]
    refine (ih _ (fun p hp => hpaths p (List.mem_cons_of_mem _ hp))
      (by simp only [List.length_append, List.length_singleton]; omega)).trans ?_
    rw [List.append_assoc]
    rfl

/-- A flat directory of empty files is accepted, and every file is listed. -/
theorem artifacts_flat {names : List String} (hlen : names.length ≤ 10000)
    (hrel : ∀ n ∈ names, relative (flatPath n) false = true)
    (hslash : ∀ n ∈ names, '/' ∉ n.toList)
    (hapart : (names.map flatPath).Pairwise fun p q =>
      PathSet.Apart (components p) (components q)) :
    ∃ files, artifacts (flatNode names) [outDirectory] defaultLimits noSecrets = .ok files ∧
      files.Perm ((names.map flatPath).map flatFile) := by
  have hsorted : (sortedNames (names.map flatPath)).Perm (names.map flatPath) :=
    List.mergeSort_perm ..
  have hlocate : locate (flatNode names) (components outDirectory.path) =
      .ok (some (.directory (names.map fun n => (n, .file 0 emptyDigest 1)))) := by
    rw [show components outDirectory.path = ["out".toList] by decide]
    simp [locate, flatNode]
  have hnames : outputNames defaultLimits outDirectory
      (.directory (names.map fun n => (n, .file 0 emptyDigest 1))) 0 =
      .ok (names.length, names.map flatPath) := by
    rw [outputNames, if_neg (by rw [not_not]; rfl)]
    simp only [outDirectory, scan_flat hlen hrel]
    rfl
  have hpaths : ∀ p ∈ sortedNames (names.map flatPath), ∃ n ∈ names, p = flatPath n := by
    intro p hp
    obtain ⟨n, hn, rfl⟩ := List.mem_map.mp (hsorted.mem_iff.mp hp)
    exact ⟨n, hn, rfl⟩
  have hfiles :=
    collectFiles_flat [] hpaths hrel hslash (by rw [hsorted.length_eq]; simpa using hlen)
  rw [List.nil_append] at hfiles
  have houtput : collectOutput (flatNode names) defaultLimits noSecrets (0, {}) outDirectory =
      .ok (names.length, ⟨(sortedNames (names.map flatPath)).map flatFile, 0, 0⟩) := by
    simp only [collectOutput, hlocate, hnames, bind, Except.bind]
    rw [hfiles]
  have hdisjoint : disjoint (((sortedNames (names.map flatPath)).map flatFile).map (·.path)) =
      true := by
    have hmap : ((sortedNames (names.map flatPath)).map flatFile).map (·.path) =
        sortedNames (names.map flatPath) := by
      rw [List.map_map]
      exact List.map_id _
    rw [hmap, Runner.disjoint, Bool.and_eq_true, List.all_eq_true]
    constructor
    · intro p hp
      obtain ⟨n, hn, rfl⟩ := List.mem_map.mp (hsorted.mem_iff.mp hp)
      exact hrel n hn
    · rw [PathSet.disjoint_iff fun p hp => by
        obtain ⟨q, -, rfl⟩ := List.mem_map.mp hp
        exact List.splitOn_ne_nil _ _]
      rw [List.pairwise_map]
      exact (hsorted.pairwise_iff fun {p q} h => PathSet.Apart.symm h).mpr hapart
  refine ⟨((sortedNames (names.map flatPath)).map flatFile).mergeSort
    fun a b => decide (a.path ≤ b.path), ?_, ?_⟩
  · rw [artifacts, if_neg (by simp [flatNode, Node.isDirectory]), List.foldlM_cons, houtput]
    change (if !disjoint _ then _ else _) = _
    rw [hdisjoint]
    rfl
  · exact (List.mergeSort_perm ..).trans (hsorted.map _)

/-- The names `x0000`, `x0001`, … -/
def numbered (k : ℕ) : String := String.ofList ('x' :: Rfc3339.writeNum 4 k)

theorem toList_numbered (k : ℕ) : ∃ a b c d : Char, a.isDigit = true ∧ b.isDigit = true ∧
    c.isDigit = true ∧ d.isDigit = true ∧ Rfc3339.writeNum 4 k = [a, b, c, d] ∧
      (numbered k).toList = ['x', a, b, c, d] := by
  have hdigit : ∀ n : ℕ, (Nat.digitChar (n % 10)).isDigit = true := by
    intro n
    have : n % 10 < 10 := Nat.mod_lt _ (by norm_num)
    interval_cases n % 10 <;> rfl
  exact ⟨_, _, _, _, hdigit _, hdigit _, hdigit _, hdigit _, rfl, String.toList_ofList⟩

theorem not_mem_numbered (k : ℕ) : '/' ∉ (numbered k).toList := by
  obtain ⟨a, b, c, d, ha, hb, hc, hd, -, hlist⟩ := toList_numbered k
  have hne : ∀ x : Char, x.isDigit = true → '/' ≠ x := by
    rintro x hx rfl
    cases hx
  rw [hlist]
  simp [hne a ha, hne b hb, hne c hc, hne d hd]

theorem toList_flatPath (k : ℕ) :
    (flatPath (numbered k)).toList = ['o', 'u', 't', '/'] ++ (numbered k).toList := by
  simp [flatPath]

theorem pathChar_numbered (k : ℕ) : ∀ x ∈ (flatPath (numbered k)).toList, pathChar x = true := by
  obtain ⟨a, b, c, d, ha, hb, hc, hd, -, hlist⟩ := toList_numbered k
  rw [toList_flatPath, hlist]
  simp only [List.cons_append, List.nil_append, List.mem_cons, List.not_mem_nil, or_false,
    forall_eq_or_imp, forall_eq, pathChar_of_isDigit ha, pathChar_of_isDigit hb,
    pathChar_of_isDigit hc, pathChar_of_isDigit hd]
  decide

theorem utf8ByteSize_numbered (k : ℕ) : (flatPath (numbered k)).utf8ByteSize = 9 := by
  obtain ⟨a, b, c, d, ha, hb, hc, hd, -, hlist⟩ := toList_numbered k
  rw [Text.utf8ByteSize_of_ascii fun x hx => pathChar_ascii (pathChar_numbered k x hx),
    toList_flatPath, hlist]
  rfl

theorem relative_numbered (k : ℕ) : relative (flatPath (numbered k)) false = true := by
  obtain ⟨a, b, c, d, ha, hb, hc, hd, -, hlist⟩ := toList_numbered k
  have hsize := utf8ByteSize_numbered k
  have hcomponents := components_flatPath (not_mem_numbered k)
  rw [hlist] at hcomponents
  have hne : ∀ x : Char, x.isDigit = true → x ≠ '.' ∧ x ≠ ' ' := by
    intro x hx
    constructor <;> rintro rfl <;> cases hx
  have htrim : trimBlanks ['x', a, b, c, d] = ['x', a, b, c, d] :=
    List.rdropWhile_eq_self_iff.mpr fun _ => by simp [hne d hd]
  have hdevice : deviceName ['x', a, b, c, d] = false := by
    simp [deviceName, uppercase, hne a ha, hne b hb, hne c hc, hne d hd, numberedDevice]
  refine relative_of_pathChar (by omega) (by omega)
    (pathChar_numbered k) (by rw [hcomponents]; simp) ?_ ?_
  · rw [hcomponents]
    simp only [List.mem_cons, List.not_mem_nil, or_false, forall_eq_or_imp, forall_eq]
    exact ⟨by decide, by simp [portable, htrim, hdevice]⟩
  · rw [hcomponents]
    simp [lowercase, Runner.protectedNames]

theorem writeNum_injective {j k : ℕ} (hj : j < 10000) (hk : k < 10000)
    (h : Rfc3339.writeNum 4 j = Rfc3339.writeNum 4 k) : j = k := by
  have hread := Rfc3339.readNum_writeNum_of_lt (w := 4) hj []
  rw [h, Rfc3339.readNum_writeNum_of_lt (w := 4) hk []] at hread
  exact (congrArg Prod.fst (Option.some.inj hread)).symm

theorem toLower_of_isDigit {c : Char} (h : c.isDigit = true) : c.toLower = c := by
  have hrange : 48 ≤ c.toNat ∧ c.toNat ≤ 57 := by
    simpa [Char.isDigit, UInt32.le_iff_toNat_le] using h
  have hupper : ¬ (c.val ≥ 'A'.val ∧ c.val ≤ 'Z'.val) := by
    rintro ⟨hge, -⟩
    have : 65 ≤ c.toNat := by simpa [UInt32.le_iff_toNat_le] using hge
    omega
  exact dif_neg hupper

theorem apart_numbered {j k : ℕ} (hj : j < 10000) (hk : k < 10000) (hne : j ≠ k) :
    PathSet.Apart (components (flatPath (numbered j))) (components (flatPath (numbered k))) := by
  have hlower : ∀ k, lowercase (numbered k).toList = (numbered k).toList := by
    intro k
    obtain ⟨a, b, c, d, ha, hb, hc, hd, -, hlist⟩ := toList_numbered k
    rw [hlist]
    simp only [lowercase, List.map_cons, List.map_nil, toLower_of_isDigit ha, toLower_of_isDigit hb,
      toLower_of_isDigit hc, toLower_of_isDigit hd]
    rfl
  rw [components_flatPath (not_mem_numbered j), components_flatPath (not_mem_numbered k)]
  intro n h0 hnj hnk hkey
  have hcases : n = 1 ∨ n = 2 := by
    simp only [List.length_cons, List.length_nil] at hnj
    omega
  rcases hcases with rfl | rfl
  · exact ⟨by simp only [List.take_succ_cons, List.take_zero], by simp, by simp⟩
  · simp only [PathSet.key, List.take_succ_cons, List.take_zero, List.map_cons,
      List.map_nil, hlower, List.cons.injEq, and_true, true_and] at hkey
    rw [numbered, numbered, String.toList_ofList, String.toList_ofList, List.cons.injEq] at hkey
    exact absurd (writeNum_injective hj hk hkey.2) hne

/-- A completed attempt that collected the given files from the given outputs. -/
def collectingAttempt (outputs : List Output) (files : List Artifact) : Attempt :=
  { sampleAttempt false 9 with
    manifest := { sampleManifest with outputs := outputs }
    collection := .collected files }

/-! ### The checks of the document that the runner writes -/

theorem result_artifacts {a : Attempt} {r : Result} {files : List Artifact}
    (hcollected : a.collection = .collected files) (hresult : a.result = some r) :
    r.artifacts = files := by
  simp only [Attempt.result, bind, Option.bind_eq_some_iff, Option.some.injEq, Attempt.collect,
    hcollected] at hresult
  obtain ⟨r1, -, r2, -, r3, rfl, rfl⟩ := hresult
  rfl

/-- The document lists the files that the runner accepted under its default limits. The relay takes
it exactly when the bytes of the identity, the times, the way the attempt ended and the listed
files, as the redactor leaves their texts, are within the bound; where no secret is met, an entry
has 96 bytes beside the digits of the file's size and its path. -/
theorem result_collectable_iff {a : Attempt} {root : Node} {redactor : Redactor} {r : Result}
    {files : List Artifact} {doc : Json}
    (haccepted : artifacts root a.manifest.outputs defaultLimits redactor = .ok files)
    (hcollected : a.collection = .collected files)
    (hresult : a.result = some r) (hwritten : execute a = some doc) :
    (collectable doc = true ↔
      resultBytes a.redact a.manifest a.startedAt a.finishedAt (ending r) files ≤
        maxResultBytes) ∧
    ((∀ s, a.redact s = s) → (collectable doc = true ↔
      otherBytes a.manifest a.startedAt a.finishedAt (ending r) +
        (files.map fun f => 96 + numberBytes f.bytes + f.path.utf8ByteSize).sum +
        (files.length - 1) ≤ maxResultBytes)) := by
  obtain ⟨hcount, hlisted⟩ := artifacts_sound haccepted
  have hfiles : r.artifacts = files := result_artifacts hcollected hresult
  obtain rfl : r.toJson.mapText a.redact = doc := by
    simp only [execute, hresult, Option.map_some, Option.ite_none_right_eq_some] at hwritten
    exact Option.some.inj hwritten.2
  have hvalues : (r.toJson.mapText a.redact).values ≤ 100000 := by
    have hdoc := Json.values_mapText a.redact r.toJson
    have hrecord := values_result r
    have hbound : files.length ≤ 10000 := by simpa [defaultLimits] using hcount
    rw [hfiles] at hrecord
    omega
  have hiff : collectable (r.toJson.mapText a.redact) = true ↔
      resultBytes a.redact a.manifest a.startedAt a.finishedAt (ending r) files ≤
        maxResultBytes := by
    rw [collectable_iff ((Json.depth_mapText a.redact _).trans (depth_result r)),
      size_result hresult, hfiles]
    exact and_iff_left hvalues
  refine ⟨hiff, fun hplain => ?_⟩
  obtain hid : a.redact = id := funext hplain
  rw [hiff, hid, resultBytes_id _ _ _ _ hlisted]

/-- One output file. -/
theorem small_result_collectable : ∃ files doc,
    artifacts (.directory [("result", .file 5 emptyDigest 1)])
        [{ path := "result", required := true }] defaultLimits noSecrets = .ok files ∧
      execute (collectingAttempt [{ path := "result", required := true }] files) = some doc ∧
      collectable doc = true := by
  have haccepted : artifacts (.directory [("result", .file 5 emptyDigest 1)])
      [{ path := "result", required := true }] defaultLimits noSecrets =
      .ok [⟨"result", 5, emptyDigest.1⟩] := by decide +kernel
  refine ⟨_, _, haccepted, rfl, (result_collectable_iff
    (a := collectingAttempt [{ path := "result", required := true }] [⟨"result", 5, emptyDigest.1⟩])
    haccepted rfl rfl rfl).1.mpr ?_⟩
  decide +kernel

/-- Ten thousand empty files with nine characters in their paths: the runner accepts them and ends
the attempt as completed, and the relay refuses the document that lists them. -/
theorem many_files_refused : ∃ files doc,
    artifacts (flatNode ((List.range 10000).map numbered)) [outDirectory] defaultLimits noSecrets =
        .ok files ∧
      execute (collectingAttempt [outDirectory] files) = some doc ∧ collectable doc = false := by
  have hnames : ∀ n ∈ (List.range 10000).map numbered, ∃ k < 10000, n = numbered k := by
    intro n hn
    obtain ⟨k, hk, rfl⟩ := List.mem_map.mp hn
    exact ⟨k, List.mem_range.mp hk, rfl⟩
  have hapart : (((List.range 10000).map numbered).map flatPath).Pairwise fun p q =>
      PathSet.Apart (components p) (components q) := by
    rw [List.map_map, List.pairwise_map]
    refine List.nodup_range.imp_of_mem fun {j k} hj hk hne => ?_
    exact apart_numbered (List.mem_range.mp hj) (List.mem_range.mp hk) hne
  obtain ⟨files, haccepted, hperm⟩ := artifacts_flat
    (by rw [List.length_map, List.length_range])
    (fun n hn => by obtain ⟨k, -, rfl⟩ := hnames n hn; exact relative_numbered k)
    (fun n hn => by obtain ⟨k, -, rfl⟩ := hnames n hn; exact not_mem_numbered k) hapart
  have hsum : (files.map fun f => 96 + numberBytes f.bytes + f.path.utf8ByteSize).sum =
      1060000 := by
    have hzero : numberBytes 0 = 1 := by decide
    rw [(hperm.map _).sum_eq, List.map_map, List.map_map, List.map_map,
      List.map_congr_left (g := fun _ => 106) fun k _ => by
        simp [flatFile, hzero, utf8ByteSize_numbered],
      List.map_const', List.sum_replicate, List.length_range]
    rfl
  obtain ⟨r, hresult⟩ : ∃ r, (collectingAttempt [outDirectory] files).result = some r := ⟨_, rfl⟩
  have hfiles : r.artifacts = files := result_artifacts rfl hresult
  refine ⟨files, r.toJson.mapText id, haccepted, ?_, ?_⟩
  · rw [execute, hresult]
    rfl
  · rw [Bool.eq_false_iff]
    intro hcollectable
    rw [collectable_iff ((Json.depth_mapText id _).trans (depth_result r)), size_result hresult,
      hfiles, resultBytes_id _ _ _ _ (artifacts_sound haccepted).2, hsum] at hcollectable
    have := hcollectable.1
    rw [maxResultBytes] at this
    omega

end RunnerPlan
end ComputeRelay
