import Mathlib.Tactic
import ComputeRelay.Lib.Fallible
import ComputeRelay.Runner.Execute

/-!
# The output files of an attempt

`artifacts` of `runner/python/relay_runner/files.py`: walk the declared outputs, refuse links,
special files and anything over the limits, and list what remains by path. The working directory is
a tree of `Node`s that does not change while it is read, and `check` does not raise; an attempt in
which either happens is one whose `Collection` is a failure.
-/

namespace ComputeRelay
namespace Runner

open Paths Admission Fallible

/-- What `hexdigest` of SHA-256 answers. -/
def Digest : Type := { s : String // digestPattern s = true }

/-- What stands under a name. `special` is a device, a pipe or a socket. -/
inductive Node
  | file (bytes : ℕ) (sha256 : Digest) (links : ℕ)
  | directory (children : List (String × Node))
  | symlink
  | special

namespace Node

mutual

/-- The nodes of a tree. -/
def count : Node → ℕ
  | file .. => 1
  | symlink => 1
  | special => 1
  | directory children => 1 + countChildren children

def countChildren : List (String × Node) → ℕ
  | [] => 0
  | (_, node) :: rest => count node + countChildren rest

end

def isDirectory : Node → Bool
  | directory _ => true
  | _ => false

end Node

/-- What the redactor of the attempt's secrets finds: in the name of a file, or in its contents. -/
structure Redactor where
  name : String → Bool
  content : String → Bool

/-- Follow the components of an output's path. No answer means that a component is missing. -/
def locate : Node → List Component → Except Raised (Option Node)
  | node, [] => .ok (some node)
  | .directory children, part :: rest =>
    match children.lookup (String.ofList part) with
    | none => .ok none
    | some .symlink => .error (.failure {})
    | some child => locate child rest
  | _, _ :: _ => .error .listed

/-! ### Directories -/

def unsafeOutput (message : String) : Raised :=
  .failure ⟨.artifactCollectionFailed, .results, message⟩

/-- The state of the walk: the names counted so far, the directories still to be read and the files
found. -/
structure Walk where
  visited : ℕ
  pending : List (String × List (String × Node))
  names : List String

/-- One child of a directory. -/
def visitChild (limits : Limits) (directory : String) (w : Walk) (child : String × Node) :
    Except Raised Walk :=
  if limits.artifactFiles * 2 < ((w.visited + 1 : ℕ) : ℤ) then .error (.failure {})
  else if !relative (directory ++ "/" ++ child.1) false then .error (.failure {})
  else match child.2 with
    | .symlink => .error (unsafeOutput "Unsafe output link")
    | .directory children =>
      .ok ⟨w.visited + 1, (directory ++ "/" ++ child.1, children) :: w.pending, w.names⟩
    | .file .. => .ok ⟨w.visited + 1, w.pending, w.names ++ [directory ++ "/" ++ child.1]⟩
    | .special => .error (unsafeOutput "Unsafe output type")

/-- The nodes below the directories still to be read, and the directories themselves. -/
def Walk.weight (w : Walk) : ℕ :=
  (w.pending.map fun d => 1 + Node.countChildren d.2).sum

theorem visitChild_weight {limits : Limits} {directory : String} {child : String × Node}
    {w v : Walk} (h : visitChild limits directory w child = .ok v) :
    v.weight ≤ w.weight + child.2.count := by
  unfold visitChild at h
  split_ifs at h
  split at h
  · cases h
  · next children hnode =>
    cases h
    simp only [hnode, Walk.weight, Node.count, List.map_cons, List.sum_cons]
    omega
  · cases h
    simp [Walk.weight]
  · cases h

/-- Reading a directory adds no more than what stands in it. -/
theorem scanChildren_weight {limits : Limits} {directory : String} {children : List (String × Node)}
    {w v : Walk} (h : children.foldlM (visitChild limits directory) w = .ok v) :
    v.weight ≤ w.weight + Node.countChildren children := by
  induction children generalizing w with
  | nil =>
    rw [List.foldlM_nil, pure_eq_ok] at h
    exact h ▸ Nat.le_add_right ..
  | cons child rest ih =>
    rw [List.foldlM_cons, bind_eq_ok] at h
    obtain ⟨m, hm, h⟩ := h
    calc v.weight ≤ m.weight + Node.countChildren rest := ih h
      _ ≤ w.weight + child.2.count + Node.countChildren rest :=
        Nat.add_le_add_right (visitChild_weight hm) _
      _ = w.weight + Node.countChildren (child :: rest) := by rw [Node.countChildren, add_assoc]

/-- The loop `while pending`. -/
def scan (limits : Limits) (w : Walk) : Except Raised Walk :=
  match _hpending : w.pending with
  | [] => .ok w
  | (directory, children) :: rest =>
    match _hread : children.foldlM (visitChild limits directory) { w with pending := rest } with
    | .error e => .error e
    | .ok v => scan limits v
termination_by w.weight
decreasing_by
  have hle := scanChildren_weight _hread
  have hw : w.weight =
      1 + Node.countChildren children + Walk.weight { w with pending := rest } := by
    rw [Walk.weight, _hpending, List.map_cons, List.sum_cons, Walk.weight]
  omega

/-! ### Files -/

/-- The node that `open_file` opens: every component but the last is a directory. -/
def find : Node → List Component → Option Node
  | node, [] => some node
  | .directory children, part :: rest =>
    (children.lookup (String.ofList part)).bind fun child => find child rest
  | _, _ :: _ => none

/-- `open_file`, and what can then be read from the file. -/
def openFile (root : Node) (name : String) : Except Raised (ℕ × Digest) :=
  if !relative name false then .error (.failure {})
  else match find root (components name) with
    | none => .error .listed
    | some .symlink => .error .listed
    | some (.file bytes sha256 links) =>
      if links ≠ 1 then
        .error (.failure ⟨.invalidInputPath, .validation, "Unsafe file type or link"⟩)
      else .ok (bytes, sha256)
    | some _ => .error (.failure ⟨.invalidInputPath, .validation, "Unsafe file type or link"⟩)

/-- The files listed so far, their bytes and those of the output at hand. -/
structure Tally where
  result : List Artifact := []
  total : ℕ := 0
  own : ℕ := 0

/-- `except SecretFound`: the file is removed, and a required output fails. -/
def secretFound (output : Output) (t : Tally) : Except Raised Tally :=
  if output.required then .error (unsafeOutput "Required output contains protected material")
  else .ok t

/-- One file of an output. -/
def collectFile (root : Node) (limits : Limits) (redactor : Redactor) (output : Output) (t : Tally)
    (name : String) : Except Raised Tally :=
  if limits.artifactFiles ≤ (t.result.length : ℤ) then .error (.failure {})
  else if redactor.name name then secretFound output t
  else match openFile root name with
    | .error e => .error e
    | .ok (bytes, sha256) =>
      if min (limits.artifactBytes - t.total)
          (output.maxBytes.getD limits.artifactBytes - t.own) < (bytes : ℤ) then
        .error (.failure ⟨.inputTooLarge, .inputPreparation, "File exceeds byte limit"⟩)
      else if redactor.content name then secretFound output t
      else .ok ⟨t.result ++ [⟨name, bytes, sha256.1⟩], t.total + bytes, t.own + bytes⟩

/-- `sorted`, in the order of code points. -/
def sortedNames (names : List String) : List String := names.mergeSort fun a b => decide (a ≤ b)

/-- The files of one output that is there, with the number of names counted since the first. -/
def outputNames (limits : Limits) (output : Output) (node : Node) (visited : ℕ) :
    Except Raised (ℕ × List String) :=
  if node.isDirectory ≠ (output.kind.getD .file == .directory) then .error (.failure {})
  else match node with
    | .directory children => do
      let w ← scan limits ⟨visited, [(output.path, children)], []⟩
      .ok (w.visited, w.names)
    | _ => .ok (visited, [output.path])

/-- One output: the names counted so far and the files listed so far. -/
def collectOutput (root : Node) (limits : Limits) (redactor : Redactor) (state : ℕ × Tally)
    (output : Output) : Except Raised (ℕ × Tally) := do
  match ← locate root (components output.path) with
  | none =>
    if output.required then
      .error (.failure ⟨.artifactMissing, .results, "Required output missing"⟩)
    else .ok state
  | some node =>
    let (visited, names) ← outputNames limits output node state.1
    let t ← (sortedNames names).foldlM (collectFile root limits redactor output)
      { state.2 with own := 0 }
    .ok (visited, t)

/-- `artifacts` -/
def artifacts (root : Node) (outputs : List Output) (limits : Limits) (redactor : Redactor) :
    Except Raised (List Artifact) := do
  if !root.isDirectory then .error (.failure {})
  else
    let (_, t) ← outputs.foldlM (collectOutput root limits redactor) (0, {})
    if !disjoint (t.result.map (·.path)) then .error (.failure {})
    else .ok (t.result.mergeSort fun a b => decide (a.path ≤ b.path))

/-! ### What is listed -/

/-- An entry of the list: a path that the contract takes and the digest of a file. -/
def Artifact.Listed (a : Artifact) : Prop :=
  relative a.path false = true ∧ digestPattern a.sha256 = true

theorem openFile_relative {root : Node} {name : String} {found : ℕ × Digest}
    (h : openFile root name = .ok found) : relative name false = true := by
  unfold openFile at h
  split_ifs at h with hrel
  simpa using hrel

/-- What holds of the list while it grows. -/
structure Tally.Sound (limits : Limits) (t : Tally) : Prop where
  length : (t.result.length : ℤ) ≤ max 0 limits.artifactFiles
  listed : ∀ a ∈ t.result, a.Listed

variable {root : Node} {limits : Limits} {redactor : Redactor} {output : Output}

theorem secretFound_eq {t u : Tally} (h : secretFound output t = .ok u) : u = t := by
  unfold secretFound at h
  split_ifs at h
  exact (Except.ok.inj h).symm

theorem collectFile_sound {t u : Tally} {name : String} (ht : t.Sound limits)
    (h : collectFile root limits redactor output t name = .ok u) : u.Sound limits := by
  unfold collectFile at h
  by_cases hfull : limits.artifactFiles ≤ (t.result.length : ℤ)
  · rw [if_pos hfull] at h
    cases h
  by_cases hsecret : redactor.name name = true
  · rw [if_neg hfull, if_pos hsecret] at h
    exact secretFound_eq h ▸ ht
  rw [if_neg hfull, if_neg hsecret] at h
  cases hopen : openFile root name with
  | error e =>
    rw [hopen] at h
    cases h
  | ok found =>
    rw [hopen] at h
    simp only at h
    split_ifs at h with hlarge hcontent
    · exact secretFound_eq h ▸ ht
    · cases h
      constructor
      · rw [List.length_append, List.length_singleton]
        push_cast
        omega
      · intro a ha
        rw [List.mem_append, List.mem_singleton] at ha
        rcases ha with ha | rfl
        · exact ht.listed a ha
        · exact ⟨openFile_relative hopen, found.2.2⟩

theorem collectOutput_sound {state next : ℕ × Tally} (hs : state.2.Sound limits)
    (h : collectOutput root limits redactor state output = .ok next) : next.2.Sound limits := by
  unfold collectOutput at h
  rw [bind_eq_ok] at h
  obtain ⟨found, -, h⟩ := h
  cases found with
  | none =>
    simp only at h
    split_ifs at h
    exact Except.ok.inj h ▸ hs
  | some node =>
    simp only [bind_eq_ok] at h
    obtain ⟨⟨visited, names⟩, -, t, hloop, h⟩ := h
    obtain rfl := Except.ok.inj h
    have hstart : Tally.Sound limits { state.2 with own := 0 } := ⟨hs.length, hs.listed⟩
    exact foldlM_invariant (fun _ _ _ _ ht => collectFile_sound ht) hstart hloop

/-- No more files are listed than the limit, each under a path of the contract. -/
theorem artifacts_sound {outputs : List Output} {files : List Artifact}
    (h : artifacts root outputs limits redactor = .ok files) :
    (files.length : ℤ) ≤ max 0 limits.artifactFiles ∧ ∀ a ∈ files, a.Listed := by
  unfold artifacts at h
  split_ifs at h with hroot
  rw [bind_eq_ok] at h
  obtain ⟨⟨visited, t⟩, hloop, h⟩ := h
  have hsound : t.Sound limits :=
    foldlM_invariant (P := fun state : ℕ × Tally => state.2.Sound limits)
      (fun _ _ _ _ hs => collectOutput_sound hs) ⟨by simp, by simp⟩ hloop
  simp only at h
  split_ifs at h with hdisjoint
  cases h
  exact ⟨by rw [List.length_mergeSort]; exact hsound.length,
    fun a ha => hsound.listed a ((List.mem_mergeSort).mp ha)⟩

end Runner
end ComputeRelay
