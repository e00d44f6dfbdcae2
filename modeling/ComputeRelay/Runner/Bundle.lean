import Mathlib.Tactic
import ComputeRelay.Packaging.Inspect
import ComputeRelay.Runner.Artifacts

/-!
# Extracting a bundle

`extract_bundle` of `runner/python/relay_runner/files.py`: the runner's own reading of the format
that `Inspect` checks on the relay, with the files written below an empty directory. All refusals
are one `Failure`, and an attempt whose `check` raises writes nothing that is used.
-/

namespace ComputeRelay
namespace Runner

open Paths
open Packaging (TarHeader Decoders Stream File)

/-! ### Headers -/

/-- `TarInfo.isreg`: the types of regular files. -/
def isreg (item : TarHeader) : Bool := item.typeflag ∈ [48, 0, 55, 83]

/-- `header` -/
def header (e : Decoders) (t : Stream) : Option (Option TarHeader × Stream) := do
  let (raw, t) ← t.read 512
  if raw = List.replicate 512 0 then
    let (raw, t) ← t.read 512
    if raw ≠ List.replicate 512 0 then none else some (none, t)
  else if (raw.drop 156).take 1 ≠ [48] ∨
      (raw.drop 257).take 8 ≠ [117, 115, 116, 97, 114, 0, 48, 48] then none
  else
    let item ← e.tar raw
    if isreg item && item.linkname = "" && item.uname = "" && item.gname = "" && item.uid = 0 &&
        item.gid = 0 && (item.mode = 0o644 || item.mode = 0o755) && 0 ≤ item.size then
      some (some item, t)
    else none

/-- `padding` -/
def padding (size : ℤ) (t : Stream) : Option Stream := do
  let (block, t) ← t.read ((-size) % 512).toNat
  if block ≠ List.replicate ((-size) % 512).toNat 0 then none else some t

/-! ### The manifest -/

mutual

/-- The hook of `strict_json`: no name stands twice in an object. -/
def uniqueKeys : Json → Bool
  | .arr items => uniqueKeysItems items
  | .obj members => decide (members.map (·.1)).Nodup && uniqueKeysMembers members
  | .null => true
  | .bool _ => true
  | .int _ => true
  | .str _ => true

def uniqueKeysItems : List Json → Bool
  | [] => true
  | j :: rest => uniqueKeys j && uniqueKeysItems rest

def uniqueKeysMembers : List (String × Json) → Bool
  | [] => true
  | (_, j) :: rest => uniqueKeys j && uniqueKeysMembers rest

end

/-- `strict_json` -/
def strictJSON (e : Decoders) (raw : List UInt8) (limit : ℕ) : Option Json := do
  if limit < raw.length then none
  else
    let doc ← e.json raw
    if uniqueKeys doc then some doc else none

/-- `fields`, without optional ones: an object with exactly the given members. -/
def fields (required : List String) : Json → Option (List (String × Json))
  | .obj members =>
    if required.all (· ∈ members.map (·.1)) && (members.map (·.1)).all (· ∈ required) then
      some members
    else none
  | _ => none

/-- The checks of one entry. -/
def bundleEntry (limits : Limits) (j : Json) : Option File := do
  let members ← fields ["path", "bytes", "sha256", "executable"] j
  let path ← members.lookup "path" >>= Json.asStr
  let bytes ← members.lookup "bytes" >>= Json.asInt
  let sha256 ← members.lookup "sha256" >>= Json.asStr
  let executable ← members.lookup "executable" >>= Json.asBool
  if relative path false && 0 ≤ bytes && bytes ≤ limits.expandedBytes && digestPattern sha256 then
    some ⟨path, bytes, sha256, executable⟩
  else none

/-- The checks of the manifest, up to the files of the stream. -/
def bundleManifest (limits : Limits) (doc : Json) : Option Packaging.Manifest := do
  let members ← fields ["bundle_version", "files"] doc
  let version ← members.lookup "bundle_version" >>= Json.asStr
  let items ← members.lookup "files" >>= Json.asArr
  if version ≠ "compute-relay/bundle/v1" ∨ items.length < 1 ∨ 10000 < items.length then none
  else
    let entries ← items.mapM (bundleEntry limits)
    if disjoint (entries.map (·.path)) &&
        entries.map (·.path) = sortedNames (entries.map (·.path)) &&
        (entries.map (·.bytes)).sum ≤ limits.expandedBytes then
      some ⟨version, entries⟩
    else none

/-! ### The files -/

structure Written where
  path : List Component
  content : List UInt8
  mode : ℤ
  deriving DecidableEq

/-- What stands below the target directory. -/
structure Target where
  directories : List (List Component) := []
  files : List Written := []
  deriving DecidableEq

/-- The directories on the way to a path, the path included. -/
def onTheWay (path : List Component) : List (List Component) :=
  (List.range path.length).map fun n => path.take (n + 1)

/-- `mkdir(parents=True, exist_ok=True)`: a file on the way is an error. -/
def Target.mkdir (target : Target) (path : List Component) : Option Target :=
  if (onTheWay path).any (· ∈ target.files.map (·.path)) then none
  else some { target with directories := target.directories ++ onTheWay path }

/-- `open("xb")`, the writes and `chmod`: whatever stands at the path already is an error. -/
def Target.create (target : Target) (path : List Component) (content : List UInt8) (mode : ℤ) :
    Option Target :=
  if path ∈ target.directories ∨ path ∈ target.files.map (·.path) then none
  else some { target with files := target.files ++ [⟨path, content, mode⟩] }

/-- One entry of the manifest. -/
def extractFile (e : Decoders) (sha256 : List UInt8 → String) (state : Stream × Target)
    (entry : File) : Option (Stream × Target) := do
  let (item, t) ← header e state.1
  let item ← item
  let mode : ℤ := if entry.executable then 0o755 else 0o644
  if item.name ≠ "code/" ++ entry.path ∨ item.size ≠ entry.bytes ∨ item.mode ≠ mode then none
  else
    let target ← state.2.mkdir (components entry.path).dropLast
    let (content, t) ←
      t.readIn (64 * 1024 - 1) (fun content data => some (content ++ data)) item.size.toNat []
    let target ← target.create (components entry.path) content mode
    if sha256 content ≠ entry.sha256 then none
    else
      let t ← padding item.size t
      some (t, target)

/-- The most that `GzipStream` hands out. -/
def wireBound (limits : Limits) : ℤ :=
  limits.expandedBytes + 4 * 2 ^ 20 + 10001 * 1024 + 1024

/-- `extract_bundle`, below an empty directory. -/
def extractBundle (e : Decoders) (sha256 : List UInt8 → String) (limits : Limits)
    (bundle : List UInt8) : Option (Packaging.Manifest × Target) := do
  let (contents, trailing) ← e.gunzip bundle
  let (item, t) ← header e ⟨contents, (wireBound limits).toNat⟩
  let item ← item
  if item.name ≠ ".compute-relay/bundle.json" ∨ item.size ≤ 0 ∨ 4 * 2 ^ 20 < item.size then none
  else
    let (raw, t) ← t.read item.size.toNat
    let doc ← strictJSON e raw (4 * 2 ^ 20)
    let t ← padding item.size t
    let manifest ← bundleManifest limits doc
    let (t, target) ← manifest.files.foldlM (extractFile e sha256) (t, {})
    let (ending, t) ← header e t
    if ending.isSome ∨ t.rest ≠ [] ∨ trailing ≠ [] then none else some (manifest, target)

end Runner
end ComputeRelay
