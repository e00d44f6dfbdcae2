import Mathlib.Tactic
import ComputeRelay.Lib.Json
import ComputeRelay.Lib.Tape
import ComputeRelay.Packaging.Manifest

/-!
# Inspecting a bundle

`Inspect` of `internal/packaging/archive.go` reads a gzip member with a tar stream in it: a
manifest, the files that the manifest lists, in that order, and two empty blocks. Nothing may
follow, neither in the stream nor after the member.

The decoders of gzip, of one tar header and of JSON are those of the standard library and are
parameters here (`Decoders`). The members of a JSON object keep their order and their repetitions,
since `uniqueJSON` looks for them. A document with a number that is no integer has no tree; both
sides refuse such a manifest by its types.
-/

namespace ComputeRelay
namespace Packaging

/-- A decoded tar header. -/
structure TarHeader where
  name : String
  mode : ℤ
  uid : ℤ
  gid : ℤ
  size : ℤ
  typeflag : UInt8
  linkname : String
  uname : String
  gname : String
  /-- The fields follow the USTAR format. -/
  ustar : Bool
  deriving DecidableEq

/-- The decoders of one side. -/
structure Decoders where
  /-- The contents of the first gzip member, and the bytes after it. -/
  gunzip : List UInt8 → Option (List UInt8 × List UInt8)
  tar : List UInt8 → Option TarHeader
  json : List UInt8 → Option Json
  /-- The flag of a regular file is kept. -/
  tar_regular : ∀ {block : List UInt8} {h : TarHeader}, tar block = some h →
    block[156]? = some 48 → h.typeflag = 48

abbrev Stream : Type := Tape UInt8

/-! ### Headers -/

def allZero (block : List UInt8) : Bool := block.all (· = 0)

/-- `header`: what the writer would put before a file. -/
def headerMode (executable : Bool) : ℤ := if executable then 0o755 else 0o644

def ustarMagic : List UInt8 := [117, 115, 116, 97, 114, 0]

def ustarVersion : List UInt8 := [48, 48]

/-- The checks of a header that is not empty. -/
def headerValid (h : TarHeader) : Bool :=
  h.ustar && h.linkname = "" && h.uid = 0 && h.gid = 0 && h.uname = "" && h.gname = "" &&
    0 ≤ h.size && (h.mode = 0o644 || h.mode = 0o755)

/-- `nextHeader`: a header, or nothing at the two empty blocks of the end. -/
def nextHeader (d : Decoders) (t : Stream) : Option (Option TarHeader × Stream) := do
  let (block, t) ← t.read 512
  if allZero block then
    let (block, t) ← t.read 512
    if !allZero block then none else some (none, t)
  else if block[156]? ≠ some 48 ∨ (block.drop 257).take 6 ≠ ustarMagic ∨
      (block.drop 263).take 2 ≠ ustarVersion then none
  else
    let h ← d.tar block
    if !headerValid h then none else some (some h, t)

/-- `padding` -/
def padding (size : ℤ) (t : Stream) : Option Stream := do
  let (block, t) ← t.read ((512 - size % 512) % 512).toNat
  if !allZero block then none else some t

/-! ### The manifest -/

def manifestKeys : List String :=
  ["bundle_version", "files", "path", "bytes", "sha256", "executable"]

mutual

/-- `uniqueJSON`, at one depth: every member has a name of the manifest, and no name stands
twice. -/
def uniqueJSON : ℕ → Json → Bool
  | depth, .arr items => decide (depth ≤ 16) && uniqueItems (depth + 1) items
  | depth, .obj members =>
    decide (depth ≤ 16) && (members.map (·.1)).all (· ∈ manifestKeys) &&
      decide (members.map (·.1)).Nodup && uniqueMembers (depth + 1) members
  | depth, .null => depth ≤ 16
  | depth, .bool _ => depth ≤ 16
  | depth, .int _ => depth ≤ 16
  | depth, .str _ => depth ≤ 16

def uniqueItems : ℕ → List Json → Bool
  | _, [] => true
  | depth, j :: rest => uniqueJSON depth j && uniqueItems depth rest

def uniqueMembers : ℕ → List (String × Json) → Bool
  | _, [] => true
  | depth, (_, j) :: rest => uniqueJSON depth j && uniqueMembers depth rest

end

/-- One entry of `files`: no unknown member, and none of the four missing or `null`. -/
def decodeFile : Json → Option File
  | .obj members => do
    if !(members.map (·.1)).all (· ∈ ["path", "bytes", "sha256", "executable"]) then none
    else
      let path ← members.lookup "path" >>= Json.asStr
      let bytes ← members.lookup "bytes" >>= Json.asInt
      let sha256 ← members.lookup "sha256" >>= Json.asStr
      let executable ← members.lookup "executable" >>= Json.asBool
      if bytes < -2 ^ 63 ∨ 2 ^ 63 ≤ bytes then none else some ⟨path, bytes, sha256, executable⟩
  | _ => none

/-- The value of `files`. It may be missing or `null`, which is an empty list. -/
def decodeFiles : Option Json → Option (List File)
  | none => some []
  | some .null => some []
  | some (.arr items) => items.mapM decodeFile
  | some _ => none

/-- The decoding of the manifest. -/
def decodeManifest : Json → Option Manifest
  | .obj members => do
    if !(members.map (·.1)).all (· ∈ ["bundle_version", "files"]) then none
    else
      let version ← members.lookup "bundle_version" >>= Json.asStr
      let files ← decodeFiles (members.lookup "files")
      some ⟨version, files⟩
  | _ => none

/-- The manifest in its encoded form. -/
def readManifest (d : Decoders) (encoded : List UInt8) : Option Manifest := do
  let doc ← d.json encoded
  if !uniqueJSON 0 doc then none else decodeManifest doc

/-! ### The files -/

/-- `secretScanner.check` on one chunk. The tail of what was read before is kept. -/
def scanChunk (suspicious : List UInt8 → Bool) (state : List UInt8 × List UInt8)
    (chunk : List UInt8) : Option (List UInt8 × List UInt8) :=
  if suspicious (state.2 ++ chunk) then none
  else some (state.1 ++ chunk,
    (state.2 ++ chunk).drop ((state.2 ++ chunk).length - 512))

/-- `BufferBytes` -/
def bufferBytes : ℕ := 64 * 1024

/-- One file of the stream. -/
def inspectFile (d : Decoders) (sha256 : List UInt8 → String) (suspicious : List UInt8 → Bool)
    (t : Stream) (f : File) : Option Stream := do
  let (h, t) ← nextHeader d t
  let h ← h
  if h.name ≠ "code/" ++ f.path ∨ h.size ≠ f.bytes ∨ h.mode ≠ headerMode f.executable then none
  else
    let ((content, _), t) ← t.readIn (bufferBytes - 1) (scanChunk suspicious) f.bytes.toNat ([], [])
    if sha256 content ≠ f.sha256 then none else padding f.bytes t

/-- What was read of an accepted file: its header, its contents in one piece and the padding. The
scanner sees every byte and changes none. -/
theorem inspectFile_eq_some {d : Decoders} {sha256 : List UInt8 → String}
    {suspicious : List UInt8 → Bool} {t u : Stream} {f : File}
    (h : inspectFile d sha256 suspicious t f = some u) :
    ∃ item v content w, nextHeader d t = some (some item, v) ∧ item.name = "code/" ++ f.path ∧
      item.size = f.bytes ∧ item.mode = headerMode f.executable ∧
      v.read f.bytes.toNat = some (content, w) ∧ sha256 content = f.sha256 ∧
      padding f.bytes w = some u := by
  have hscan : ∀ (s : List UInt8 × List UInt8) (data : List UInt8) (s' : List UInt8 × List UInt8),
      scanChunk suspicious s data = some s' → s'.1 = s.1 ++ data := by
    intro s data s' hs
    rw [scanChunk, Option.ite_none_left_eq_some] at hs
    rw [← Option.some.inj hs.2]
  simp only [inspectFile, bind, Option.bind_eq_some_iff, Prod.exists, Option.ite_none_left_eq_some,
    not_or, not_not] at h
  obtain ⟨answer, v, hheader, item, rfl, ⟨hname, hsize, hmode⟩, content, tail, w, hread, hdigest,
    hpadding⟩ := h
  obtain ⟨data, hdata, hkept⟩ := Tape.readIn_read (fun state => state.1) hscan hread
  obtain rfl : content = data := hkept
  exact ⟨item, v, content, w, hheader, hname, hsize, hmode, hdata, hdigest, hpadding⟩

structure Report where
  manifest : Manifest
  manifestSHA256 : String
  bytes : ℕ
  sha256 : String

/-- The most that is read from the decompressed stream. -/
def Limits.wireBound (limits : Limits) : ℤ :=
  limits.maxExpandedBytes + limits.maxManifestBytes + (limits.maxFiles + 1) * 1024 + 1024

/-- `Inspect` -/
def inspect (d : Decoders) (sha256 : List UInt8 → String) (suspicious : List UInt8 → Bool)
    (limits : Limits) (bundle : List UInt8) : Option Report := do
  if !limits.validate ∨ limits.maxCompressedBytes < bundle.length then none
  else
    let (contents, trailing) ← d.gunzip bundle
    let (h, t) ← nextHeader d ⟨contents, limits.wireBound.toNat⟩
    let h ← h
    if h.name ≠ manifestPath ∨ h.size < 1 ∨ limits.maxManifestBytes < h.size then none
    else
      let (encoded, t) ← t.read h.size.toNat
      let t ← padding h.size t
      let manifest ← readManifest d encoded
      if !manifest.valid limits then none
      else
        let t ← manifest.files.foldlM (inspectFile d sha256 suspicious) t
        let (ending, t) ← nextHeader d t
        if ending.isSome ∨ t.rest ≠ [] ∨ trailing ≠ [] then none
        else some ⟨manifest, sha256 encoded, bundle.length, sha256 bundle⟩

/-- The stages of an accepted bundle: the contents of the member, the header and the bytes of the
manifest, and the stream after the header, the manifest, its padding, the files and the end. -/
structure Reading where
  contents : List UInt8
  item : TarHeader
  encoded : List UInt8
  afterHeader : Stream
  afterManifest : Stream
  afterPadding : Stream
  afterFiles : Stream
  finish : Stream

structure Inspected (d : Decoders) (sha256 : List UInt8 → String) (suspicious : List UInt8 → Bool)
    (limits : Limits) (bundle : List UInt8) (m : Manifest) (r : Reading) : Prop where
  gunzip : d.gunzip bundle = some (r.contents, [])
  header : nextHeader d ⟨r.contents, limits.wireBound.toNat⟩ = some (some r.item, r.afterHeader)
  name : r.item.name = manifestPath
  size : 1 ≤ r.item.size ∧ r.item.size ≤ limits.maxManifestBytes
  read : r.afterHeader.read r.item.size.toNat = some (r.encoded, r.afterManifest)
  padding : padding r.item.size r.afterManifest = some r.afterPadding
  manifest : readManifest d r.encoded = some m
  valid : m.valid limits = true
  files : m.files.foldlM (inspectFile d sha256 suspicious) r.afterPadding = some r.afterFiles
  ending : nextHeader d r.afterFiles = some (none, r.finish)
  finish : r.finish.rest = []

theorem inspect_eq_some {d : Decoders} {sha256 : List UInt8 → String}
    {suspicious : List UInt8 → Bool} {limits : Limits} {bundle : List UInt8} {report : Report}
    (h : inspect d sha256 suspicious limits bundle = some report) :
    ∃ r, Inspected d sha256 suspicious limits bundle report.manifest r ∧
      report.manifestSHA256 = sha256 r.encoded := by
  simp only [inspect, bind, Option.ite_none_left_eq_some, Option.bind_eq_some_iff, not_or, not_not,
    not_lt, Bool.not_eq_true', Bool.not_eq_false, Bool.not_eq_true, Option.isSome_eq_false_iff,
    Option.isNone_iff_eq_none, Option.some.injEq, Prod.exists] at h
  obtain ⟨-, contents, trailing, hgunzip, answer, start, hheader, item, hitem, ⟨hname, hsize⟩,
    encoded, read, hread, after, hpadding, manifest, hmanifest, hvalid, last, hfiles,
      ending, finish,
    hending, ⟨hnone, hrest, htrailing⟩, hreport⟩ := h
  subst hitem hnone htrailing hreport
  exact ⟨⟨contents, item, encoded, start, read, after, last, finish⟩, ⟨hgunzip, hheader, hname,
    hsize, hread, hpadding, hmanifest, hvalid, hfiles, hending, hrest⟩, rfl⟩

/-! ### The length of the stream -/

/-- A size rounded up to whole blocks. -/
def padded (size : ℤ) : ℤ := size + (512 - size % 512) % 512

/-- The length of the stream of a manifest with that many bytes: a header and whole blocks for the
manifest and for each file, and the two empty blocks. -/
def tarLength (encoded : ℤ) (files : List File) : ℤ :=
  512 + padded encoded + (files.map fun f => 512 + padded f.bytes).sum + 1024

theorem padded_le (size : ℤ) : padded size ≤ size + 511 := by
  unfold padded
  omega

/-- The wire bound leaves room for every manifest within the logical limits. -/
theorem tarLength_le {limits : Limits} {encoded : ℤ} {files : List File}
    (hencoded : encoded ≤ limits.maxManifestBytes) (hcount : files.length ≤ limits.maxFiles)
    (hsum : (files.map (·.bytes)).sum ≤ limits.maxExpandedBytes) :
    tarLength encoded files ≤ limits.wireBound := by
  have hfiles : (files.map fun f => 512 + padded f.bytes).sum ≤
      (files.map (·.bytes)).sum + files.length * 1023 := by
    clear hcount hsum
    induction files with
    | nil => simp
    | cons f rest ih =>
      have := padded_le f.bytes
      simp only [List.map_cons, List.sum_cons, List.length_cons, Nat.cast_add, Nat.cast_one]
      linarith
  have hmanifest := padded_le encoded
  have hcount' : (files.length : ℤ) ≤ limits.maxFiles := by exact_mod_cast hcount
  unfold tarLength Limits.wireBound
  linarith

variable {d : Decoders} {t u : Stream}

theorem length_nextHeader {answer : Option TarHeader} (h : nextHeader d t = some (answer, u)) :
    t.rest.length = (if answer.isSome then 512 else 1024) + u.rest.length := by
  simp only [nextHeader, bind, Option.bind_eq_some_iff, Prod.exists] at h
  obtain ⟨block, v, hread, h⟩ := h
  obtain ⟨hlen, hrest, -⟩ := Tape.read_eq_some.mp hread
  rw [hrest, List.length_append, hlen]
  split_ifs at h with hzero hmarks
  · simp only [Option.bind_eq_some_iff, Prod.exists, Option.ite_none_left_eq_some,
      Option.some.injEq, Prod.mk.injEq] at h
    obtain ⟨second, w, hsecond, -, rfl, rfl⟩ := h
    obtain ⟨hlen', hrest', -⟩ := Tape.read_eq_some.mp hsecond
    rw [hrest', List.length_append, hlen', ← add_assoc]
    rfl
  · simp only [Option.bind_eq_some_iff, Option.ite_none_left_eq_some, Option.some.injEq,
      Prod.mk.injEq] at h
    obtain ⟨item, -, -, rfl, rfl⟩ := h
    rfl

theorem length_padding {size : ℤ} (h : padding size t = some u) :
    size + t.rest.length = padded size + u.rest.length := by
  simp only [padding, bind, Option.bind_eq_some_iff, Prod.exists, Option.ite_none_left_eq_some,
    Option.some.injEq] at h
  obtain ⟨block, v, hread, -, rfl⟩ := h
  obtain ⟨hlen, hrest, -⟩ := Tape.read_eq_some.mp hread
  rw [hrest, List.length_append, hlen, padded]
  push_cast
  rw [Int.toNat_of_nonneg (by omega)]
  ring

variable {sha256 : List UInt8 → String} {suspicious : List UInt8 → Bool}

theorem length_inspectFile {f : File} (hf : 0 ≤ f.bytes)
    (h : inspectFile d sha256 suspicious t f = some u) :
    (t.rest.length : ℤ) = 512 + padded f.bytes + u.rest.length := by
  obtain ⟨item, v, content, w, hheader, -, -, -, hread, -, hpadding⟩ := inspectFile_eq_some h
  obtain ⟨hlen, hrest, -⟩ := Tape.read_eq_some.mp hread
  have hfirst : t.rest.length = 512 + v.rest.length := length_nextHeader hheader
  have hlast := length_padding hpadding
  rw [hfirst, hrest, List.length_append, hlen]
  push_cast
  rw [Int.toNat_of_nonneg hf]
  linarith

theorem length_inspectFiles {files : List File} (hfiles : ∀ f ∈ files, 0 ≤ f.bytes)
    (h : files.foldlM (inspectFile d sha256 suspicious) t = some u) :
    (t.rest.length : ℤ) = (files.map fun f => 512 + padded f.bytes).sum + u.rest.length := by
  induction files generalizing t with
  | nil =>
    obtain rfl := Option.some.inj h
    simp
  | cons f rest ih =>
    simp only [List.foldlM_cons, bind, Option.bind_eq_some_iff] at h
    obtain ⟨v, hfirst, hrest⟩ := h
    have hhead := length_inspectFile (hfiles f (List.mem_cons_self ..)) hfirst
    have htail := ih (fun g hg => hfiles g (List.mem_cons_of_mem _ hg)) hrest
    rw [List.map_cons, List.sum_cons]
    linarith

/-- The stream of an accepted bundle has the length that its manifest gives. -/
theorem length_contents {limits : Limits} {bundle : List UInt8} {m : Manifest} {r : Reading}
    (h : Inspected d sha256 suspicious limits bundle m r) (hfiles : ∀ f ∈ m.files, 0 ≤ f.bytes) :
    (r.contents.length : ℤ) = tarLength r.encoded.length m.files := by
  obtain ⟨hlen, hrest, -⟩ := Tape.read_eq_some.mp h.read
  have hsize : (r.encoded.length : ℤ) = r.item.size := by
    rw [hlen, Int.toNat_of_nonneg (by have := h.size.1; omega)]
  have hheader : r.contents.length = 512 + r.afterHeader.rest.length := length_nextHeader h.header
  have hending : r.afterFiles.rest.length = 1024 + r.finish.rest.length :=
    length_nextHeader h.ending
  have hpadding := length_padding h.padding
  have hall := length_inspectFiles hfiles h.files
  rw [h.finish, List.length_nil] at hending
  rw [hheader, hrest, List.length_append, tarLength, hsize]
  push_cast
  rw [hsize]
  rw [hending] at hall
  push_cast at hall
  linarith

end Packaging
end ComputeRelay
