import Mathlib.Tactic
import ComputeRelay.Lib.PathSet
import ComputeRelay.Lib.Text

/-!
# Bundle manifests

The path rules of `internal/safefs/path.go`, the file list of `internal/packaging/types.go` and the
checks that `Inspect` makes on it before it reads a file of the bundle.
-/

namespace ComputeRelay
namespace Packaging

open Text Paths

def version : String := "compute-relay/bundle/v1"

def manifestPath : String := ".compute-relay/bundle.json"

structure Limits where
  maxCompressedBytes : ℤ
  maxExpandedBytes : ℤ
  maxManifestBytes : ℤ
  maxFiles : ℕ
  maxEntries : ℕ
  maxDepth : ℕ
  deriving DecidableEq

def defaultLimits : Limits := ⟨100 * 2 ^ 20, 500 * 2 ^ 20, 4 * 2 ^ 20, 10000, 100000, 32⟩

def Limits.validate (l : Limits) : Bool :=
  1 ≤ l.maxCompressedBytes && l.maxCompressedBytes ≤ 2 * 2 ^ 30 &&
  1 ≤ l.maxExpandedBytes && l.maxExpandedBytes ≤ 4 * 2 ^ 30 &&
  128 ≤ l.maxManifestBytes && l.maxManifestBytes ≤ 16 * 2 ^ 20 &&
  1 ≤ l.maxFiles && l.maxFiles ≤ 100000 && l.maxFiles ≤ l.maxEntries && l.maxEntries ≤ 1000000 &&
  1 ≤ l.maxDepth && l.maxDepth ≤ 64

structure File where
  path : String
  bytes : ℤ
  sha256 : String
  executable : Bool
  deriving DecidableEq

structure Manifest where
  version : String
  files : List File
  deriving DecidableEq

/-! ### Paths -/

/-- The bytes that a path may have: printable ASCII without the characters `\:*?"<>|`. -/
def pathByte (b : UInt8) : Bool :=
  32 ≤ b && b < 127 && b ≠ 92 && b ≠ 58 && b ≠ 42 && b ≠ 63 && b ≠ 34 && b ≠ 60 && b ≠ 62 && b ≠ 124

/-- `safefs.ValidPath` -/
def validPath (name : String) : Bool :=
  name = "." ||
    (1 ≤ name.utf8ByteSize && name.utf8ByteSize ≤ 1024 && allBytes pathByte name &&
      (components name).all portable)

theorem pathByte_lt {b : UInt8} (h : pathByte b = true) : b < 128 := by
  simp only [pathByte, Bool.and_eq_true, decide_eq_true_eq] at h
  have hlt : b.toNat < 127 := h.1.1.1.1.1.1.1.1.2
  exact UInt8.lt_iff_toNat_lt.mpr (by simp; omega)

theorem ascii_of_validPath {p : String} (hdot : p ≠ ".") (h : validPath p = true) :
    ∀ c ∈ p.toList, c.toNat < 128 := by
  simp only [validPath, hdot, decide_false, Bool.false_or, Bool.and_eq_true, decide_eq_true_eq,
    allBytes_eq fun b => pathByte_lt, List.all_eq_true] at h
  intro c hc
  have hchar := h.1.2 c hc
  simp only [ascii, Bool.and_eq_true, decide_eq_true_eq] at hchar
  exact hchar.1

def excludedParts : List String :=
  [".git", ".hg", ".svn", ".ssh", ".aws", ".azure", ".kaggle", ".gnupg", ".config", ".cache",
    ".venv", "venv", "node_modules", "__pycache__", ".pytest_cache", ".mypy_cache", ".idea",
    ".vscode", ".ds_store", "dist", "build", "target", ".compute-relay", ".compute-connector",
    ".computeignore", "kaggle.json", "access_token", "credentials", "credentials.json", "id_rsa",
    "id_ed25519", ".netrc", ".npmrc", ".pypirc"]

/-- `unicode.ToLower`, as far as a comparison with an ASCII text can tell: of the other characters
only the Kelvin sign and the dotted capital I have an ASCII letter as their lower case. -/
def lowered (c : Char) : Char :=
  if c = '\u212A' then 'k' else if c = '\u0130' then 'i' else c.toLower

def defaultExcluded (name : String) : Bool :=
  (components name).any fun part =>
    let part := part.map lowered
    (excludedParts.map String.toList).contains part || ".env".toList.isPrefixOf part ||
      ".pem".toList.isSuffixOf part || ".key".toList.isSuffixOf part ||
        ".pyc".toList.isSuffixOf part

theorem lowered_eq {c : Char} (h : c.toNat < 128) : lowered c = c.toLower := by
  have hkelvin : c ≠ '\u212A' := fun hc => by rw [hc] at h; exact absurd h (by decide)
  have hdotted : c ≠ '\u0130' := fun hc => by rw [hc] at h; exact absurd h (by decide)
  rw [lowered, if_neg hkelvin, if_neg hdotted]

/-- `paths.add` -/
def addPath (seen : PathSet) (name : String) : Option PathSet :=
  if name = "." || 240 < name.utf8ByteSize || !validPath name || defaultExcluded name then none
  else seen.add (components name)

/-! ### The file list -/

def validDigest (s : String) : Bool :=
  s.utf8ByteSize = 64 &&
    s.toList.all fun c => ('0' ≤ c && c ≤ '9') || ('a' ≤ c && c ≤ 'f')

/-- The loop over the files: paths apart and in order, sizes within the budget, digests spelt
right. -/
def filesValid (limits : Limits) : PathSet → ℤ → String → List File → Bool
  | _, _, _, [] => true
  | seen, total, last, f :: rest =>
    match addPath seen f.path with
    | none => false
    | some seen =>
      (components f.path).length ≤ limits.maxDepth && last < f.path && 0 ≤ f.bytes &&
        f.bytes ≤ limits.maxExpandedBytes - total && validDigest f.sha256 &&
        filesValid limits seen (total + f.bytes) f.path rest

/-- The manifest checks of `Inspect`. -/
def Manifest.valid (limits : Limits) (m : Manifest) : Bool :=
  m.version = Packaging.version && m.files ≠ [] && m.files.length ≤ limits.maxFiles &&
    filesValid limits .empty 0 "" m.files

end Packaging
end ComputeRelay
