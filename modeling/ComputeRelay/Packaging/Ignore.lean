import Mathlib.Tactic
import ComputeRelay.Lib.Glob
import ComputeRelay.Packaging.Manifest

/-!
# What a bundle leaves out

The ignore rules of `internal/packaging/ignore.go` and `Project.excluded` of
`internal/packaging/source.go`. A rule without a slash is a pattern for one component anywhere, a
rule with slashes one for a path from the root, where `**` stands for any number of components. What
is excluded takes everything below it along.
-/

namespace ComputeRelay
namespace Packaging

open Text Paths

inductive IgnoreError
  | limit
  | invalid
  deriving DecidableEq

/-- The token that matches whole components. -/
def anyDepth (token : Component) : Bool := token = "**".toList

/-- `path.Match` without its error. -/
def matchPart (token part : Component) : Bool := Glob.Shell.pathMatch token part = some true

/-- `matchParts` -/
def matchParts (pattern parts : List Component) : Bool :=
  Glob.reaches anyDepth matchPart pattern parts

/-! ### Rules -/

/-- A part of a rule. -/
def rulePart (part : Component) : Bool :=
  part ≠ [] && part ≠ ".".toList && part ≠ "..".toList &&
    (!occursIn "**".toList part || part = "**".toList) && (Glob.Shell.pathMatch part []).isSome

/-- `strings.TrimSuffix` with a slash. -/
def trimSlash (rule : String) : String :=
  if rule.toList.getLast? = some '/' then String.ofList rule.toList.dropLast else rule

/-- `ScanLines` drops the carriage return at the end of a line. -/
def dropCR (line : List Char) : List Char :=
  if line.getLast? = some '\r' then line.dropLast else line

/-- One line; the scanner has a buffer of 2048 bytes. -/
def addRule (rules : List String) (line : List Char) : Except IgnoreError (List String) :=
  if 2048 ≤ size line then .error .limit
  else
    let rule := trimSpace (String.ofList (dropCR line))
    if rule = "" || rule.toList.head? = some '#' then .ok rules
    else if 256 ≤ rules.length || 1024 < rule.utf8ByteSize then .error .limit
    else if rule.toList.head? = some '!' || '\\' ∈ rule.toList ||
        rule.toList.head? = some '/' then .error .invalid
    else
      let rule := trimSlash rule
      if 64 < (components rule).length then .error .limit
      else if !(components rule).all rulePart then .error .invalid
      else .ok (rules ++ [rule])

def parseIgnore (content : String) : Except IgnoreError (List String) :=
  if 64 * 2 ^ 10 < content.utf8ByteSize then .error .limit
  else (content.toList.splitOn '\n').foldlM addRule []

def excludes (rules : List String) (name : String) : Bool :=
  defaultExcluded name || rules.any fun rule =>
    if '/' ∉ rule.toList then (components name).any (matchPart rule.toList)
    else matchParts (components rule) (components name)

/-! ### Protected paths -/

/-- `OpenProject` takes valid paths only. -/
structure Project where
  protectedPaths : List String
  valid : ∀ p ∈ protectedPaths, validPath p = true

/-- Two characters are the same under simple folding, if the second one is ASCII: `k` and `s` have a
third form. -/
def folds (b c : Char) : Bool :=
  b.toLower = c.toLower || (b = '\u212A' && c.toLower = 'k') || (b = '\u017F' && c.toLower = 's')

/-- `strings.EqualFold` with an ASCII text. -/
def equalFold : List Char → List Char → Bool
  | [], [] => true
  | b :: bs, c :: cs => folds b c && equalFold bs cs
  | _, _ => false

def Project.excluded (p : Project) (name : String) (rules : List String) : Bool :=
  excludes rules name || p.protectedPaths.any fun lead =>
    lead = "." || equalFold name.toList lead.toList ||
      (lead.toList.map lowered ++ ['/']).isPrefixOf (name.toList.map lowered)

/-! ### Below an excluded path -/

variable {name rest : String} {rules : List String}

theorem components_below (name rest : String) :
    components (name ++ "/" ++ rest) = components name ++ components rest := by
  have htext : (name ++ "/" ++ rest).toList = name.toList ++ '/' :: rest.toList := by simp
  rw [components, htext]
  exact List.splitOn_append_cons_self _ _

theorem defaultExcluded_below (h : defaultExcluded name = true) :
    defaultExcluded (name ++ "/" ++ rest) = true := by
  rw [defaultExcluded] at h ⊢
  rw [components_below, List.any_append, h, Bool.true_or]

theorem excludes_below (h : excludes rules name = true) :
    excludes rules (name ++ "/" ++ rest) = true := by
  simp only [excludes, Bool.or_eq_true, List.any_eq_true] at h ⊢
  rcases h with h | ⟨rule, hrule, h⟩
  · exact .inl (defaultExcluded_below h)
  · refine .inr ⟨rule, hrule, ?_⟩
    rw [components_below]
    split at h
    · next hslash =>
      rw [if_pos hslash, List.any_append, h, Bool.true_or]
    · next hslash =>
      rw [if_neg hslash]
      exact Glob.reaches_append h _

theorem toNat_toLower_lt {c : Char} (h : c.toNat < 128) : c.toLower.toNat < 128 := by
  delta Char.toLower
  split_ifs with hupper
  · have hrange : 65 ≤ c.toNat ∧ c.toNat ≤ 90 := by
      simpa [UInt32.le_iff_toNat_le] using hupper
    have hcode : (c.toNat + 32) % 4294967296 < 128 := by omega
    simpa using hcode
  · exact h

/-- Folding and lower case agree on an ASCII text, the long s apart. -/
theorem lowered_of_folds {b c : Char} (hb : b ≠ '\u017F') (hc : c.toNat < 128)
    (h : folds b c = true) : lowered b = lowered c := by
  rw [lowered_eq hc]
  simp only [folds, Bool.or_eq_true, Bool.and_eq_true, decide_eq_true_eq] at h
  rcases h with (h | ⟨rfl, h⟩) | ⟨rfl, -⟩
  · have hlt := toNat_toLower_lt hc
    rw [← h] at hlt ⊢
    have hkelvin : b ≠ '\u212A' := fun hb => by rw [hb] at hlt; exact absurd hlt (by decide)
    have hdotted : b ≠ '\u0130' := fun hb => by rw [hb] at hlt; exact absurd hlt (by decide)
    rw [lowered, if_neg hkelvin, if_neg hdotted]
  · rw [h]
    rfl
  · exact absurd rfl hb

theorem map_lowered_of_equalFold : ∀ {bs cs : List Char}, '\u017F' ∉ bs →
    (∀ c ∈ cs, c.toNat < 128) →
    equalFold bs cs = true → bs.map lowered = cs.map lowered
  | [], [], _, _, _ => rfl
  | b :: bs, c :: cs, hbs, hcs, h => by
    rw [equalFold, Bool.and_eq_true] at h
    rw [List.map_cons, List.map_cons,
      lowered_of_folds (fun hb => hbs (by simp [hb])) (hcs c (by simp)) h.1,
      map_lowered_of_equalFold (fun hmem => hbs (by simp [hmem]))
        (fun d hd => hcs d (by simp [hd])) h.2]

theorem protected_below {lead : String} (hlead : validPath lead = true)
    (hname : '\u017F' ∉ name.toList) (h : lead = "." ∨ equalFold name.toList lead.toList = true ∨
      (lead.toList.map lowered ++ ['/']).isPrefixOf (name.toList.map lowered) = true) :
    lead = "." ∨
      (lead.toList.map lowered ++ ['/']).isPrefixOf ((name ++ "/" ++ rest).toList.map lowered) =
        true := by
  have htext : (name ++ "/" ++ rest).toList.map lowered =
      (name.toList.map lowered ++ ['/']) ++ rest.toList.map lowered := by
    have hslash : lowered '/' = '/' := rfl
    simp [hslash]
  by_cases hdot : lead = "."
  · exact .inl hdot
  · refine .inr ?_
    rw [htext, List.isPrefixOf_iff_prefix]
    rcases h with h | h | h
    · exact absurd h hdot
    · rw [map_lowered_of_equalFold hname (ascii_of_validPath hdot hlead) h]
      exact List.prefix_append _ _
    · rw [List.isPrefixOf_iff_prefix] at h
      exact (h.trans (List.prefix_append _ _)).trans (List.prefix_append _ _)

/-- **Ignore rules mean what they say, and take everything below along.** `matchParts` finds whether
the pattern matches the path or a directory above it; and everything below an excluded path is
excluded, if no letter of the path is a long s: with an ASCII text that letter is equal under
folding, but has another lower case. -/
theorem excluded_below :
    (∀ pattern parts : List Component, matchParts pattern parts = true ↔
      ∃ lead, lead <+: parts ∧ Glob.Covers anyDepth matchPart pattern lead) ∧
    ∀ (content : String) (rules : List String), parseIgnore content = .ok rules →
      ∀ (p : Project) (name rest : String), '\u017F' ∉ name.toList → p.excluded name rules = true →
        p.excluded (name ++ "/" ++ rest) rules = true := by
  refine ⟨Glob.reaches_iff, fun content rules _ p name rest hname h => ?_⟩
  simp only [Project.excluded, Bool.or_eq_true, List.any_eq_true, decide_eq_true_eq] at h ⊢
  rcases h with h | ⟨lead, hmem, h⟩
  · exact .inl (excludes_below h)
  · refine .inr ⟨lead, hmem, ?_⟩
    rcases protected_below (p.valid lead hmem) hname (or_assoc.mp h) with hdot | hbelow
    · exact .inl (.inl hdot)
    · exact .inr hbelow

def sampleProject : Project := ⟨["state"], by decide⟩

theorem state_excluded_below :
    parseIgnore "*.log\nassets/**/draft\n" = .ok ["*.log", "assets/**/draft"] ∧
    sampleProject.excluded "State" ["*.log", "assets/**/draft"] = true ∧
      sampleProject.excluded ("State" ++ "/" ++ "cache") ["*.log", "assets/**/draft"] = true := by
  have hrules : parseIgnore "*.log\nassets/**/draft\n" = .ok ["*.log", "assets/**/draft"] := by
    decide +kernel
  exact ⟨hrules, by decide +kernel,
    excluded_below.2 _ _ hrules sampleProject "State" "cache" (by decide +kernel)
      (by decide +kernel)⟩

/-- Under folding the long s is an s; in lower case it stays. -/
theorem long_s_not_excluded_below :
    parseIgnore "" = .ok [] ∧ sampleProject.excluded "\u017Ftate" [] = true ∧
      sampleProject.excluded ("\u017Ftate" ++ "/" ++ "cache") [] = false := by
  decide +kernel

end Packaging
end ComputeRelay
