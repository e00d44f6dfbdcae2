import Mathlib.Tactic
import ComputeRelay.Runner.Bundle
import ComputeRelay.RunnerPlan.Agreement
import ComputeRelay.RunnerPlan.Formats

/-!
# Bundles on both sides

`Inspect` on the relay and `extract_bundle` on the runner read the same format with two sets of
rules. Whatever the relay accepts, the runner accepts: header by header, the manifest, and file by
file (`extractFile_of_inspectFile`), where the paths of an accepted manifest never stand in each
other's way. The decoders of the two sides agree on well-formed data (`Agree`), so the bundle is one
that `Inspect` accepts without meeting other data.
-/

namespace ComputeRelay
namespace RunnerPlan

open Text Paths Packaging
open Runner (Target Written)

/-- What the first decoders take, the second decode alike. -/
structure Follows (d e : Decoders) : Prop where
  gunzip : ∀ {b r}, d.gunzip b = some r → e.gunzip b = some r
  tar : ∀ {b r}, d.tar b = some r → e.tar b = some r
  json : ∀ {b r}, d.json b = some r → e.json b = some r

variable {wf : Formats} {d e : Decoders} {t u : Stream}

theorem follows_only (wf : Formats) (d : Decoders) : Follows (only wf d) d where
  gunzip h := (Option.ite_none_right_eq_some.mp h).2
  tar h := (Option.ite_none_right_eq_some.mp h).2
  json h := (Option.ite_none_right_eq_some.mp h).2

theorem Agree.follows (h : Agree wf d e) : Follows (only wf d) e where
  gunzip hb :=
    (h.gunzip (Option.ite_none_right_eq_some.mp hb).1).trans ((follows_only wf d).gunzip hb)
  tar hb := (h.tar (Option.ite_none_right_eq_some.mp hb).1).trans ((follows_only wf d).tar hb)
  json hb := (h.json (Option.ite_none_right_eq_some.mp hb).1).trans ((follows_only wf d).json hb)

/-! ### What `Inspect` meets -/

section Mono

variable {sha256 : List UInt8 → String} {suspicious : List UInt8 → Bool}

theorem nextHeader_mono (hfollows : Follows d e) {answer : Option TarHeader}
    (h : nextHeader d t = some (answer, u)) : nextHeader e t = some (answer, u) := by
  simp only [nextHeader, bind, Option.bind_eq_some_iff] at h ⊢
  obtain ⟨⟨block, v⟩, hread, h⟩ := h
  refine ⟨(block, v), hread, ?_⟩
  split_ifs at h ⊢ with hzero hmarks
  · exact h
  · simp only [Option.bind_eq_some_iff] at h ⊢
    obtain ⟨item, hitem, h⟩ := h
    exact ⟨item, hfollows.tar hitem, h⟩

theorem inspectFile_mono (hfollows : Follows d e) {f : File}
    (h : inspectFile d sha256 suspicious t f = some u) :
    inspectFile e sha256 suspicious t f = some u := by
  simp only [inspectFile, bind, Option.bind_eq_some_iff] at h ⊢
  obtain ⟨⟨answer, v⟩, hheader, h⟩ := h
  exact ⟨(answer, v), nextHeader_mono hfollows hheader, h⟩

theorem inspectFiles_mono (hfollows : Follows d e) {files : List File}
    (h : files.foldlM (inspectFile d sha256 suspicious) t = some u) :
    files.foldlM (inspectFile e sha256 suspicious) t = some u := by
  induction files generalizing t with
  | nil => exact h
  | cons f rest ih =>
    simp only [List.foldlM_cons, bind, Option.bind_eq_some_iff] at h ⊢
    obtain ⟨v, hfirst, hrest⟩ := h
    exact ⟨v, inspectFile_mono hfollows hfirst, ih hrest⟩

theorem inspect_mono (hfollows : Follows d e) {limits : Limits} {bundle : List UInt8}
    {report : Report} (h : inspect d sha256 suspicious limits bundle = some report) :
    inspect e sha256 suspicious limits bundle = some report := by
  simp only [inspect, readManifest, bind, Option.ite_none_left_eq_some, Option.bind_eq_some_iff]
    at h ⊢
  obtain ⟨hbound, ⟨contents, trailing⟩, hgunzip, ⟨answer, start⟩, hheader, item, hitem, hname,
    ⟨encoded, read⟩, hread, after, hpadding, manifest, ⟨doc, hdoc, hmanifest⟩, hvalid, last, hfiles,
    ⟨ending, finish⟩, hending, hreport⟩ := h
  exact ⟨hbound, (contents, trailing), hfollows.gunzip hgunzip, (answer, start),
    nextHeader_mono hfollows hheader, item, hitem, hname, (encoded, read), hread, after, hpadding,
    manifest, ⟨doc, hfollows.json hdoc, hmanifest⟩, hvalid, last, inspectFiles_mono hfollows hfiles,
    (ending, finish), nextHeader_mono hfollows hending, hreport⟩

end Mono

/-! ### Headers and padding -/

theorem allZero_iff {block : List UInt8} {n : ℕ} (h : block.length = n) :
    allZero block = true ↔ block = List.replicate n 0 := by
  rw [List.eq_replicate_iff, allZero, List.all_eq_true]
  simp [h]

theorem header_of_nextHeader (hfollows : Follows d e) {answer : Option TarHeader}
    (h : nextHeader d t = some (answer, u)) : Runner.header e t = some (answer, u) := by
  simp only [nextHeader, bind, Option.bind_eq_some_iff] at h
  obtain ⟨⟨block, v⟩, hread, h⟩ := h
  have hlen := (Tape.read_eq_some.mp hread).1
  simp only [Runner.header, bind, hread, Option.bind_some]
  by_cases hzero : allZero block = true
  · rw [if_pos hzero, Option.bind_eq_some_iff] at h
    obtain ⟨⟨second, w⟩, hsecond, h⟩ := h
    split_ifs at h with hno
    have hnext : second = List.replicate 512 0 :=
      (allZero_iff (Tape.read_eq_some.mp hsecond).1).mp (by simpa using hno)
    rw [if_pos ((allZero_iff hlen).mp hzero), hsecond, Option.bind_some,
      if_neg fun hne => hne hnext]
    exact h
  · rw [if_neg hzero] at h
    split_ifs at h with hmarks
    simp only [not_or, not_not] at hmarks
    obtain ⟨htype, hmagic, hversion⟩ := hmarks
    rw [Option.bind_eq_some_iff] at h
    obtain ⟨item, hitem, h⟩ := h
    split_ifs at h with hvalid
    rw [if_neg (mt (allZero_iff hlen).mpr hzero), if_neg ?_, hfollows.tar hitem, Option.bind_some]
    · have hreg : Runner.isreg item = true := by
        simp [Runner.isreg, d.tar_regular hitem htype]
      rw [if_pos ?_]
      · exact h
      · simp only [headerValid, Bool.not_eq_true', Bool.not_eq_false, Bool.and_eq_true] at hvalid
        obtain ⟨⟨⟨⟨⟨⟨⟨-, hlink⟩, huid⟩, hgid⟩, huname⟩, hgname⟩, hsize⟩, hmode⟩ := hvalid
        simp only [Bool.and_eq_true]
        exact ⟨⟨⟨⟨⟨⟨⟨hreg, hlink⟩, huname⟩, hgname⟩, huid⟩, hgid⟩, hmode⟩, hsize⟩
    · have hflag : (block.drop 156).take 1 = [48] := by
        rw [List.take_one, List.head?_drop, htype]
        rfl
      have hmark : (block.drop 257).take 8 = ustarMagic ++ ustarVersion := by
        rw [show 8 = 6 + 2 from rfl, List.take_add, hmagic, List.drop_drop, hversion]
      rw [hflag, hmark]
      exact not_or.mpr ⟨not_not.mpr rfl, not_not.mpr rfl⟩

theorem padding_of_padding {size : ℤ} (h : Packaging.padding size t = some u) :
    Runner.padding size t = some u := by
  have hcount : (512 - size % 512) % 512 = (-size) % 512 := by omega
  simp only [Packaging.padding, bind, Option.bind_eq_some_iff] at h
  obtain ⟨⟨block, v⟩, hread, h⟩ := h
  split_ifs at h with hzero
  rw [hcount] at hread
  have hblock := (allZero_iff (Tape.read_eq_some.mp hread).1).mp (by simpa using hzero)
  simp only [Runner.padding, bind, hread, Option.bind_some]
  rw [if_neg (by simpa using hblock)]
  exact h

/-! ### The manifest -/

mutual

/-- The relay asks more of the member names than the runner. -/
theorem uniqueKeys_of_uniqueJSON : ∀ (depth : ℕ) (j : Json), uniqueJSON depth j = true →
    Runner.uniqueKeys j = true
  | _, .null, _ => rfl
  | _, .bool _, _ => rfl
  | _, .int _, _ => rfl
  | _, .str _, _ => rfl
  | depth, .arr items, h => by
    rw [uniqueJSON, Bool.and_eq_true] at h
    exact uniqueKeysItems_of_uniqueItems (depth + 1) items h.2
  | depth, .obj members, h => by
    rw [uniqueJSON, Bool.and_eq_true, Bool.and_eq_true] at h
    rw [Runner.uniqueKeys, Bool.and_eq_true]
    exact ⟨h.1.2, uniqueKeysMembers_of_uniqueMembers (depth + 1) members h.2⟩

theorem uniqueKeysItems_of_uniqueItems : ∀ (depth : ℕ) (items : List Json),
    uniqueItems depth items = true → Runner.uniqueKeysItems items = true
  | _, [], _ => rfl
  | depth, j :: rest, h => by
    rw [uniqueItems, Bool.and_eq_true] at h
    rw [Runner.uniqueKeysItems, Bool.and_eq_true]
    exact ⟨uniqueKeys_of_uniqueJSON depth j h.1, uniqueKeysItems_of_uniqueItems depth rest h.2⟩

theorem uniqueKeysMembers_of_uniqueMembers : ∀ (depth : ℕ) (members : List (String × Json)),
    uniqueMembers depth members = true → Runner.uniqueKeysMembers members = true
  | _, [], _ => rfl
  | depth, (_, j) :: rest, h => by
    rw [uniqueMembers, Bool.and_eq_true] at h
    rw [Runner.uniqueKeysMembers, Bool.and_eq_true]
    exact ⟨uniqueKeys_of_uniqueJSON depth j h.1,
      uniqueKeysMembers_of_uniqueMembers depth rest h.2⟩

end

theorem mem_keys_of_lookup {members : List (String × Json)} {k : String} {j : Json}
    (h : members.lookup k = some j) : k ∈ members.map (·.1) := by
  induction members with
  | nil => cases h
  | cons m rest ih =>
    rw [List.lookup_cons] at h
    cases hk : k == m.1 with
    | true => exact List.mem_cons.mpr (.inl (by simpa using hk))
    | false =>
      rw [hk] at h
      exact List.mem_cons_of_mem _ (ih h)

/-- What holds of each file that the relay accepted. -/
structure AcceptedFile (f : File) : Prop where
  relative : Runner.relative f.path false = true
  nonneg : 0 ≤ f.bytes
  bound : f.bytes ≤ Runner.defaultLimits.expandedBytes
  digest : Runner.digestPattern f.sha256 = true

theorem bundleEntry_of_decodeFile {j : Json} {f : File} (h : decodeFile j = some f)
    (hf : AcceptedFile f) : Runner.bundleEntry Runner.defaultLimits j = some f := by
  cases j with
  | obj members =>
    simp only [decodeFile, bind] at h
    split_ifs at h with hkeys
    simp only [Option.bind_eq_some_iff] at h
    obtain ⟨path, ⟨jp, hjp, hp⟩, bytes, ⟨jb, hjb, hb⟩, sha, ⟨js, hjs, hs⟩, exec,
      ⟨jx, hjx, hx⟩, h⟩ := h
    split_ifs at h
    obtain rfl := Option.some.inj h
    have hfields : Runner.fields ["path", "bytes", "sha256", "executable"] (.obj members) =
        some members := by
      rw [Runner.fields, if_pos]
      rw [Bool.and_eq_true]
      refine ⟨?_, by simpa only [Bool.not_eq_true', Bool.not_eq_false] using hkeys⟩
      simp only [List.all_cons, List.all_nil, Bool.and_true, Bool.and_eq_true, decide_eq_true_eq]
      exact ⟨mem_keys_of_lookup hjp, mem_keys_of_lookup hjb, mem_keys_of_lookup hjs,
        mem_keys_of_lookup hjx⟩
    simp only [Runner.bundleEntry, bind, hfields, Option.bind_some, hjp, hp, hjb, hb,
      hjs, hs, hjx, hx]
    rw [if_pos]
    simp only [Bool.and_eq_true, decide_eq_true_eq]
    exact ⟨⟨⟨hf.relative, hf.nonneg⟩, hf.bound⟩, hf.digest⟩
  | null => cases h
  | bool _ => cases h
  | int _ => cases h
  | str _ => cases h
  | arr _ => cases h

theorem digestPattern_of_validDigest {s : String} (h : validDigest s = true) :
    Runner.digestPattern s = true := by
  simp only [validDigest, Bool.and_eq_true, decide_eq_true_eq, List.all_eq_true,
    Bool.or_eq_true] at h
  obtain ⟨hsize, hchars⟩ := h
  have hrange : ∀ c ∈ s.toList, (48 ≤ c.toNat ∧ c.toNat ≤ 57) ∨ (97 ≤ c.toNat ∧ c.toNat ≤ 102) :=
    hchars
  have hascii : ∀ c ∈ s.toList, c.toNat < 128 := fun c hc => by
    have := hrange c hc
    omega
  rw [utf8ByteSize_of_ascii hascii] at hsize
  simp only [Runner.digestPattern, Bool.and_eq_true, decide_eq_true_eq, List.all_eq_true]
  refine ⟨hsize, fun c hc => ?_⟩
  have hbyte := toNat_byte (hascii c hc)
  simp only [ascii, digit, Bool.and_eq_true, Bool.or_eq_true, decide_eq_true_eq,
    UInt8.le_iff_toNat_le, hbyte]
  exact ⟨hascii c hc, hrange c hc⟩

/-- What the relay's loop over the files has checked. -/
theorem accepted_of_filesValid {seen : PathSet} {total : ℤ} {last : String} {files : List File}
    (h : filesValid defaultLimits seen total last files = true) (htotal : 0 ≤ total) :
    (∀ f ∈ files, AcceptedFile f) ∧
      total + (files.map (·.bytes)).sum ≤ max total Runner.defaultLimits.expandedBytes ∧
      (last :: files.map (·.path)).Pairwise (· < ·) ∧
      ((files.map fun f => components f.path).foldlM PathSet.add seen).isSome = true := by
  induction files generalizing seen total last with
  | nil => simp
  | cons f rest ih =>
    have hrel := relative_of_filesValid h f (List.mem_cons_self ..)
    rw [filesValid] at h
    cases hadd : addPath seen f.path with
    | none => simp [hadd] at h
    | some seen' =>
      simp only [hadd, Bool.and_eq_true, decide_eq_true_eq] at h
      obtain ⟨⟨⟨⟨⟨hdepth, hlast⟩, hnonneg⟩, hbytes⟩, hdigest⟩, hrest⟩ := h
      obtain ⟨hfiles, hsum, hsorted, htaken⟩ := ih hrest (by omega)
      have hlimit : defaultLimits.maxExpandedBytes = Runner.defaultLimits.expandedBytes := rfl
      refine ⟨?_, ?_, ?_, ?_⟩
      · rintro g (_ | ⟨_, hg⟩)
        · exact ⟨hrel, hnonneg, by omega, digestPattern_of_validDigest hdigest⟩
        · exact hfiles g hg
      · rw [List.map_cons, List.sum_cons]
        omega
      · rw [List.map_cons, List.pairwise_cons]
        refine ⟨?_, hsorted⟩
        rintro p (_ | ⟨_, hp⟩)
        · exact hlast
        · exact String.lt_trans hlast ((List.pairwise_cons.mp hsorted).1 p hp)
      · have hseen : seen.add (components f.path) = some seen' := by
          rw [addPath] at hadd
          split_ifs at hadd
          exact hadd
        rw [List.map_cons, List.foldlM_cons, hseen]
        exact htaken

/-- The manifests that the relay accepts. -/
structure AcceptedManifest (m : Manifest) : Prop where
  version : m.version = Packaging.version
  count : 1 ≤ m.files.length ∧ m.files.length ≤ 10000
  files : ∀ f ∈ m.files, AcceptedFile f
  sum : (m.files.map (·.bytes)).sum ≤ Runner.defaultLimits.expandedBytes
  sorted : (m.files.map (·.path)).Pairwise (· < ·)
  disjoint : PathSet.disjoint (m.files.map fun f => components f.path) = true

theorem accepted_of_valid {m : Manifest} (h : m.valid defaultLimits = true) :
    AcceptedManifest m := by
  simp only [Manifest.valid, Bool.and_eq_true, decide_eq_true_eq] at h
  obtain ⟨⟨⟨hversion, hne⟩, hcount⟩, hvalid⟩ := h
  obtain ⟨hfiles, hsum, hsorted, htaken⟩ := accepted_of_filesValid hvalid le_rfl
  refine ⟨hversion, ⟨List.length_pos_iff.mpr hne, hcount⟩, hfiles, ?_,
    (List.pairwise_cons.mp hsorted).2, htaken⟩
  rw [zero_add] at hsum
  exact hsum.trans (max_le (by decide) le_rfl)

theorem bundleEntries_of_decodeFiles {items : List Json} {files : List File}
    (h : items.mapM decodeFile = some files) (hfiles : ∀ f ∈ files, AcceptedFile f) :
    items.mapM (Runner.bundleEntry Runner.defaultLimits) = some files := by
  induction items generalizing files with
  | nil => exact h
  | cons j rest ih =>
    simp only [List.mapM_cons, bind, Option.bind_eq_some_iff] at h
    obtain ⟨f, hf, fs, hfs, h⟩ := h
    obtain rfl := Option.some.inj h
    rw [List.mapM_cons, bundleEntry_of_decodeFile hf (hfiles f (List.mem_cons_self ..)),
      ih hfs fun g hg => hfiles g (List.mem_cons_of_mem _ hg)]
    rfl

theorem length_mapM {α β : Type} {g : α → Option β} {as : List α} {bs : List β}
    (h : as.mapM g = some bs) : bs.length = as.length := by
  induction as generalizing bs with
  | nil =>
    obtain rfl := Option.some.inj h
    rfl
  | cons a rest ih =>
    simp only [List.mapM_cons, bind, Option.bind_eq_some_iff] at h
    obtain ⟨b, -, bs', hbs, h⟩ := h
    obtain rfl := Option.some.inj h
    rw [List.length_cons, List.length_cons, ih hbs]

theorem bundleManifest_of_decodeManifest {doc : Json} {m : Manifest}
    (h : decodeManifest doc = some m) (hm : AcceptedManifest m) :
    Runner.bundleManifest Runner.defaultLimits doc = some m := by
  cases doc with
  | obj members =>
    simp only [decodeManifest, bind] at h
    split_ifs at h with hkeys
    simp only [Option.bind_eq_some_iff] at h
    obtain ⟨version, ⟨jv, hjv, hv⟩, files, hfiles, h⟩ := h
    obtain rfl := Option.some.inj h
    have hcount := hm.count
    -- an empty list is refused, so the member is there and is an array
    obtain ⟨items, hlookup, hitems⟩ : ∃ items, members.lookup "files" = some (.arr items) ∧
        items.mapM decodeFile = some files := by
      unfold decodeFiles at hfiles
      split at hfiles
      · obtain rfl := Option.some.inj hfiles
        simp at hcount
      · obtain rfl := Option.some.inj hfiles
        simp at hcount
      · next items hl => exact ⟨items, hl, hfiles⟩
      · cases hfiles
    have hlength : files.length = items.length := length_mapM hitems
    have hfields : Runner.fields ["bundle_version", "files"] (.obj members) = some members := by
      rw [Runner.fields, if_pos]
      rw [Bool.and_eq_true]
      refine ⟨?_, by simpa only [Bool.not_eq_true', Bool.not_eq_false] using hkeys⟩
      simp only [List.all_cons, List.all_nil, Bool.and_true, Bool.and_eq_true, decide_eq_true_eq]
      exact ⟨mem_keys_of_lookup hjv, mem_keys_of_lookup hlookup⟩
    have hsorted : files.map (·.path) = Runner.sortedNames (files.map (·.path)) := by
      refine (List.mergeSort_of_pairwise (hm.sorted.imp fun {a b} hab => ?_)).symm
      exact decide_eq_true (String.not_lt.mp (String.lt_asymm hab))
    have hdisjoint : Runner.disjoint (files.map (·.path)) = true := by
      rw [Runner.disjoint, Bool.and_eq_true, List.all_eq_true, List.map_map]
      refine ⟨fun p hp => ?_, hm.disjoint⟩
      obtain ⟨f, hf, rfl⟩ := List.mem_map.mp hp
      exact (hm.files f hf).relative
    simp only [Runner.bundleManifest, bind, hfields, Option.bind_some, hjv, hv, hlookup, Json.asArr]
    have haccepted : ¬ (version ≠ "compute-relay/bundle/v1" ∨ items.length < 1 ∨
        10000 < items.length) := by
      rw [← hlength, not_or, not_not, not_or, Nat.not_lt, Nat.not_lt]
      exact ⟨hm.version, hcount⟩
    rw [if_neg haccepted, bundleEntries_of_decodeFiles hitems hm.files, Option.bind_some, if_pos]
    simp only [Bool.and_eq_true, decide_eq_true_eq]
    exact ⟨⟨hdisjoint, hsorted⟩, hm.sum⟩
  | null => cases h
  | bool _ => cases h
  | int _ => cases h
  | str _ => cases h
  | arr _ => cases h

/-! ### The files -/

/-- What stands on disk is the file of the manifest. -/
structure WrittenAs (sha256 : List UInt8 → String) (f : File) (w : Written) : Prop where
  path : w.path = components f.path
  length : (w.content.length : ℤ) = f.bytes
  digest : sha256 w.content = f.sha256
  mode : w.mode = headerMode f.executable

/-- The target holds these files, one after the other, and only directories that lead to them. -/
structure Extracted (sha256 : List UInt8 → String) (done : List File) (target : Target) : Prop where
  files : List.Forall₂ (WrittenAs sha256) done target.files
  directories : ∀ p ∈ target.directories, ∃ f ∈ done, ∃ n, 0 < n ∧
    n < (components f.path).length ∧ p = (components f.path).take n

theorem extracted_nil (sha256 : List UInt8 → String) : Extracted sha256 [] {} :=
  ⟨.nil, fun p hp => by cases hp⟩

/-- A path that stays apart from another is no directory on the way to it, nor the path itself. -/
theorem Apart_ne_take {p q : List Component} (h : PathSet.Apart p q) {n : ℕ} (h0 : 0 < n)
    (hn : n ≤ q.length) : p ≠ q.take n := by
  intro heq
  have hlen : p.length = n := by rw [heq, List.length_take, min_eq_left hn]
  obtain ⟨-, hlt, -⟩ := h n h0 hlen.ge hn (by rw [← hlen, List.take_length, hlen, ← heq])
  omega

theorem mem_onTheWay {p q : List Component} (h : q ∈ Runner.onTheWay p.dropLast) :
    ∃ n, 0 < n ∧ n < p.length ∧ q = p.take n := by
  simp only [Runner.onTheWay, List.mem_map, List.mem_range, List.length_dropLast] at h
  obtain ⟨n, hn, rfl⟩ := h
  refine ⟨n + 1, by omega, by omega, ?_⟩
  rw [List.dropLast_eq_take, List.take_take, min_eq_left (by omega)]

variable {sha256 : List UInt8 → String} {suspicious : List UInt8 → Bool} {done : List File}
  {target : Target} {f : File}

theorem paths_of_written {fs : List File} {ws : List Written}
    (h : List.Forall₂ (WrittenAs sha256) fs ws) :
    ws.map (·.path) = fs.map fun g => components g.path := by
  induction h with
  | nil => rfl
  | cons hw _ ih => rw [List.map_cons, List.map_cons, hw.path, ih]

theorem mem_paths_iff (h : Extracted sha256 done target) {p : List Component} :
    p ∈ target.files.map (·.path) ↔ ∃ g ∈ done, components g.path = p := by
  rw [paths_of_written h.files, List.mem_map]

/-- The directories and the file of the next entry can be created. -/
theorem create_of_apart (h : Extracted sha256 done target)
    (hapart : ∀ g ∈ done, PathSet.Apart (components g.path) (components f.path))
    {content : List UInt8} {mode : ℤ} (hw : WrittenAs sha256 f ⟨components f.path, content, mode⟩) :
    ∃ made final, target.mkdir (components f.path).dropLast = some made ∧
      made.create (components f.path) content mode = some final ∧
      Extracted sha256 (done ++ [f]) final := by
  have hne : 0 < (components f.path).length := List.length_pos_iff.mpr (List.splitOn_ne_nil _ _)
  have hmkdir : target.mkdir (components f.path).dropLast =
      some { target with
        directories := target.directories ++ Runner.onTheWay (components f.path).dropLast } := by
    rw [Target.mkdir, if_neg]
    rw [Bool.not_eq_true, List.any_eq_false]
    intro q hq htaken
    obtain ⟨n, h0, hn, rfl⟩ := mem_onTheWay hq
    obtain ⟨g, hg, heq⟩ := (mem_paths_iff h).mp (of_decide_eq_true htaken)
    exact Apart_ne_take (hapart g hg) h0 hn.le heq
  refine ⟨_, _, hmkdir, if_neg ?_, ?_⟩
  · rintro (hdir | hfile)
    · rcases List.mem_append.mp hdir with hold | hnew
      · obtain ⟨g, hg, n, h0, hn, heq⟩ := h.directories _ hold
        exact Apart_ne_take (hapart g hg).symm h0 hn.le heq
      · obtain ⟨n, h0, hn, heq⟩ := mem_onTheWay hnew
        have := congrArg List.length heq
        rw [List.length_take] at this
        omega
    · obtain ⟨g, hg, heq⟩ := (mem_paths_iff h).mp hfile
      exact Apart_ne_take (hapart g hg) hne le_rfl (by rw [List.take_length, heq])
  · refine ⟨List.rel_append h.files (.cons hw .nil), fun p hp => ?_⟩
    rcases List.mem_append.mp hp with hold | hnew
    · obtain ⟨g, hg, hrest⟩ := h.directories p hold
      exact ⟨g, List.mem_append_left _ hg, hrest⟩
    · exact ⟨f, by simp, mem_onTheWay hnew⟩

/-- What the relay read of a file, the runner writes. -/
theorem extractFile_of_inspectFile (hfollows : Follows d e) (hf : AcceptedFile f)
    (hholds : Extracted sha256 done target)
    (hapart : ∀ g ∈ done, PathSet.Apart (components g.path) (components f.path))
    (h : inspectFile d sha256 suspicious t f = some u) :
    ∃ final, Runner.extractFile e sha256 (t, target) f = some (u, final) ∧
      Extracted sha256 (done ++ [f]) final := by
  obtain ⟨item, v, content, w, hheader, hname, hsize, hmode, hdata, hdigest, hpadding⟩ :=
    inspectFile_eq_some h
  have hlength : ((content.length : ℕ) : ℤ) = f.bytes := by
    rw [(Tape.read_eq_some.mp hdata).1, Int.toNat_of_nonneg hf.nonneg]
  obtain ⟨made, final, hmkdir, hcreate, hfinal⟩ := create_of_apart hholds hapart
    (⟨rfl, hlength, hdigest, rfl⟩ : WrittenAs sha256 f
      ⟨components f.path, content, headerMode f.executable⟩)
  refine ⟨final, ?_, hfinal⟩
  have hcheck : ¬ (item.name ≠ "code/" ++ f.path ∨ item.size ≠ f.bytes ∨
      item.mode ≠ if f.executable then 0o755 else 0o644) := by
    rw [not_or, not_not, not_or, not_not, not_not]
    exact ⟨hname, hsize, hmode⟩
  simp only [Runner.extractFile, bind, header_of_nextHeader hfollows hheader, Option.bind_some]
  rw [if_neg hcheck, hmkdir, Option.bind_some, hsize, Tape.readIn_append hdata, Option.bind_some,
    List.nil_append]
  change (made.create (components f.path) content (headerMode f.executable)).bind _ = _
  rw [hcreate, Option.bind_some, if_neg (not_not.mpr hdigest), padding_of_padding hpadding]
  rfl

theorem extractFiles_of_inspectFiles (hfollows : Follows d e) {rest : List File}
    (hfiles : ∀ f ∈ rest, AcceptedFile f)
    (hapart : ((done ++ rest).map fun f => components f.path).Pairwise PathSet.Apart)
    (hholds : Extracted sha256 done target)
    (h : rest.foldlM (inspectFile d sha256 suspicious) t = some u) :
    ∃ final, rest.foldlM (Runner.extractFile e sha256) (t, target) = some (u, final) ∧
      Extracted sha256 (done ++ rest) final := by
  induction rest generalizing done t target with
  | nil =>
    obtain rfl := Option.some.inj h
    exact ⟨target, rfl, by rwa [List.append_nil]⟩
  | cons f rest ih =>
    simp only [List.foldlM_cons, bind, Option.bind_eq_some_iff] at h
    obtain ⟨v, hfirst, hrest⟩ := h
    have hahead : ∀ g ∈ done, PathSet.Apart (components g.path) (components f.path) := by
      rw [List.map_append, List.pairwise_append] at hapart
      exact fun g hg => hapart.2.2 _ (List.mem_map_of_mem hg) _ (List.mem_cons_self ..)
    obtain ⟨middle, hmiddle, hdone⟩ := extractFile_of_inspectFile hfollows
      (hfiles f (List.mem_cons_self ..)) hholds hahead hfirst
    rw [← List.singleton_append, ← List.append_assoc] at hapart
    obtain ⟨final, hfinal, hall⟩ := ih (fun g hg => hfiles g (List.mem_cons_of_mem _ hg)) hapart
      hdone hrest
    refine ⟨final, ?_, by rwa [List.append_assoc, List.singleton_append] at hall⟩
    rw [List.foldlM_cons, hmiddle]
    exact hfinal

/-! ### Bundles -/

theorem wireBound_eq : defaultLimits.wireBound = Runner.wireBound Runner.defaultLimits := by
  decide

/-- `extract_bundle` accepts what `Inspect` accepted. -/
theorem extract_of_inspect (hfollows : Follows d e) {bundle : List UInt8} {report : Report}
    (h : inspect d sha256 suspicious defaultLimits bundle = some report) :
    ∃ target, Runner.extractBundle e sha256 Runner.defaultLimits bundle =
        some (report.manifest, target) ∧ Extracted sha256 report.manifest.files target := by
  obtain ⟨r, hr, -⟩ := inspect_eq_some h
  have haccepted : AcceptedManifest report.manifest := accepted_of_valid hr.valid
  have hapart : (([] ++ report.manifest.files).map fun f : File => components f.path).Pairwise
      PathSet.Apart := by
    rw [List.nil_append, ← PathSet.disjoint_iff fun p hp => by
      obtain ⟨f, -, rfl⟩ := List.mem_map.mp hp
      exact List.splitOn_ne_nil _ _]
    exact haccepted.disjoint
  obtain ⟨target, htarget, hextracted⟩ := extractFiles_of_inspectFiles hfollows haccepted.files
    hapart (extracted_nil sha256) hr.files
  refine ⟨target, ?_, hextracted⟩
  -- the manifest comes first in the stream and passes the stricter checks of the relay
  have hmanifest := hr.manifest
  simp only [readManifest, bind, Option.bind_eq_some_iff, Option.ite_none_left_eq_some,
    Bool.not_eq_true', Bool.not_eq_false] at hmanifest
  obtain ⟨doc, hdoc, hunique, hdecoded⟩ := hmanifest
  have hlength : ¬ 4 * 2 ^ 20 < r.encoded.length := by
    rw [(Tape.read_eq_some.mp hr.read).1]
    have := hr.size.2
    simp only [defaultLimits] at this
    omega
  have hstrict : Runner.strictJSON e r.encoded (4 * 2 ^ 20) = some doc := by
    simp only [Runner.strictJSON, bind, if_neg hlength, hfollows.json hdoc, Option.bind_some,
      uniqueKeys_of_uniqueJSON 0 doc hunique, if_true]
  have hitem : ¬ (r.item.name ≠ ".compute-relay/bundle.json" ∨ r.item.size ≤ 0 ∨
      4 * 2 ^ 20 < r.item.size) := by
    rw [not_or, not_not, not_or, not_le, not_lt]
    exact ⟨hr.name, hr.size⟩
  have hheader := header_of_nextHeader hfollows hr.header
  rw [wireBound_eq] at hheader
  simp only [Runner.extractBundle, bind, hfollows.gunzip hr.gunzip, Option.bind_some, hheader,
    if_neg hitem, hr.read, hstrict, padding_of_padding hr.padding,
    bundleManifest_of_decodeManifest hdecoded haccepted]
  rw [htarget, Option.bind_some, header_of_nextHeader hfollows hr.ending, Option.bind_some, if_neg]
  simp [hr.finish]

/-- Whatever `Inspect` accepts under the default limits, with well-formed data in it,
`extract_bundle` accepts under its own, and it writes the files of the inspected manifest and
nothing else. The length of the stream follows from the manifest, and no manifest within the logical
limits exceeds the bound of either side. -/
theorem bundle_accepted_remotely (hagree : Agree wf d e) (sha256 : List UInt8 → String)
    (suspicious : List UInt8 → Bool) :
    (∀ bundle report, inspect (only wf d) sha256 suspicious defaultLimits bundle = some report →
      inspect d sha256 suspicious defaultLimits bundle = some report ∧
      ∃ target, Runner.extractBundle e sha256 Runner.defaultLimits bundle =
          some (report.manifest, target) ∧ Extracted sha256 report.manifest.files target ∧
        ∃ contents encoded : List UInt8, d.gunzip bundle = some (contents, []) ∧
          sha256 encoded = report.manifestSHA256 ∧
          (contents.length : ℤ) = tarLength encoded.length report.manifest.files) ∧
    ∀ (encoded : ℤ) (files : List File), encoded ≤ defaultLimits.maxManifestBytes →
      files.length ≤ defaultLimits.maxFiles →
      (files.map (·.bytes)).sum ≤ defaultLimits.maxExpandedBytes →
      tarLength encoded files ≤ defaultLimits.wireBound ∧
        tarLength encoded files ≤ Runner.wireBound Runner.defaultLimits := by
  constructor
  · intro bundle report h
    obtain ⟨target, htarget, hextracted⟩ := extract_of_inspect hagree.follows h
    have hrelay := inspect_mono (follows_only wf d) h
    obtain ⟨r, hr, hdigest⟩ := inspect_eq_some hrelay
    have hfiles : ∀ f ∈ report.manifest.files, 0 ≤ f.bytes := fun f hf =>
      ((accepted_of_valid hr.valid).files f hf).nonneg
    exact ⟨hrelay, target, htarget, hextracted, r.contents, r.encoded, hr.gunzip, hdigest.symm,
      length_contents hr hfiles⟩
  · intro encoded files hencoded hcount hsum
    have hbound := tarLength_le hencoded hcount hsum
    exact ⟨hbound, wireBound_eq ▸ hbound⟩

/-! ### A bundle with one file -/

def sampleSHA256 : String := "e3b0c44298fc1c149afbf4c8996fb92427ae41e4649b934ca495991b7852b855"

def sampleManifestText : String :=
  "\x7b\"bundle_version\":\"compute-relay/bundle/v1\",\"files\":[\x7b\"path\":\"main.py\"," ++
    "\"bytes\":3,\"sha256\":\"" ++ sampleSHA256 ++ "\",\"executable\":true\x7d]\x7d"

/-- A text of ASCII characters, filled up with NUL bytes. -/
def filled (width : ℕ) (text : List Char) : List UInt8 :=
  (text.map fun c => UInt8.ofNat c.toNat).rightpad width 0

/-- Octal digits and a NUL byte. -/
def octalField (width n : ℕ) : List UInt8 :=
  filled width ((Nat.toDigits 8 n).leftpad (width - 1) '0')

def sampleHeader (name : String) (mode size : ℕ) : List UInt8 :=
  let front := filled 100 name.toList ++ octalField 8 mode ++ octalField 8 0 ++ octalField 8 0 ++
    octalField 12 size ++ octalField 12 0
  let back := 48 :: List.replicate 100 0 ++ ustarMagic ++ ustarVersion ++ List.replicate 64 0 ++
    octalField 8 0 ++ octalField 8 0 ++ List.replicate 167 0
  front ++ octalField 7 (headerSum (front ++ List.replicate 8 0 ++ back)).toNat ++ 32 :: back

/-- The blocks of a member of the stream. -/
def sampleMember (name : String) (mode : ℕ) (content : List Char) : List UInt8 :=
  sampleHeader name mode content.length ++ filled (512 * ((content.length + 511) / 512)) content

def sampleContents : List UInt8 :=
  sampleMember manifestPath 0o644 sampleManifestText.toList ++
    sampleMember "code/main.py" 0o755 ['1', '+', '1'] ++ List.replicate 1024 0

/-- The stream as a gzip member of one stored block. -/
def sampleArchive : List UInt8 :=
  [31, 139, 8, 0, 0, 0, 0, 0, 0, 255, 1] ++ littleEndian 2 sampleContents.length ++
    littleEndian 2 (65535 - sampleContents.length) ++ sampleContents ++
    littleEndian 4 (crc32 sampleContents) ++ littleEndian 4 sampleContents.length

theorem sampleArchive_accepted : ∃ report target,
    inspect (decoders trimmedOctal) (fun _ => sampleSHA256) (fun _ => false) defaultLimits
        sampleArchive = some report ∧
      Runner.extractBundle (decoders strippedOctal) (fun _ => sampleSHA256) Runner.defaultLimits
        sampleArchive = some (report.manifest, target) := by
  obtain ⟨report, h⟩ := Option.isSome_iff_exists.mp (by decide +kernel :
    (inspect (only wellFormed (decoders trimmedOctal)) (fun _ => sampleSHA256) (fun _ => false)
      defaultLimits sampleArchive).isSome = true)
  obtain ⟨hrelay, target, htarget, -⟩ := (bundle_accepted_remotely agree_decoders
    (fun _ => sampleSHA256) (fun _ => false)).1 sampleArchive report h
  exact ⟨report, target, hrelay, htarget⟩

end RunnerPlan
end ComputeRelay
