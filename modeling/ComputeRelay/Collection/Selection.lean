import Mathlib.Tactic
import ComputeRelay.Collection.Snapshot
import ComputeRelay.Dispatch.Release

/-!
# A published snapshot is the declared result

What a snapshot that `buildSnapshot` returns holds, and that `validateSnapshot` accepts it.

* `Collected` is what holds of the files and sums while the artifacts of the result are matched,
  `Published` what holds of the files in the end.
* `buildSnapshot_rebuilt`: the selected files alone, under the default limits, give the same
  snapshot.
* `snapshot_is_result` is the result for every work item, catalog and configuration.
-/

namespace ComputeRelay
namespace Collection

open Text Domain Provider Admission RunnerPlan Fallible

section Build

variable {x : Reader} {w : Work} {cfg : Config} {catalog : List Artifact} {outputs : List Output}

/-! ### Lookups -/

theorem byPath_path {path : String} {a : Artifact} (h : byPath catalog path = some a) :
    a.path = path := by
  unfold byPath at h
  simpa using List.find?_some h

theorem mem_of_byPath {path : String} {a : Artifact} (h : byPath catalog path = some a) :
    a ∈ catalog := List.mem_of_find?_eq_some h

/-- Where paths differ, an entry is found under its path. -/
theorem byPath_of_mem {a : Artifact} (hnodup : (catalog.map (·.path)).Nodup) (ha : a ∈ catalog) :
    byPath catalog a.path = some a := by
  induction catalog with
  | nil => cases ha
  | cons b rest ih =>
    rw [List.map_cons, List.nodup_cons] at hnodup
    unfold byPath
    rw [List.find?_cons]
    rcases List.mem_cons.mp ha with rfl | hrest
    · rw [decide_eq_true rfl]
    · have hne : b.path ≠ a.path := fun heq =>
        hnodup.1 (heq ▸ List.mem_map_of_mem hrest)
      rw [decide_eq_false hne]
      exact ih hnodup.2 hrest

/-! ### One file -/

theorem Draft.add_eq_ok {d e : Draft} {a : Artifact} {role : Role} {media : String} :
    d.add x w cfg a role media = .ok e ↔
      a.bytes ≤ cfg.maxBytes - d.total ∧ (d.files.length : ℤ) < cfg.maxFiles ∧
        ⟨d.files ++ [file x w a role media], d.total + a.bytes⟩ = e := by
  simp only [Draft.add, bind_eq_ok, ensure_eq_ok, decide_eq_true_eq, pure_eq_ok, exists_const]

theorem collect_eq_ok {t u : Tally} {a : ReportedArtifact} :
    collect x w cfg catalog outputs t a = .ok u ↔
      ∃ i, declaredBy outputs a.path = some i ∧
        (limit outputs i ≤ 0 ∨ a.bytes ≤ limit outputs i - t.sizes i) ∧
        ∃ listed, byPath catalog (outputPath a.path) = some listed ∧
          (listed.bytes = a.bytes ∧ listed.sha256 = a.sha256) ∧
          ∃ d, t.draft.add x w cfg listed .output (a.mediaType.getD "") = .ok d ∧
            ⟨d, Function.update t.counts i (t.counts i + 1),
              Function.update t.sizes i (t.sizes i + a.bytes)⟩ = u := by
  simp only [collect, bind_eq_ok, ensure_eq_ok, expect_eq_ok, decide_eq_true_eq, pure_eq_ok,
    Bool.or_eq_true, Bool.and_eq_true, exists_const]

/-- The sum and the count are those of the files, and within the limits. -/
structure Fits (cfg : Config) (d : Draft) : Prop where
  total : d.total = (d.files.map fun f => f.object.bytes).sum
  bytes : d.total ≤ cfg.maxBytes
  files : (d.files.length : ℤ) ≤ cfg.maxFiles

/-- A file taken from its catalog entry. -/
def Taken (x : Reader) (w : Work) (catalog : List Artifact) (f : File) : Prop :=
  ∃ a role media, byPath catalog f.path = some a ∧ f = file x w a role media

theorem Fits.add {d e : Draft} {a : Artifact} {role : Role} {media : String} (h : Fits cfg d)
    (he : d.add x w cfg a role media = .ok e) : Fits cfg e := by
  obtain ⟨hbytes, hfiles, rfl⟩ := Draft.add_eq_ok.mp he
  refine ⟨?_, ?_, ?_⟩
  · simp [h.total, file]
  · show d.total + a.bytes ≤ cfg.maxBytes
    omega
  · show ((d.files ++ [file x w a role media]).length : ℤ) ≤ cfg.maxFiles
    rw [List.length_append, List.length_singleton, Nat.cast_add, Nat.cast_one]
    omega

theorem taken_add {d e : Draft} {a : Artifact} {role : Role} {media path : String}
    (h : ∀ f ∈ d.files, Taken x w catalog f) (ha : byPath catalog path = some a)
    (he : d.add x w cfg a role media = .ok e) : ∀ f ∈ e.files, Taken x w catalog f := by
  obtain ⟨-, -, rfl⟩ := Draft.add_eq_ok.mp he
  intro f hf
  rcases List.mem_append.mp hf with hf | hf
  · exact h f hf
  · rw [List.mem_singleton.mp hf]
    refine ⟨a, role, media, ?_, rfl⟩
    show byPath catalog a.path = some a
    rw [byPath_path ha, ha]

/-! ### The artifacts of the result -/

/-- The artifacts an entry of the specification declares. -/
def share (outputs : List Output) (done : List ReportedArtifact) (i : ℕ) : List ReportedArtifact :=
  done.filter fun a => declaredBy outputs a.path = some i

theorem share_concat (done : List ReportedArtifact) (a : ReportedArtifact) (i : ℕ) :
    share outputs (done ++ [a]) i =
      share outputs done i ++ if declaredBy outputs a.path = some i then [a] else [] := by
  unfold share
  rw [List.filter_append, List.filter_singleton]
  by_cases h : declaredBy outputs a.path = some i
  · simp [h]
  · simp [h]

/-- What holds when the artifacts `done` have been matched. -/
structure Collected (x : Reader) (w : Work) (cfg : Config) (catalog : List Artifact)
    (outputs : List Output) (done : List ReportedArtifact) (t : Tally) : Prop where
  fits : Fits cfg t.draft
  taken : ∀ f ∈ t.draft.files, Taken x w catalog f
  paths : t.draft.files.map (·.path) = manifestPath :: done.map fun a => outputPath a.path
  entries : ∀ a ∈ done, ∃ f ∈ t.draft.files, f.path = outputPath a.path ∧
    f.object.bytes = a.bytes ∧ f.object.sha256 = a.sha256
  declared : ∀ a ∈ done, ∃ i, declaredBy outputs a.path = some i
  counts : ∀ i, t.counts i = (share outputs done i).length
  sizes : ∀ i, t.sizes i = ((share outputs done i).map fun a => a.bytes).sum
  within : ∀ i, 0 < limit outputs i → t.sizes i ≤ limit outputs i

theorem Collected.collect {done : List ReportedArtifact} {t u : Tally} {a : ReportedArtifact}
    (h : Collected x w cfg catalog outputs done t)
    (hu : collect x w cfg catalog outputs t a = .ok u) :
    Collected x w cfg catalog outputs (done ++ [a]) u := by
  obtain ⟨i, hi, hlimit, listed, hlisted, ⟨hbytes, hsha⟩, d, hd, rfl⟩ := collect_eq_ok.mp hu
  have hfiles : d.files = t.draft.files ++ [file x w listed .output (a.mediaType.getD "")] := by
    obtain ⟨-, -, rfl⟩ := Draft.add_eq_ok.mp hd
    rfl
  have hpath : listed.path = outputPath a.path := byPath_path hlisted
  refine ⟨h.fits.add hd, taken_add h.taken hlisted hd, ?_, ?_, ?_, ?_, ?_, ?_⟩
  · rw [hfiles, List.map_append, h.paths, List.map_append, List.cons_append]
    simp [file, hpath]
  · intro b hb
    rw [hfiles]
    rcases List.mem_append.mp hb with hb | hb
    · obtain ⟨f, hf, hrest⟩ := h.entries b hb
      exact ⟨f, List.mem_append_left _ hf, hrest⟩
    · rw [List.mem_singleton.mp hb]
      exact ⟨_, List.mem_append_right _ (List.mem_singleton_self _), hpath, hbytes, hsha⟩
  · intro b hb
    rcases List.mem_append.mp hb with hb | hb
    · exact h.declared b hb
    · rw [List.mem_singleton.mp hb]
      exact ⟨i, hi⟩
  · intro j
    rw [share_concat]
    by_cases hj : i = j
    · subst hj
      simp [h.counts, hi]
    · simp [hj, Ne.symm hj, h.counts, hi]
  · intro j
    rw [share_concat]
    by_cases hj : i = j
    · subst hj
      simp [h.sizes, hi]
    · simp [hj, Ne.symm hj, h.sizes, hi]
  · intro j hpos
    by_cases hj : i = j
    · subst hj
      have := hlimit.resolve_left (not_le.mpr hpos)
      simp only [Function.update_self]
      omega
    · simpa [Ne.symm hj] using h.within j hpos

/-! ### The control files -/

/-- The control files that the catalog lists. -/
def listedControls (catalog : List Artifact) (done : List ControlFile) : List String :=
  (done.filter fun c => (byPath catalog c.path).isSome).map (·.path)

/-- What holds when the control files `done` have been looked up after `before` had been drafted. -/
structure Controlled (x : Reader) (w : Work) (cfg : Config) (catalog : List Artifact)
    (before : Draft) (done : List ControlFile) (d : Draft) : Prop where
  fits : Fits cfg d
  taken : ∀ f ∈ d.files, Taken x w catalog f
  kept : before.files ⊆ d.files
  paths : d.files.map (·.path) = before.files.map (·.path) ++ listedControls catalog done

theorem Controlled.addControl {before d e : Draft} {done : List ControlFile} {c : ControlFile}
    (h : Controlled x w cfg catalog before done d)
    (he : addControl x w cfg catalog d c = .ok e) :
    Controlled x w cfg catalog before (done ++ [c]) e := by
  have hconcat : listedControls catalog (done ++ [c]) =
      listedControls catalog done ++ if (byPath catalog c.path).isSome then [c.path] else [] := by
    unfold listedControls
    rw [List.filter_append, List.map_append, List.filter_singleton]
    cases (byPath catalog c.path).isSome
    · rfl
    · rfl
  unfold Collection.addControl at he
  split at he
  · next hnone =>
    rw [pure_eq_ok] at he
    subst he
    refine ⟨h.fits, h.taken, h.kept, ?_⟩
    rw [hconcat, hnone, h.paths]
    simp
  · next a ha =>
    simp only [bind_eq_ok, ensure_eq_ok] at he
    obtain ⟨-, -, hadd⟩ := he
    have hfits := h.fits.add hadd
    have htaken := taken_add h.taken ha hadd
    obtain ⟨-, -, rfl⟩ := Draft.add_eq_ok.mp hadd
    refine ⟨hfits, htaken, fun f hf => List.mem_append_left _ (h.kept hf), ?_⟩
    rw [hconcat, ha, List.map_append, h.paths, List.append_assoc]
    simp [file, byPath_path ha]

/-! ### The whole build -/

theorem buildSnapshot_eq_ok {raw : String} {s : Snapshot} :
    buildSnapshot x w raw catalog cfg = .ok s ↔
      cfg.valid = true ∧ (catalog.length : ℤ) ≤ cfg.maxFiles ∧
      ∃ r, parseManifest x w raw = .ok r ∧
      (∀ a ∈ catalog, a.validate w.observation.remote = true) ∧
      collisionFree (catalog.map (·.path)) = true ∧
      ∃ control, byPath catalog manifestPath = some control ∧
      (control.bytes = raw.utf8ByteSize ∧ control.sha256 = x.codec.digest raw) ∧
      ∃ d, Draft.add x w cfg ⟨[], 0⟩ control .manifest "application/json" = .ok d ∧
      ∃ t, r.1.artifacts.foldlM (collect x w cfg catalog r.2.outputs)
        ⟨d, fun _ => 0, fun _ => 0⟩ = .ok t ∧
      collisionFree (r.1.artifacts.map (·.path)) = true ∧
      (¬ r.1.phase = .completed ∨ present r.2.outputs t.counts = true) ∧
      ∃ e, controlFiles.foldlM (addControl x w cfg catalog) t.draft = .ok e ∧
      validSHA256Digest (Snapshot.digest x ⟨raw, KeySort.sortBy (·.path) e.files⟩) = true ∧
      ⟨raw, KeySort.sortBy (·.path) e.files⟩ = s := by
  simp only [buildSnapshot, bind_eq_ok, ensure_eq_ok, expect_eq_ok, pure_eq_ok, decide_eq_true_eq,
    List.all_eq_true, Bool.and_eq_true, Bool.or_eq_true, exists_const, ne_eq, decide_not,
    Bool.not_eq_true', decide_eq_false_iff_not]

/-- The paths of a snapshot. -/
def selectedPaths (m : ResultDocument) (catalog : List Artifact) : List String :=
  manifestPath :: (m.artifacts.map fun a => outputPath a.path) ++
    listedControls catalog controlFiles

/-- What a published snapshot holds. -/
structure Published (x : Reader) (w : Work) (cfg : Config) (catalog : List Artifact)
    (m : ResultDocument) (spec : Spec) (files : List File) : Prop where
  paths : (files.map (·.path)).Perm (selectedPaths m catalog)
  taken : ∀ f ∈ files, Taken x w catalog f
  entries : ∀ a ∈ m.artifacts, ∃ f ∈ files, f.path = outputPath a.path ∧
    f.object.bytes = a.bytes ∧ f.object.sha256 = a.sha256
  declared : ∀ a ∈ m.artifacts, ∃ i, declaredBy spec.outputs a.path = some i
  within : ∀ i, 0 < limit spec.outputs i →
    ((share spec.outputs m.artifacts i).map fun a => a.bytes).sum ≤ limit spec.outputs i
  bytes : (files.map fun f => f.object.bytes).sum ≤ cfg.maxBytes
  count : (files.length : ℤ) ≤ cfg.maxFiles
  required : m.phase = .completed → ∀ i o, spec.outputs[i]? = some o → o.required = true →
    ∃ a ∈ m.artifacts, declaredBy spec.outputs a.path = some i

theorem fits_nil (h : cfg.valid = true) : Fits cfg ⟨[], 0⟩ := by
  simp only [Config.valid, Bool.and_eq_true, decide_eq_true_eq] at h
  refine ⟨rfl, ?_, ?_⟩
  · show (0 : ℤ) ≤ cfg.maxBytes
    omega
  · show ((0 : ℕ) : ℤ) ≤ cfg.maxFiles
    omega

theorem published {raw : String} {s : Snapshot}
    (h : buildSnapshot x w raw catalog cfg = .ok s) :
    ∃ r, parseManifest x w raw = .ok r ∧ Published x w cfg catalog r.1 r.2 s.files := by
  obtain ⟨hcfg, -, r, hr, -, -, control, hcontrol, -, d, hd, t, ht, -, hrequired, e, he, -, rfl⟩ :=
    buildSnapshot_eq_ok.mp h
  refine ⟨r, hr, ?_⟩
  have hfirst : Collected x w cfg catalog r.2.outputs [] ⟨d, fun _ => 0, fun _ => 0⟩ := by
    refine ⟨(fits_nil hcfg).add hd, taken_add (fun f hf => absurd hf List.not_mem_nil) hcontrol hd,
      ?_, nofun, nofun, fun _ => rfl, fun _ => rfl, fun i hpos => hpos.le⟩
    obtain ⟨-, -, rfl⟩ := Draft.add_eq_ok.mp hd
    simp [file, byPath_path hcontrol]
  have hall : Collected x w cfg catalog r.2.outputs r.1.artifacts t :=
    foldlM_along (P := Collected x w cfg catalog r.2.outputs) hfirst
      (fun done a s u _ hs hu => hs.collect hu) ht
  have hlast : Controlled x w cfg catalog t.draft controlFiles e :=
    foldlM_along (P := Controlled x w cfg catalog t.draft)
      ⟨hall.fits, hall.taken, List.Subset.refl _, (List.append_nil _).symm⟩
      (fun done c d e _ hd he => hd.addControl he) he
  have hperm : (KeySort.sortBy (·.path) e.files).Perm e.files := KeySort.sortBy_perm _ _
  refine ⟨?_, fun f hf => hlast.taken f (hperm.mem_iff.mp hf), ?_, hall.declared, ?_, ?_, ?_, ?_⟩
  · refine (hperm.map _).trans ?_
    rw [hlast.paths, hall.paths]
    exact List.Perm.refl _
  · intro a ha
    obtain ⟨f, hf, hrest⟩ := hall.entries a ha
    exact ⟨f, hperm.mem_iff.mpr (hlast.kept hf), hrest⟩
  · intro i hpos
    rw [← hall.sizes]
    exact hall.within i hpos
  · rw [(hperm.map _).sum_eq, ← hlast.fits.total]
    exact hlast.fits.bytes
  · rw [hperm.length_eq]
    exact hlast.fits.files
  · intro hphase i o ho hreq
    have hpresent := hrequired.resolve_left (not_not.mpr hphase)
    simp only [present, List.all_eq_true] at hpresent
    have hi := hpresent (o, i) (List.mem_zipIdx_iff_getElem?.mpr ho)
    simp only [hreq, Bool.not_true, Bool.false_or, hall.counts, decide_eq_true_eq, ne_eq,
      List.length_eq_zero_iff] at hi
    obtain ⟨a, ha⟩ := List.exists_mem_of_ne_nil _ hi
    obtain ⟨hmem, hdeclared⟩ := List.mem_filter.mp ha
    exact ⟨a, hmem, of_decide_eq_true hdeclared⟩

/-! ### Building it again -/

theorem outputPath_injective : Function.Injective outputPath := by
  intro p q h
  have hlist := congrArg String.toList h
  rw [outputPath, outputPath, String.toList_append, String.toList_append,
    List.append_cancel_left_eq] at hlist
  exact String.toList_inj.mp hlist

/-- An output is not a control file. -/
theorem outputPath_ne {p q : String} (hq : q.toList.head? = some 'c') : outputPath p ≠ q := by
  rintro rfl
  rw [outputPath, String.toList_append] at hq
  simp at hq

theorem nodup_selectedPaths {m : ResultDocument}
    (h : collisionFree (m.artifacts.map (·.path)) = true) : (selectedPaths m catalog).Nodup := by
  have hcontrols : (listedControls catalog controlFiles).Sublist (controlFiles.map (·.path)) :=
    List.filter_sublist.map _
  have hheads : ∀ q ∈ listedControls catalog controlFiles,
      q.toList.head? = some 'c' ∧ q ≠ manifestPath := by
    intro q hq
    have hall : ∀ q ∈ controlFiles.map (·.path), q.toList.head? = some 'c' ∧ q ≠ manifestPath := by
      simp [controlFiles, manifestPath]
    exact hall q (hcontrols.subset hq)
  have houtputs : (m.artifacts.map fun a => outputPath a.path).Nodup := by
    have hpaths := (nodup_of_collisionFree h).map outputPath_injective
    rwa [List.map_map] at hpaths
  unfold selectedPaths
  rw [List.nodup_append]
  refine ⟨List.nodup_cons.mpr ⟨?_, houtputs⟩, hcontrols.nodup (by simp [controlFiles]), ?_⟩
  · intro hmem
    obtain ⟨a, -, ha⟩ := List.mem_map.mp hmem
    exact outputPath_ne (by simp [manifestPath]) ha
  · rintro p hp q hq rfl
    rcases List.mem_cons.mp hp with rfl | hp
    · exact (hheads _ hq).2 rfl
    · obtain ⟨a, -, ha⟩ := List.mem_map.mp hp
      exact outputPath_ne (hheads p hq).1 ha

/-- The catalog entry of a file is found under its path. -/
theorem Taken.artifact {f : File} (hremote : ∀ a ∈ catalog, a.validate w.observation.remote = true)
    (h : Taken x w catalog f) : byPath catalog f.path = some (f.artifact w) := by
  obtain ⟨a, role, media, ha, rfl⟩ := h
  have hvalid := hremote a (mem_of_byPath ha)
  simp only [Artifact.validate, Bool.and_eq_true, decide_eq_true_eq] at hvalid
  have hsame : a = ⟨w.observation.remote, a.path, a.bytes, a.sha256⟩ := by
    rw [← hvalid.1.1.1.2]
  rw [ha]
  exact congrArg some hsame

theorem validOpaqueID_artifact {digest : String} (h : validSHA256Digest digest = true) :
    validOpaqueID ("art_" ++ digest) = true := by
  simp only [validSHA256Digest, Bool.and_eq_true, decide_eq_true_eq] at h
  have hbytes : bytes ("art_" ++ digest) = [97, 114, 116, 95] ++ bytes digest := by
    rw [bytes_append]
    rfl
  have hsize : ("art_" ++ digest).utf8ByteSize = 68 := by
    rw [String.utf8ByteSize_append, h.1]
    rfl
  have hrest : ∀ b ∈ bytes digest,
      (letter b || digit b || b = 45 || b = 95 || b = 46 || b = 58) = true := by
    intro b hb
    have hhex := List.all_eq_true.mp h.2 b hb
    simp only [Bool.or_eq_true, Bool.and_eq_true, decide_eq_true_eq] at hhex
    rcases hhex with hdigit | ⟨hlow, hhigh⟩
    · simp [hdigit]
    · have hletter : letter b = true := by
        simp only [letter, Bool.or_eq_true, Bool.and_eq_true, decide_eq_true_eq]
        exact .inl ⟨hlow, UInt8.le_trans hhigh (by decide)⟩
      simp [hletter]
  unfold validOpaqueID
  rw [hbytes, hsize]
  simp only [List.cons_append, List.nil_append, List.all_cons]
  rw [List.all_eq_true.mpr hrest]
  decide

theorem Taken.object_valid {f : File} (hw : w.valid x.codec = true)
    (hremote : ∀ a ∈ catalog, a.validate w.observation.remote = true) (h : Taken x w catalog f) :
    f.object.valid = true ∧ f.object.workspaceID = w.lease.workspaceID := by
  obtain ⟨a, role, media, ha, rfl⟩ := h
  have hvalid := hremote a (mem_of_byPath ha)
  simp only [Artifact.validate, Bool.and_eq_true, decide_eq_true_eq] at hvalid
  have hworkspace : validOpaqueID w.lease.workspaceID = true := by
    simp only [Work.valid, Lease.valid, Bool.and_eq_true] at hw
    tauto
  refine ⟨?_, rfl⟩
  simp only [file, fileIdentity, ObjectMetadata.valid, Bool.and_eq_true]
  exact ⟨⟨⟨validOpaqueID_artifact (x.hex _), hworkspace⟩, decide_eq_true hvalid.1.2⟩, hvalid.2⟩

/-- An entry is found among the chosen ones exactly if it was chosen. -/
theorem byPath_chosen {files : List File} (hnodup : (files.map (·.path)).Nodup)
    (htaken : ∀ f ∈ files, byPath catalog f.path = some (f.artifact w)) (path : String) :
    byPath (files.map (File.artifact w)) path =
      if path ∈ files.map (·.path) then byPath catalog path else none := by
  have hpaths : (files.map (File.artifact w)).map (·.path) = files.map (·.path) := by
    rw [List.map_map]
    rfl
  split
  · next hmem =>
    obtain ⟨f, hf, rfl⟩ := List.mem_map.mp hmem
    rw [htaken f hf]
    exact byPath_of_mem (a := f.artifact w) (hpaths ▸ hnodup) (List.mem_map_of_mem hf)
  · next hmem =>
    refine List.find?_eq_none.mpr fun a ha heq => hmem ?_
    rw [← hpaths]
    exact List.mem_map.mpr ⟨a, ha, of_decide_eq_true heq⟩

/-- A step that succeeds also succeeds with a catalog that answers as before and larger limits. -/
theorem Draft.add_follow {cfg' : Config} {d e : Draft} {a : Artifact} {role : Role} {media : String}
    (hbytes : cfg.maxBytes ≤ cfg'.maxBytes) (hfiles : cfg.maxFiles ≤ cfg'.maxFiles)
    (h : d.add x w cfg a role media = .ok e) : d.add x w cfg' a role media = .ok e := by
  obtain ⟨hb, hf, he⟩ := Draft.add_eq_ok.mp h
  refine Draft.add_eq_ok.mpr ⟨?_, ?_, he⟩
  · omega
  · omega

theorem collect_follow {cfg' : Config} {catalog' : List Artifact} {t u : Tally}
    {a : ReportedArtifact} (hbytes : cfg.maxBytes ≤ cfg'.maxBytes)
    (hfiles : cfg.maxFiles ≤ cfg'.maxFiles)
    (hsame : byPath catalog' (outputPath a.path) = byPath catalog (outputPath a.path))
    (h : collect x w cfg catalog outputs t a = .ok u) :
    collect x w cfg' catalog' outputs t a = .ok u := by
  obtain ⟨i, hi, hlimit, listed, hlisted, hequal, d, hd, hu⟩ := collect_eq_ok.mp h
  exact collect_eq_ok.mpr ⟨i, hi, hlimit, listed, hsame.trans hlisted, hequal, d,
    Draft.add_follow hbytes hfiles hd, hu⟩

theorem addControl_follow {cfg' : Config} {catalog' : List Artifact} {d e : Draft}
    {c : ControlFile} (hbytes : cfg.maxBytes ≤ cfg'.maxBytes)
    (hfiles : cfg.maxFiles ≤ cfg'.maxFiles)
    (hsame : byPath catalog' c.path = byPath catalog c.path)
    (h : addControl x w cfg catalog d c = .ok e) : addControl x w cfg' catalog' d c = .ok e := by
  unfold addControl at h ⊢
  rw [hsame]
  split at h
  · exact h
  · simp only [bind_eq_ok] at h ⊢
    obtain ⟨u, hmax, hadd⟩ := h
    exact ⟨u, hmax, Draft.add_follow hbytes hfiles hadd⟩

/-- A valid configuration stays below the default limits. -/
theorem Config.valid_le (h : cfg.valid = true) :
    cfg.maxBytes ≤ defaultConfig.maxBytes ∧ cfg.maxFiles ≤ defaultConfig.maxFiles := by
  simp only [Config.valid, Bool.and_eq_true, decide_eq_true_eq] at h
  exact ⟨h.1.1.1.1.1.1.1.1.2, h.1.1.1.1.1.1.2⟩

theorem defaultConfig_valid : defaultConfig.valid = true := by decide

/-- **The selected files alone, under the default limits, give the same snapshot.** -/
theorem buildSnapshot_rebuilt {raw : String} {s : Snapshot}
    (h : buildSnapshot x w raw catalog cfg = .ok s) :
    buildSnapshot x w raw (s.files.map (File.artifact w)) defaultConfig = .ok s := by
  obtain ⟨r, hr, hpublished⟩ := published h
  obtain ⟨hcfg, -, r', hr', hremote, hfree, control, hcontrol, hraw, d, hd, t, ht, hartifacts,
    hrequired, e, he, hdigest, hs⟩ := buildSnapshot_eq_ok.mp h
  obtain rfl : r' = r := Except.ok.inj (hr'.symm.trans hr)
  obtain ⟨hbytes, hfiles⟩ := Config.valid_le hcfg
  have hnodup : (s.files.map (·.path)).Nodup :=
    hpublished.paths.nodup_iff.mpr (nodup_selectedPaths hartifacts)
  have htaken : ∀ f ∈ s.files, byPath catalog f.path = some (f.artifact w) :=
    fun f hf => (hpublished.taken f hf).artifact hremote
  have hchosen : ∀ a ∈ s.files.map (File.artifact w), a ∈ catalog := by
    intro a ha
    obtain ⟨f, hf, rfl⟩ := List.mem_map.mp ha
    exact mem_of_byPath (htaken f hf)
  -- the lookups of the build: each finds what it found in the whole catalog
  have hlookup : ∀ path ∈ selectedPaths r'.1 catalog,
      byPath (s.files.map (File.artifact w)) path = byPath catalog path := by
    intro path hpath
    rw [byPath_chosen hnodup htaken, if_pos (hpublished.paths.mem_iff.mpr hpath)]
  have hcontrols : ∀ c ∈ controlFiles,
      byPath (s.files.map (File.artifact w)) c.path = byPath catalog c.path := by
    intro c hc
    by_cases hlisted : (byPath catalog c.path).isSome = true
    · refine hlookup c.path (List.mem_append_right _ ?_)
      exact List.mem_map_of_mem (List.mem_filter.mpr ⟨hc, hlisted⟩)
    · rw [byPath_chosen hnodup htaken]
      split
      · rfl
      · exact (Option.not_isSome_iff_eq_none.mp hlisted).symm
  have hcount : ((s.files.map (File.artifact w)).length : ℤ) ≤ defaultConfig.maxFiles := by
    rw [List.length_map]
    exact le_trans hpublished.count hfiles
  have hsubset : (s.files.map (File.artifact w)).map (·.path) ⊆ catalog.map (·.path) := by
    intro p hp
    obtain ⟨a, ha, rfl⟩ := List.mem_map.mp hp
    exact List.mem_map_of_mem (hchosen a ha)
  have hpaths : (s.files.map (File.artifact w)).map (·.path) = s.files.map (·.path) := by
    rw [List.map_map]
    rfl
  refine buildSnapshot_eq_ok.mpr ⟨defaultConfig_valid, hcount, r', hr,
    fun a ha => hremote a (hchosen a ha), ?_, control, ?_, hraw, d,
    Draft.add_follow hbytes hfiles hd, t, ?_, hartifacts, hrequired, e, ?_, hdigest, hs⟩
  · exact collisionFree_of_subset hfree hsubset (hpaths ▸ hnodup)
  · rw [hlookup manifestPath (List.mem_cons_self ..), hcontrol]
  · refine foldlM_follow (fun t a u ha hu => collect_follow hbytes hfiles (hlookup _ ?_) hu) ht
    exact List.mem_append_left _ (List.mem_cons_of_mem _ (List.mem_map_of_mem ha))
  · exact foldlM_follow (fun d c e hc => addControl_follow hbytes hfiles (hcontrols c hc)) he

/-- The work item of a build that succeeds is valid, and the result is small enough. -/
theorem parseManifest_ok {raw : String} {r : ResultDocument × Spec}
    (h : parseManifest x w raw = .ok r) :
    w.valid x.codec = true ∧ raw.utf8ByteSize ≤ maxManifestBytes := by
  simp only [parseManifest, bind_eq_ok, ensure_eq_ok] at h
  obtain ⟨-, hvalid, m, hm, -⟩ := h
  refine ⟨hvalid, ?_⟩
  cases hparsed : parseResult x.result w.plan.job.identity raw with
  | error e =>
    rw [hparsed] at hm
    cases hm
  | ok d => exact parseResult_size hparsed

theorem validateSnapshot_of_build {raw : String} {s : Snapshot}
    (h : buildSnapshot x w raw catalog cfg = .ok s) : validateSnapshot x w s = .ok () := by
  obtain ⟨r, hr, hpublished⟩ := published h
  have hrebuilt := buildSnapshot_rebuilt h
  obtain ⟨hcfg, -, -, -, hremote, -, -, -, -, -, -, -, -, -, -, e, -, hdigest, rfl⟩ :=
    buildSnapshot_eq_ok.mp h
  obtain ⟨hw, hsize⟩ := parseManifest_ok hr
  have hne : (KeySort.sortBy (·.path) e.files).length ≠ 0 := by
    intro hzero
    have hlength := hpublished.paths.length_eq
    rw [List.length_map, hzero] at hlength
    simp [selectedPaths] at hlength
  have hcount := le_trans hpublished.count (Config.valid_le hcfg).2
  simp only [validateSnapshot, bind_eq_ok, ensure_eq_ok]
  refine ⟨(), ?_, (), ?_, ⟨raw, KeySort.sortBy (·.path) e.files⟩, ?_, decide_eq_true rfl⟩
  · simp only [Bool.and_eq_true, decide_eq_true_eq]
    exact ⟨⟨⟨hne, hcount⟩, hsize⟩, hdigest⟩
  · rw [List.all_eq_true]
    intro f hf
    have hobject := (hpublished.taken f hf).object_valid hw hremote
    rw [Bool.and_eq_true, decide_eq_true_eq]
    exact hobject
  · rw [hrebuilt]
    rfl

end Build

/-- **A published snapshot is exactly the declared, verified result.** Its files are the result
manifest, the artifacts it lists and the control files of the catalog, in the order of their paths;
bytes and digests are those of the catalog and of the result; each artifact counts towards the first
entry of the specification that declares it, and no entry is exceeded; the limits hold; a completed
result has every required output; and the snapshot validates for the same work. -/
theorem snapshot_is_result (x : Reader) (w : Work) (raw : String) (catalog : List Artifact)
    (cfg : Config) (s : Snapshot) (h : buildSnapshot x w raw catalog cfg = .ok s) :
    ∃ m spec, parseManifest x w raw = .ok (m, spec) ∧ s.manifest = raw ∧
      (∀ path, path ∈ s.files.map (·.path) ↔
        path = manifestPath ∨ (∃ a ∈ m.artifacts, path = outputPath a.path) ∨
          path ∈ controlFiles.map (·.path) ∧ ∃ a ∈ catalog, a.path = path) ∧
      s.files.Pairwise (fun f g => f.path < g.path) ∧
      (∀ f ∈ s.files, ∃ a ∈ catalog, a.path = f.path ∧ a.bytes = f.object.bytes ∧
        a.sha256 = f.object.sha256) ∧
      (∀ f ∈ s.files, f.path = manifestPath → f.object.bytes = raw.utf8ByteSize ∧
        f.object.sha256 = x.codec.digest raw) ∧
      (∀ a ∈ m.artifacts, ∀ f ∈ s.files, f.path = outputPath a.path →
        f.object.bytes = a.bytes ∧ f.object.sha256 = a.sha256) ∧
      (∀ a ∈ m.artifacts, ∃ i o, declaredBy spec.outputs a.path = some i ∧
        spec.outputs[i]? = some o ∧ declares o a.path = true) ∧
      (∀ i, 0 < limit spec.outputs i →
        ((share spec.outputs m.artifacts i).map fun a => a.bytes).sum ≤ limit spec.outputs i) ∧
      (s.files.map fun f => f.object.bytes).sum ≤ cfg.maxBytes ∧
      (s.files.length : ℤ) ≤ cfg.maxFiles ∧
      (m.phase = .completed → ∀ i o, spec.outputs[i]? = some o → o.required = true →
        ∃ f ∈ s.files, ∃ a ∈ m.artifacts, f.path = outputPath a.path ∧
          declaredBy spec.outputs a.path = some i) ∧
      validateSnapshot x w s = .ok () := by
  obtain ⟨r, hr, hp⟩ := published h
  obtain ⟨-, -, r', hr', hremote, hfree, control, hcontrol, hraw, -, -, -, -,
    hartifacts, -, e, -, -, hs⟩ := buildSnapshot_eq_ok.mp h
  obtain rfl : r' = r := Except.ok.inj (hr'.symm.trans hr)
  have hnodup : (s.files.map (·.path)).Nodup :=
    hp.paths.nodup_iff.mpr (nodup_selectedPaths hartifacts)
  -- a path names one file
  have hunique : ∀ f ∈ s.files, ∀ g ∈ s.files, f.path = g.path → f = g :=
    fun f hf g hg => List.inj_on_of_nodup_map hnodup hf hg
  refine ⟨r'.1, r'.2, hr, ?_, ?_, ?_, ?_, ?_, ?_, ?_, hp.within, hp.bytes, hp.count, ?_,
    validateSnapshot_of_build h⟩
  · rw [← hs]
  · intro path
    rw [hp.paths.mem_iff, selectedPaths, List.mem_append, List.mem_cons, or_assoc]
    refine or_congr Iff.rfl (or_congr ?_ ?_)
    · rw [List.mem_map]
      exact exists_congr fun a => and_congr_right fun _ => eq_comm
    · unfold listedControls
      rw [List.mem_map, List.mem_map]
      constructor
      · rintro ⟨c, hc, rfl⟩
        obtain ⟨hmem, hsome⟩ := List.mem_filter.mp hc
        obtain ⟨a, ha⟩ := Option.isSome_iff_exists.mp hsome
        exact ⟨⟨c, hmem, rfl⟩, a, mem_of_byPath ha, byPath_path ha⟩
      · rintro ⟨⟨c, hc, rfl⟩, a, ha, hpath⟩
        have hfound := byPath_of_mem (nodup_of_collisionFree hfree) ha
        rw [hpath] at hfound
        exact ⟨c, List.mem_filter.mpr ⟨hc, by rw [hfound]; rfl⟩, rfl⟩
  · have hsorted := KeySort.pairwise_sortBy File.path e.files
    have hfiles : KeySort.sortBy (·.path) e.files = s.files := congrArg Snapshot.files hs
    rw [hfiles] at hsorted
    exact KeySort.increasing_of_nodup File.path hsorted hnodup
  · intro f hf
    have hfound := (hp.taken f hf).artifact hremote
    exact ⟨f.artifact w, mem_of_byPath hfound, rfl, rfl, rfl⟩
  · intro f hf hpath
    have hfound := (hp.taken f hf).artifact hremote
    rw [hpath, hcontrol, Option.some.injEq] at hfound
    rw [hfound] at hraw
    exact hraw
  · intro a ha f hf hpath
    obtain ⟨g, hg, hgpath, hequal⟩ := hp.entries a ha
    rw [hunique f hf g hg (hpath.trans hgpath.symm)]
    exact hequal
  · intro a ha
    obtain ⟨i, hi⟩ := hp.declared a ha
    obtain ⟨hlt, hdeclares, -⟩ := List.findIdx?_eq_some_iff_getElem.mp hi
    exact ⟨i, r'.2.outputs[i], hi, List.getElem?_eq_getElem hlt, hdeclares⟩
  · intro hphase i o ho hreq
    obtain ⟨a, ha, hdeclared⟩ := hp.required hphase i o ho hreq
    obtain ⟨f, hf, hpath, -⟩ := hp.entries a ha
    exact ⟨f, hf, a, ha, hpath, hdeclared⟩

/-! A result with one output, collected with an unselected file in the catalog. -/

def sampleSpec : Spec where
  apiVersion := Admission.apiVersion
  name := "job"
  profile := "default"
  bundle := ⟨"bundle", none⟩
  execution := { kind := .python, command := ["python", "main.py"] }
  inputs := []
  outputs := [{ path := "result", required := true, maxBytes := some 5 }]
  resources := { accelerator := .cpu }
  network := .disabled
  timeouts := { remoteWallSeconds := 600, setupSeconds := 60, finalizationGraceSeconds := 60 }

def sampleResult : ResultDocument where
  manifestVersion := "1"
  jobID := "job"
  attemptID := "attempt"
  attemptNonce := "0123456789abcdef"
  runnerVersion := "0.1.0"
  bundleSHA256 := Dispatch.emptyObjectSHA256
  inputManifestSHA256 := Dispatch.emptyListSHA256
  startedAt := 0
  finishedAt := 1
  phase := .completed
  exitCode := some 0
  timedOut := false
  resourceCheck := { gpuRequired := false, gpuVerified := false }
  artifacts := [{ path := "result", bytes := 2, sha256 := Dispatch.emptyObjectSHA256 }]
  error := none

/-- Every text has the same digest. -/
def sampleReader : Reader where
  codec := { Dispatch.sampleCodec.toCodec with digest := fun _ => Dispatch.emptyObjectSHA256 }
  hex := by
    intro text
    show validSHA256Digest Dispatch.emptyObjectSHA256 = true
    decide
  spec _ := some sampleSpec
  result _ := some sampleResult

def sampleWork : Work where
  lease := ⟨"workspace", "job", "attempt", "operation", 1, Dispatch.emptyObjectSHA256, 6, 1⟩
  plan := { Dispatch.samplePlan with job := { Dispatch.samplePlan.job with inputs := none } }
  binding := ⟨⟨"fixture", "instance", "revision"⟩, "account", ""⟩
  observation :=
    { remote := Dispatch.sampleRemote
      execution := .succeeded
      rawState := "succeeded"
      remoteActivity := .inactive
      releaseEvidence := .providerReported
      observedAt := 0 }

def sampleArtifact (path : String) (bytes : ℤ) : Artifact :=
  ⟨Dispatch.sampleRemote, path, bytes, Dispatch.emptyObjectSHA256⟩

def sampleCatalog : List Artifact :=
  [sampleArtifact "scratch" 7, sampleArtifact "outputs/result" 2, sampleArtifact manifestPath 2]

def sampleFiles : List File :=
  [file sampleReader sampleWork (sampleArtifact manifestPath 2) .manifest "application/json",
   file sampleReader sampleWork (sampleArtifact "outputs/result" 2) .output ""]

theorem sampleFiles_sorted : KeySort.sortBy File.path sampleFiles = sampleFiles :=
  (KeySort.eq_sortBy File.path (by decide) (List.Perm.refl _) (by decide)).symm

theorem sampleArtifacts_free : collisionFree (sampleResult.artifacts.map (·.path)) = true :=
  (collisionFree_iff _).mpr ⟨by decide, List.pairwise_singleton ..⟩

theorem sample_parsed :
    parseManifest sampleReader sampleWork "\x7b\x7d" = .ok (sampleResult, sampleSpec) := by
  have hparsed : parseResult sampleReader.result sampleWork.plan.job.identity "\x7b\x7d" =
      .ok sampleResult := by
    simp only [parseResult, bind_eq_ok, ensure_eq_ok, expect_eq_ok, pure_eq_ok]
    exact ⟨(), by decide, sampleResult, rfl, (), by decide, (), by decide, (), by decide, (),
      by decide, (), sampleArtifacts_free, rfl⟩
  have hvalid : sampleWork.valid sampleReader.codec = true := by decide
  rw [parseManifest, hparsed, hvalid]
  rfl

theorem sample_built :
    buildSnapshot sampleReader sampleWork "\x7b\x7d" sampleCatalog defaultConfig =
    .ok ⟨"\x7b\x7d", sampleFiles⟩ := by
  have htoLower (s : String) : s.toLower.toList = s.toList.map Char.toLower := String.toList_map
  have hlower : (sampleCatalog.map (·.path)).map String.toLower = sampleCatalog.map (·.path) := by
    simp only [sampleCatalog, sampleArtifact, List.map_cons, List.map_nil, ← String.toList_inj,
      htoLower, List.cons.injEq]
    decide
  have hfree : collisionFree (sampleCatalog.map (·.path)) = true := by
    refine (collisionFree_iff _).mpr ⟨by decide, ?_⟩
    rw [hlower]
    unfold Ancestry.Apart Ancestry.Clear
    decide
  have hdigest : validSHA256Digest (Snapshot.digest sampleReader
      ⟨"\x7b\x7d", KeySort.sortBy (·.path) sampleFiles⟩) = true := by
    have hsize : Json.size Json.escapeHTML (Snapshot.toJson ⟨"\x7b\x7d", sampleFiles⟩) ≤
        maxSnapshotBytes := by decide +kernel
    rw [sampleFiles_sorted, Snapshot.digest, Json.utf8ByteSize_marshal, if_neg (not_lt.mpr hsize)]
    exact sampleReader.hex _
  exact buildSnapshot_eq_ok.mpr ⟨by decide, by decide, _, sample_parsed, by decide, hfree, _, rfl,
    by decide, _, rfl, _, rfl, sampleArtifacts_free, .inr (by decide),
      ⟨sampleFiles, 4⟩, rfl, hdigest,
    by rw [sampleFiles_sorted]⟩

theorem snapshot_is_result_sample :
    validateSnapshot sampleReader sampleWork ⟨"\x7b\x7d", sampleFiles⟩ = .ok () ∧
      ((sampleFiles.length : ℕ) : ℤ) ≤ defaultConfig.maxFiles := by
  obtain ⟨m, spec, -, -, -, -, -, -, -, -, -, -, hcount, -, hvalid⟩ :=
    snapshot_is_result sampleReader sampleWork "\x7b\x7d" sampleCatalog defaultConfig _ sample_built
  exact ⟨hvalid, hcount⟩

end Collection
end ComputeRelay
