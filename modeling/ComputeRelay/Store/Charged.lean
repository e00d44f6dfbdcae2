import Mathlib.Tactic
import ComputeRelay.Store.Charge

/-!
# An admission is charged what it reserved

The table of the charge after an admission is the table before it with the new reservations under
keys of their own (`Peaks.Adds`): no ledger row, no object of the scan and no other reservation
leads to the key of an inserted reservation. So every part of the charge grows by exactly what was
inserted.
-/

namespace ComputeRelay
namespace Store

open Domain Provider Scheduler Dispatch Fallible Peaks

/-! ### Checked sums -/

theorem addStorageCharge_eq_ok {a b c : ℤ} :
    addStorageCharge a b = .ok c ↔ 0 ≤ a ∧ 0 ≤ b ∧ a + b ≤ maxInt64 ∧ c = a + b := by
  simp only [addStorageCharge, bind_eq_ok, ensure_eq_ok, pure_eq_ok, decide_eq_true_eq]
  constructor
  · rintro ⟨-, ⟨ha, hb, hab⟩, rfl⟩
    exact ⟨ha, hb, by omega, rfl⟩
  · rintro ⟨ha, hb, hab, rfl⟩
    exact ⟨(), ⟨ha, hb, by omega⟩, rfl⟩

theorem foldlM_addStorageCharge {as : List ℤ} {a c : ℤ} (h : as.foldlM addStorageCharge a = .ok c) :
    c = a + as.sum ∧ (∀ x ∈ as, 0 ≤ x) ∧ (a ≤ maxInt64 → c ≤ maxInt64) := by
  induction as generalizing a with
  | nil =>
    obtain rfl : a = c := by simpa [pure, Except.pure] using h
    simp
  | cons b as ih =>
    rw [List.foldlM_cons, bind_eq_ok] at h
    obtain ⟨d, hd, h⟩ := h
    obtain ⟨ha, hb, hab, rfl⟩ := addStorageCharge_eq_ok.mp hd
    obtain ⟨rfl, hall, hle⟩ := ih h
    refine ⟨by rw [List.sum_cons]; ring, List.forall_mem_cons.mpr ⟨hb, hall⟩, fun _ => hle hab⟩

theorem foldlM_addStorageCharge_of {as : List ℤ} {a : ℤ} (ha : 0 ≤ a) (has : ∀ x ∈ as, 0 ≤ x)
    (hle : a + as.sum ≤ maxInt64) : as.foldlM addStorageCharge a = .ok (a + as.sum) := by
  induction as generalizing a with
  | nil => simp [pure, Except.pure]
  | cons b as ih =>
    obtain ⟨hb, has⟩ := List.forall_mem_cons.mp has
    have h0 : 0 ≤ as.sum := List.sum_nonneg has
    rw [List.sum_cons] at hle ⊢
    rw [List.foldlM_cons, addStorageCharge_eq_ok.mpr ⟨ha, hb, by omega, rfl⟩]
    refine (ih (by omega) has (by omega)).trans ?_
    rw [add_assoc]

/-- A checked sum is the sum, and it is there when the sum fits. -/
theorem sumStorageCharge_eq_ok {as : List ℤ} {c : ℤ} (has : ∀ x ∈ as, 0 ≤ x) :
    sumStorageCharge as = .ok c ↔ as.sum ≤ maxInt64 ∧ c = as.sum := by
  constructor
  · intro h
    obtain ⟨hc, -, hle⟩ := foldlM_addStorageCharge h
    rw [zero_add] at hc
    exact ⟨hc ▸ hle (by decide), hc⟩
  · rintro ⟨hle, rfl⟩
    have h := foldlM_addStorageCharge_of le_rfl has (by rwa [zero_add])
    rwa [zero_add] at h

theorem foldlM_addStorageCharge_error {as : List ℤ} {a : ℤ} {e : Err}
    (h : as.foldlM addStorageCharge a = .error e) : e = .corrupt := by
  induction as generalizing a with
  | nil => cases h
  | cons b as ih =>
    rw [List.foldlM_cons, bind_eq_error] at h
    rcases h with h | ⟨d, -, h⟩
    · simp only [addStorageCharge, ensure] at h
      split_ifs at h <;> cases h
      rfl
    · exact ih h

theorem sumStorageCharge_error {as : List ℤ} {e : Err} (h : sumStorageCharge as = .error e) :
    e = .corrupt := foldlM_addStorageCharge_error h

/-! ### The table -/

/-- What an object of the scan or a generation is charged to. -/
def ChargeKey.physical {δ : Type} : ChargeKey δ → Bool
  | .attempt _ | .reservation .. => false
  | _ => true

theorem chargeKey_physical {δ : Type} (b : StorageObject δ) : b.chargeKey.physical = true := by
  cases b <;> rfl

theorem imageChargeKey_physical {δ : Type} (g : ImageGeneration δ) :
    g.chargeKey.physical = true := by
  unfold ImageGeneration.chargeKey
  split <;> rfl

theorem storageLedger_physical {δ : Type} {s : Accounts δ} {scope : StorageScope}
    {r : ChargeKey δ × ℤ × Bool} (hr : r ∈ storageLedger s scope) :
    r.1.physical = true := by
  rcases List.mem_append.mp hr with hr | hr
  · obtain ⟨g, -, rfl⟩ := List.mem_map.mp hr
    rfl
  · obtain ⟨g, -, rfl⟩ := List.mem_map.mp hr
    exact imageChargeKey_physical g

variable {δ : Type} [DecidableEq δ]

section Table

variable {s : Accounts δ} {scope : StorageScope} {o : Observation δ} {attempts : List (String × ℤ)}

/-- The loop over the objects keeps what the table reads under other keys, and its form. -/
theorem foldl_chargeObject (bs : List (ObservedObject δ)) (acc : List (ChargeKey δ × ℤ) × Bool) :
    (∀ k : ChargeKey δ, k.physical = false →
      peak k (bs.foldl chargeObject acc).1 = peak k acc.1) ∧
    ((acc.1.map Prod.fst).Nodup → ((bs.foldl chargeObject acc).1.map Prod.fst).Nodup) ∧
    ((∀ e ∈ acc.1, 0 ≤ e.2) → ∀ e ∈ (bs.foldl chargeObject acc).1, 0 ≤ e.2) := by
  induction bs generalizing acc with
  | nil => exact ⟨fun _ _ => rfl, id, id⟩
  | cons b bs ih =>
    have hstep : (chargeObject acc b).1 = acc.1 ∨
        ∃ n, (chargeObject acc b).1 = raise b.object.chargeKey n acc.1 := by
      unfold chargeObject
      cases b.size with
      | none => exact .inl rfl
      | some n => exact .inr ⟨n, rfl⟩
    obtain ⟨hpeak, hnodup, hnonneg⟩ := ih (chargeObject acc b)
    rw [List.foldl_cons]
    rcases hstep with hstep | ⟨n, hstep⟩
    · rw [hstep] at hpeak hnodup hnonneg
      exact ⟨hpeak, hnodup, hnonneg⟩
    · rw [hstep] at hpeak hnodup hnonneg
      refine ⟨fun k hk => ?_, fun h => hnodup (nodup_raise h), fun h => hnonneg (nonneg_raise h)⟩
      rw [hpeak k hk, peak_raise, if_neg]
      rintro rfl
      rw [chargeKey_physical] at hk
      cases hk

/-- Before the reservations nothing is charged to an attempt or a reservation. -/
theorem peak_chargeObserved {k : ChargeKey δ} (hk : k.physical = false) :
    peak k (chargeObserved s scope o).1 = 0 := by
  unfold chargeObserved
  rw [(foldl_chargeObject _ _).1 k hk]
  unfold chargeLedger
  rw [peak_foldl_raise]
  · rfl
  · intro r hr
    have := storageLedger_physical (List.mem_of_mem_filter hr)
    rintro rfl
    rw [hk] at this
    cases this

theorem chargeTable_form (s : Accounts δ) (scope : StorageScope) (o : Observation δ)
    (attempts : List (String × ℤ)) :
    ((chargeTable s scope o attempts).map Prod.fst).Nodup ∧
      ∀ e ∈ chargeTable s scope o attempts, 0 ≤ e.2 := by
  obtain ⟨-, hnodup, hnonneg⟩ := foldl_chargeObject (accountedObjects s scope o)
    (chargeLedger s scope o, false)
  unfold chargeTable chargeObserved
  exact ⟨nodup_foldl_raise (nodup_foldl_raise (hnodup (nodup_foldl_raise List.nodup_nil))),
    nonneg_foldl_raise (nonneg_foldl_raise (hnonneg (nonneg_foldl_raise (by simp))))⟩

theorem peak_of_mem_attempts {id : String} (h : 0 < peak id attempts) :
    (id, peak id attempts) ∈ attempts := by
  induction attempts with
  | nil => exact absurd h (lt_irrefl 0)
  | cons a as ih =>
    unfold peak at h ⊢
    split_ifs at h ⊢ with ha
    · rw [← ha]
      exact List.mem_cons_self
    · exact List.mem_cons_of_mem _ (ih h)

/-- The containers of an attempt are in the table already, so the last maximum changes nothing. -/
theorem chargeAmount_eq {e : ChargeKey δ × ℤ} (he : e ∈ chargeTable s scope o attempts) :
    chargeAmount attempts e = e.2 := by
  obtain ⟨hnodup, hnonneg⟩ := chargeTable_form s scope o attempts
  obtain ⟨k, v⟩ := e
  cases k with
  | attempt id =>
    refine max_eq_left ?_
    have hv : peak (.attempt id) (chargeTable s scope o attempts) = v := peak_of_mem hnodup he
    rcases le_or_gt (peak id attempts) 0 with h0 | h0
    · exact h0.trans (hnonneg _ he)
    · rw [← hv]
      exact le_peak_foldl_raise (fun a : String × ℤ => ChargeKey.attempt a.1) (fun a => a.2)
        (peak_of_mem_attempts h0)
  | _ => rfl

theorem chargePart_eq_ok {objects : List (ObservedObject δ)} {p : Part} {c : ℤ} :
    chargePart objects attempts (chargeTable s scope o attempts) p = .ok c ↔
      total (fun k => k.part objects = some p) (chargeTable s scope o attempts) ≤ maxInt64 ∧
      c = total (fun k => k.part objects = some p) (chargeTable s scope o attempts) := by
  have hform := chargeTable_form s scope o attempts
  have hamounts : ((chargeTable s scope o attempts).filter fun e => e.1.part objects = some p).map
      (chargeAmount attempts) =
      ((chargeTable s scope o attempts).filter fun e => e.1.part objects = some p).map Prod.snd :=
    List.map_congr_left fun e he => chargeAmount_eq (List.mem_of_mem_filter he)
  have hsum : ∀ m : List (ChargeKey δ × ℤ),
      ((m.filter fun e => e.1.part objects = some p).map Prod.snd).sum =
        total (fun k => k.part objects = some p) m := by
    intro m
    induction m with
    | nil => rfl
    | cons e m ih =>
      rw [List.filter_cons, total_cons]
      split_ifs with he <;> simp [ih]
  unfold chargePart
  rw [hamounts, sumStorageCharge_eq_ok, hsum]
  intro x hx
  obtain ⟨e, he, rfl⟩ := List.mem_map.mp hx
  exact hform.2 e (List.mem_of_mem_filter he)

end Table

/-! ### The inserted reservations -/

section Insert

variable {s s' : Accounts δ} {scope : StorageScope} {owner : PinOwner}

/-- The row of a proposed reservation. -/
def proposedRow (scope : StorageScope) (owner : PinOwner) (p : ReservedFor δ × ℤ) : Reservation δ :=
  { scope, resource := p.1, bytes := p.2, owner }

/-- The index on active keys allows the row. -/
def Admits (rows : List (Reservation δ)) (scope : StorageScope) (owner : PinOwner)
    (r : ReservedFor δ) : Prop :=
  ∀ q ∈ rows, q.scope = scope → q.resource = r →
    match r with
    | .attempt => q.owner.attemptID = owner.attemptID → q.state = .released
    | .content .. => q.state ≠ .provisional

theorem insertReservation_ok {p : ReservedFor δ × ℤ}
    (h : insertReservation s (proposedRow scope owner p) = .ok s') :
    s' = { s with reservations := s.reservations ++ [proposedRow scope owner p] } ∧ 0 ≤ p.2 ∧
      Admits s.reservations scope owner p.1 := by
  simp only [insertReservation, bind_eq_ok, ensure_eq_ok, pure_eq_ok, decide_eq_true_eq,
    List.all_eq_true] at h
  obtain ⟨-, hkeys, -, hbytes, rfl⟩ := h
  refine ⟨rfl, hbytes, fun q hq hscope hres => ?_⟩
  have hq' := hkeys q hq
  obtain ⟨res, bytes⟩ := p
  cases res with
  | attempt =>
    intro howner
    simpa [proposedRow, hscope, hres, howner] using hq'
  | content c sha256 n => simpa [proposedRow, hscope, hres] using hq'

/-- The insertions of an admission: no key twice, and none that is active. -/
theorem insertAll_ok {ps : List (ReservedFor δ × ℤ)}
    (h : ps.foldlM (fun s p => insertReservation s (proposedRow scope owner p)) s = .ok s') :
    s' = { s with reservations := s.reservations ++ ps.map (proposedRow scope owner) } ∧
      (∀ p ∈ ps, 0 ≤ p.2 ∧ Admits s.reservations scope owner p.1) ∧ (ps.map Prod.fst).Nodup := by
  induction ps generalizing s with
  | nil =>
    obtain rfl : s = s' := by simpa [pure, Except.pure] using h
    simp
  | cons p ps ih =>
    rw [List.foldlM_cons, bind_eq_ok] at h
    obtain ⟨mid, hp, hps⟩ := h
    obtain ⟨rfl, hbytes, hadmits⟩ := insertReservation_ok hp
    obtain ⟨rfl, hall, hnodup⟩ := ih hps
    refine ⟨by simp, List.forall_mem_cons.mpr ⟨⟨hbytes, hadmits⟩, fun q hq => ?_⟩, ?_⟩
    · obtain ⟨hq0, hqa⟩ := hall q hq
      exact ⟨hq0, fun r hr => hqa r (List.mem_append_left _ hr)⟩
    · refine List.nodup_cons.mpr ⟨fun hmem => ?_, hnodup⟩
      obtain ⟨q, hq, hqp⟩ := List.mem_map.mp hmem
      have hclash := (hall q hq).2 (proposedRow scope owner p)
        (List.mem_append_right _ (List.mem_singleton_self _)) rfl hqp.symm
      cases hres : q.1 with
      | attempt => simp [hres, proposedRow] at hclash
      | content c sha256 n => simp [hres, proposedRow] at hclash

/-- Content that nothing covers has no generation its reservation could go to. -/
theorem physical_of_uncovered {c : ContentClass} {sha256 : δ} {bytes n : ℤ}
    (h : liveGeneration s ⟨scope, sha256, bytes⟩ c = false) :
    (proposedRow scope owner (.content c sha256 bytes, n)).physical s scope =
      .reservation c sha256 bytes := by
  cases c with
  | cache =>
    have hnone : reservedCache s ⟨scope, sha256, bytes⟩ none = none := by
      refine List.find?_eq_none.mpr fun g hg => ?_
      have hg' := List.any_eq_false.mp h g (List.mem_reverse.mp hg)
      cases hst : g.state <;> simp_all
    simp [Reservation.physical, proposedRow, hnone]
  | image =>
    have hnone : reservedImage s ⟨scope, sha256, bytes⟩ none = none := by
      refine List.find?_eq_none.mpr fun g hg => ?_
      have hg' := List.any_eq_false.mp h g (List.mem_reverse.mp hg)
      cases hst : g.state <;> simp_all
    simp [Reservation.physical, proposedRow, hnone]

/-- The mutation operation of a committed content reservation names a generation of the machine. -/
def NamesGeneration (s : Accounts δ) (scope : StorageScope) (r : Reservation δ) : Prop :=
  match r.resource with
  | .attempt => True
  | .content .cache _ _ =>
    ∃ op, r.operation = some op ∧ ∃ g ∈ s.storage.caches, g.key.scope = scope ∧ g.operationID = op
  | .content .image _ _ =>
    ∃ op, r.operation = some op ∧ ∃ g ∈ s.storage.images, g.key.scope = scope ∧ g.operationID = op

/-- A committed reservation is charged to its generation, not under its own key. -/
theorem physical_of_names {r : Reservation δ} {c : ContentClass} {sha256 : δ} {bytes : ℤ}
    (h : NamesGeneration s scope r) :
    r.physical s scope ≠ .reservation c sha256 bytes := by
  unfold NamesGeneration at h
  split at h
  · next hr => simp [Reservation.physical, hr]
  · next sha n hr =>
    obtain ⟨op, hop, g, hg, hscope, hgop⟩ := h
    have hsome : (reservedCache s ⟨scope, sha, n⟩ (some op)).isSome = true :=
      List.find?_isSome.mpr ⟨g, hg, by simp [hscope, hgop]⟩
    obtain ⟨g', hg'⟩ := Option.isSome_iff_exists.mp hsome
    simp [Reservation.physical, hr, hop, hg']
  · next sha n hr =>
    obtain ⟨op, hop, g, hg, hscope, hgop⟩ := h
    have hsome : (reservedImage s ⟨scope, sha, n⟩ (some op)).isSome = true :=
      List.find?_isSome.mpr ⟨g, hg, by simp [hscope, hgop]⟩
    obtain ⟨g', hg'⟩ := Option.isSome_iff_exists.mp hsome
    have hphys := imageChargeKey_physical g'
    intro heq
    simp only [Reservation.physical, hr, hop, hg'] at heq
    rw [heq] at hphys
    cases hphys

/-- Under its own key a reservation is charged only for its own content. -/
theorem resource_of_physical {r : Reservation δ} {c : ContentClass} {sha256 : δ} {bytes : ℤ}
    (h : r.physical s scope = .reservation c sha256 bytes) :
    r.resource = .content c sha256 bytes := by
  unfold Reservation.physical at h
  split at h
  · cases h
  · next sha n hr =>
    split at h
    · cases h
    · cases h
      exact hr
  · next sha n hr =>
    split at h
    · next g hg =>
      have hphys := imageChargeKey_physical g
      rw [h] at hphys
      cases hphys
    · cases h
      exact hr

theorem owner_of_physical {r : Reservation δ} {id : String} (h : r.physical s scope = .attempt id) :
    r.resource = .attempt ∧ r.owner.attemptID = id := by
  unfold Reservation.physical at h
  split at h
  · next hr =>
    cases h
    exact ⟨hr, rfl⟩
  · split at h <;> cases h
  · split at h
    · next g hg =>
      have hphys := imageChargeKey_physical g
      rw [h] at hphys
      cases hphys
    · cases h

end Insert

/-! ### Admissions -/

section Admission

variable {s s' : Accounts δ} {scope : StorageScope} {owner : PinOwner} {configured : Budget}
  {connections : List Budget} {refs : List (FrozenObject δ)} {now : ℤ}

theorem proposedReservations_uncovered {c : ContentClass} {sha256 : δ} {bytes n : ℤ}
    (h : (.content c sha256 bytes, n) ∈ proposedReservations s scope refs) :
    liveGeneration s ⟨scope, sha256, bytes⟩ c = false ∧
      provisionalReservation s scope (.content c sha256 bytes) = false := by
  rcases List.mem_cons.mp h with h | h
  · cases h
  · obtain ⟨ref, -, href⟩ := List.mem_filterMap.mp (List.mem_eraseDups.mp h)
    unfold proposedContent at href
    cases hc : ref.role.contentClass with
    | none => simp [hc] at href
    | some d =>
      simp only [hc] at href
      split_ifs at href with hcov
      obtain ⟨⟨rfl, rfl, rfl⟩, -⟩ : (d = c ∧ ref.sha256 = sha256 ∧ ref.bytes = bytes) ∧ _ := by
        simpa using href
      simpa using hcov

theorem storageAdmission_ok
    (h : storageAdmission s (some scope) owner configured connections refs now = .ok s') :
    ∃ c effective, freshStorageCharge s scope now = .ok c ∧
      effectiveStorageBudget configured connections = .ok effective ∧
      c.chargedBytes + ((proposedReservations s scope refs).map Prod.snd).sum <
        effective.hardBytes ∧
      (c.chargedBytes ≤ maxInt64 →
        c.chargedBytes + ((proposedReservations s scope refs).map Prod.snd).sum ≤ maxInt64) ∧
      s' = { s with reservations := s.reservations ++
        (proposedReservations s scope refs).map (proposedRow scope owner) } ∧
      (∀ p ∈ proposedReservations s scope refs,
        0 ≤ p.2 ∧ Admits s.reservations scope owner p.1) ∧
      ((proposedReservations s scope refs).map Prod.fst).Nodup := by
  simp only [storageAdmission, bind_eq_ok, mapError_eq_ok, ensure_eq_ok, decide_eq_true_eq] at h
  obtain ⟨c, hc, effective, heff, -, -, total, htotal, -, hhard, hins⟩ := h
  obtain ⟨rfl, -, hle⟩ := foldlM_addStorageCharge htotal
  obtain ⟨hs', hall, hnodup⟩ := insertAll_ok hins
  exact ⟨c, effective, hc, heff, hhard, hle, hs', hall, hnodup⟩

omit [DecidableEq δ] in
/-- The attempts of the scan are labels of its objects. -/
theorem observeAttempt_labels {bs : List (ObservedObject δ)} {m : List (String × ℤ)}
    (h : bs.foldlM observeAttempt [] = .ok m) : ∀ a ∈ m, ∃ b ∈ bs, b.attempt = some a.1 := by
  refine foldlM_invariant (P := fun m => ∀ a ∈ m, ∃ b ∈ bs, b.attempt = some a.1) ?_ (by simp) h
  intro m b m' hb hm hstep
  unfold observeAttempt at hstep
  split at hstep
  · next attempt n hobj hatt hsize =>
    obtain ⟨amount, -, hm'⟩ := bind_eq_ok.mp hstep
    obtain rfl := pure_eq_ok.mp hm'
    intro a ha
    rcases List.mem_cons.mp ha with rfl | ha
    · exact ⟨b, hb, hatt⟩
    · exact hm a (List.mem_of_mem_filter ha)
  · obtain rfl := pure_eq_ok.mp hstep
    exact hm

/-- The key of a proposed reservation. -/
def proposedKey (owner : PinOwner) : ReservedFor δ → ChargeKey δ
  | .attempt => .attempt owner.attemptID
  | .content c sha256 bytes => .reservation c sha256 bytes

omit [DecidableEq δ] in
theorem proposedKey_injective (owner : PinOwner) :
    Function.Injective (proposedKey owner : ReservedFor δ → ChargeKey δ) := by
  intro a b h
  cases a <;> cases b <;> cases h <;> rfl

omit [DecidableEq δ] in
theorem proposedKey_physical (r : ReservedFor δ) : (proposedKey owner r).physical = false := by
  cases r <;> rfl

theorem proposed_physical {p : ReservedFor δ × ℤ} (hp : p ∈ proposedReservations s scope refs) :
    (proposedRow scope owner p).physical s scope = proposedKey owner p.1 := by
  obtain ⟨res, n⟩ := p
  cases res with
  | attempt => rfl
  | content c sha256 bytes => exact physical_of_uncovered (proposedReservations_uncovered hp).1

/-- No reservation of the machine is charged under the key of a proposed one. -/
theorem live_physical_ne
    (hnames : ∀ r ∈ s.live scope, r.state = .committed → NamesGeneration s scope r)
    {p : ReservedFor δ × ℤ} (hp : p ∈ proposedReservations s scope refs)
    (hadmits : Admits s.reservations scope owner p.1) {r : Reservation δ} (hr : r ∈ s.live scope) :
    r.physical s scope ≠ proposedKey owner p.1 := by
  intro heq
  obtain ⟨hmem, hlive⟩ := List.mem_filter.mp hr
  simp only [Bool.and_eq_true, decide_eq_true_eq] at hlive
  obtain ⟨res, n⟩ := p
  cases res with
  | attempt =>
    obtain ⟨hres, howner⟩ := owner_of_physical heq
    exact hlive.2 (hadmits r hmem hlive.1 hres howner)
  | content c sha256 bytes =>
    have hres := resource_of_physical heq
    have hnot := hadmits r hmem hlive.1 hres
    cases hst : r.state with
    | provisional => exact hnot hst
    | released => exact hlive.2 hst
    | committed => exact physical_of_names (hnames r hr hst) heq

/-- The table after an admission is the table before it with the new reservations beside. -/
theorem chargeTable_adds {o : Observation δ} {attempts : List (String × ℤ)}
    (hnames : ∀ r ∈ s.live scope, r.state = .committed → NamesGeneration s scope r)
    (hall : ∀ p ∈ proposedReservations s scope refs, 0 ≤ p.2 ∧
      Admits s.reservations scope owner p.1)
    (hnodup : ((proposedReservations s scope refs).map Prod.fst).Nodup)
    (hseen : ∀ a ∈ attempts, a.1 ≠ owner.attemptID)
    (hs' : s' = { s with reservations := s.reservations ++
      (proposedReservations s scope refs).map (proposedRow scope owner) }) :
    Adds ((proposedReservations s scope refs).map fun p => (proposedKey owner p.1, p.2))
      (chargeTable s scope o attempts) (chargeTable s' scope o attempts) := by
  have hlive : s'.live scope = s.live scope ++
      (proposedReservations s scope refs).map (proposedRow scope owner) := by
    rw [hs', Accounts.live, Accounts.live, List.filter_append]
    refine congrArg _ (List.filter_eq_self.mpr fun r hr => ?_)
    obtain ⟨p, -, rfl⟩ := List.mem_map.mp hr
    simp [proposedRow]
  have hsame : ∀ m : List (ChargeKey δ × ℤ), ((proposedReservations s scope refs).map
      (proposedRow scope owner)).foldl (fun m r => raise (r.physical s' scope) r.bytes m) m =
      (proposedReservations s scope refs).foldl
        (fun m p => raise (proposedKey owner p.1) p.2 m) m := by
    intro m
    rw [List.foldl_map]
    refine List.foldl_ext _ _ m fun m p hp => ?_
    have hphys : (proposedRow scope owner p).physical s' scope = proposedKey owner p.1 := by
      rw [← proposed_physical hp, hs']
      rfl
    rw [hphys]
    rfl
  unfold chargeTable
  rw [hlive, List.foldl_append, hsame]
  subst hs'
  refine Adds.foldl_raise (adds_foldl_raise (fun p hp => ?_) ?_ fun p hp => (hall p hp).1) ?_
  · refine (peak_foldl_raise fun r hr => ?_).trans (peak_chargeObserved (proposedKey_physical _))
    exact live_physical_ne hnames hp (hall p hp).2 hr
  · rw [show (fun p : ReservedFor δ × ℤ => proposedKey owner p.1) =
      proposedKey owner ∘ Prod.fst from rfl, ← List.map_map]
    exact hnodup.map (proposedKey_injective owner)
  · intro a ha hmem
    obtain ⟨e, he, heq⟩ := List.mem_map.mp hmem
    obtain ⟨p, -, rfl⟩ := List.mem_map.mp he
    obtain ⟨res, n⟩ := p
    cases res with
    | attempt => exact hseen a ha (by simpa [proposedKey] using heq.symm)
    | content c sha256 bytes => cases heq

end Admission

/-! ### The charge after an admission -/

section Recomputed

variable {s s' : Accounts δ} {scope : StorageScope} {o : Observation δ}
  {caller : String} {c : Charge}

/-- What one part of the charge adds up. -/
def partTotal (objects : List (ObservedObject δ)) (m : List (ChargeKey δ × ℤ)) (p : Part) : ℤ :=
  total (fun k => k.part objects = some p) m

/-- What all parts add up. -/
def partsTotal (objects : List (ObservedObject δ)) (m : List (ChargeKey δ × ℤ)) : ℤ :=
  partTotal objects m .cache + partTotal objects m .image + partTotal objects m .attempt +
    partTotal objects m .orphan

theorem partTotal_nonneg (objects : List (ObservedObject δ)) {m : List (ChargeKey δ × ℤ)}
    (h : ∀ e ∈ m, 0 ≤ e.2) (p : Part) : 0 ≤ partTotal objects m p := by
  refine List.sum_nonneg fun x hx => ?_
  obtain ⟨e, he, rfl⟩ := List.mem_map.mp hx
  dsimp only
  split_ifs
  · exact h e he
  · rfl

/-- The charge is there exactly when nothing overflows, and it is the sum of the table. -/
theorem storageCharge_ok (h : storageCharge s scope o caller = .ok c) :
    ∃ attempts referenced, (accountedObjects s scope o).foldlM observeAttempt [] = .ok attempts ∧
      referencedBytes s scope caller = .ok referenced ∧
      c.chargedBytes = partsTotal (accountedObjects s scope o) (chargeTable s scope o attempts) ∧
      c.chargedBytes ≤ maxInt64 ∧ ∀ r ∈ s.live scope, 0 ≤ r.bytes := by
  simp only [storageCharge, bind_eq_ok, pure_eq_ok] at h
  obtain ⟨attempts, hatt, reserved, hreserved, cache, hcache, image, himage, attempt, hattempt,
    orphan, horphan, charged, hcharged, referenced, href, rfl⟩ := h
  obtain ⟨-, rfl⟩ := chargePart_eq_ok.mp hcache
  obtain ⟨-, rfl⟩ := chargePart_eq_ok.mp himage
  obtain ⟨-, rfl⟩ := chargePart_eq_ok.mp hattempt
  obtain ⟨-, rfl⟩ := chargePart_eq_ok.mp horphan
  have hnonneg := (chargeTable_form s scope o attempts).2
  obtain ⟨hle, rfl⟩ := (sumStorageCharge_eq_ok (by
    simp only [List.mem_cons, List.not_mem_nil, or_false, forall_eq_or_imp, forall_eq]
    exact ⟨partTotal_nonneg _ hnonneg _, partTotal_nonneg _ hnonneg _, partTotal_nonneg _ hnonneg _,
      partTotal_nonneg _ hnonneg _⟩)).mp hcharged
  refine ⟨attempts, referenced, hatt, href, ?_, hle, fun r hr => ?_⟩
  · simp only [List.sum_cons, List.sum_nil, partsTotal, partTotal]
    ring
  · exact (foldlM_addStorageCharge hreserved).2.1 _ (List.mem_map_of_mem hr)

theorem storageCharge_of {attempts : List (String × ℤ)} {referenced : ℤ}
    (hatt : (accountedObjects s scope o).foldlM observeAttempt [] = .ok attempts)
    (href : referencedBytes s scope caller = .ok referenced)
    (hbytes : ∀ r ∈ s.live scope, 0 ≤ r.bytes)
    (hreserved : ((s.live scope).map (·.bytes)).sum ≤ maxInt64)
    (hcharged : partsTotal (accountedObjects s scope o) (chargeTable s scope o attempts) ≤
      maxInt64) :
    ∃ c, storageCharge s scope o caller = .ok c ∧
      c.chargedBytes = partsTotal (accountedObjects s scope o) (chargeTable s scope o attempts) ∧
      c.unknown = (chargeObserved s scope o).2 := by
  have hnonneg := (chargeTable_form s scope o attempts).2
  have h0 := fun p => partTotal_nonneg (accountedObjects s scope o) hnonneg p
  have hpart :
      ∀ p, chargePart (accountedObjects s scope o) attempts (chargeTable s scope o attempts) p =
      .ok (partTotal (accountedObjects s scope o) (chargeTable s scope o attempts) p) := by
    intro p
    refine chargePart_eq_ok.mpr ⟨?_, rfl⟩
    have h1 := h0 .cache
    have h2 := h0 .image
    have h3 := h0 .attempt
    have h4 := h0 .orphan
    unfold partsTotal at hcharged
    change partTotal _ _ p ≤ _
    cases p <;> omega
  have hlive : sumStorageCharge ((s.live scope).map (·.bytes)) =
      .ok ((s.live scope).map (·.bytes)).sum :=
    (sumStorageCharge_eq_ok (by
      intro x hx
      obtain ⟨r, hr, rfl⟩ := List.mem_map.mp hx
      exact hbytes r hr)).mpr ⟨hreserved, rfl⟩
  have hsum :
      sumStorageCharge [partTotal (accountedObjects s scope o) (chargeTable s scope o attempts)
        .cache, partTotal (accountedObjects s scope o) (chargeTable s scope o attempts) .image,
        partTotal (accountedObjects s scope o) (chargeTable s scope o attempts) .attempt,
        partTotal (accountedObjects s scope o) (chargeTable s scope o attempts) .orphan] =
      .ok (partsTotal (accountedObjects s scope o) (chargeTable s scope o attempts)) := by
    refine (sumStorageCharge_eq_ok ?_).mpr ⟨?_, ?_⟩
    · simp only [List.mem_cons, List.not_mem_nil, or_false, forall_eq_or_imp, forall_eq]
      exact ⟨h0 _, h0 _, h0 _, h0 _⟩
    · refine le_of_eq_of_le ?_ hcharged
      simp only [List.sum_cons, List.sum_nil, partsTotal]
      ring
    · simp only [List.sum_cons, List.sum_nil, partsTotal]
      ring
  have hok : storageCharge s scope o caller = .ok ⟨((s.live scope).map (·.bytes)).sum,
      partTotal (accountedObjects s scope o) (chargeTable s scope o attempts) .cache,
      partTotal (accountedObjects s scope o) (chargeTable s scope o attempts) .image,
      partTotal (accountedObjects s scope o) (chargeTable s scope o attempts) .attempt,
      partTotal (accountedObjects s scope o) (chargeTable s scope o attempts) .orphan,
      partsTotal (accountedObjects s scope o) (chargeTable s scope o attempts), referenced,
      (chargeObserved s scope o).2⟩ := by
    simp only [storageCharge, hatt, hlive, hpart, hsum, href, bind, Except.bind, pure, Except.pure]
  exact ⟨_, hok, rfl, rfl⟩

/-- Every proposed reservation counts for some part. -/
theorem partsTotal_proposed (objects : List (ObservedObject δ)) (owner : PinOwner)
    (ps : List (ReservedFor δ × ℤ)) :
    partsTotal objects (ps.map fun p => (proposedKey owner p.1, p.2)) = (ps.map Prod.snd).sum := by
  induction ps with
  | nil => rfl
  | cons p ps ih =>
    have hsplit : partsTotal objects ((p :: ps).map fun p => (proposedKey owner p.1, p.2)) =
        p.2 + partsTotal objects (ps.map fun p => (proposedKey owner p.1, p.2)) := by
      obtain ⟨res, n⟩ := p
      cases res with
      | attempt =>
        simp only [partsTotal, partTotal, List.map_cons, total_cons, proposedKey, ChargeKey.part]
        simp
        ring
      | content c sha256 bytes =>
        cases c <;>
          (simp only [partsTotal, partTotal, List.map_cons, total_cons, proposedKey, ChargeKey.part]
           simp
           ring)
    rw [hsplit, ih, List.map_cons, List.sum_cons]

end Recomputed

/-- An admission of a new attempt that the scan has not seen is charged exactly what it inserted,
below the hard limit, and it inserts nothing for content that is covered. The recomputation adds up
the bytes of all reservations on the way, and reports corruption if their sum leaves the range of
its type. -/
theorem admission_charges_reserved {s s' : Accounts δ} {scope : StorageScope} {owner : PinOwner}
    {configured : Budget} {connections : List Budget} {refs : List (FrozenObject δ)} {now : ℤ}
    (hnames : ∀ r ∈ s.live scope, r.state = .committed → NamesGeneration s scope r)
    (hseen : ∀ b ∈ (s.observation scope).objects, b.attempt ≠ some owner.attemptID)
    (h : storageAdmission s (some scope) owner configured connections refs now = .ok s')
    (hfits : ((s'.live scope).map (·.bytes)).sum ≤ maxInt64) :
    ∃ rows c c' effective, s' = { s with reservations := s.reservations ++ rows } ∧
      freshStorageCharge s scope now = .ok c ∧
      effectiveStorageBudget configured connections = .ok effective ∧
      storageCharge s' scope (s.observation scope) "" = .ok c' ∧
      c'.chargedBytes = c.chargedBytes + (rows.map (·.bytes)).sum ∧
      c'.chargedBytes < effective.hardBytes ∧
      ∀ r ∈ rows, r.scope = scope ∧ r.owner = owner ∧ r.state = .provisional ∧
        ∀ cls sha256 bytes, r.resource = .content cls sha256 bytes →
          liveGeneration s ⟨scope, sha256, bytes⟩ cls = false ∧
          provisionalReservation s scope (.content cls sha256 bytes) = false := by
  obtain ⟨c, effective, hc, heff, hhard, hmax, hs', hall, hnodup⟩ := storageAdmission_ok h
  have hc' := hc
  simp only [freshStorageCharge, bind_eq_ok, ensure_eq_ok, pure_eq_ok] at hc'
  obtain ⟨-, -, c₀, hcharge, -, -, rfl⟩ := hc'
  obtain ⟨attempts, referenced, hatt, href, hcharged, hle, hbytes⟩ := storageCharge_ok hcharge
  have hattempts : ∀ a ∈ attempts, a.1 ≠ owner.attemptID := by
    intro a ha heq
    obtain ⟨b, hb, hba⟩ := observeAttempt_labels hatt a ha
    exact hseen b (List.mem_of_mem_filter hb) (heq ▸ hba)
  have hadds := chargeTable_adds (o := s.observation scope) hnames hall hnodup hattempts hs'
  have hrows : ((proposedReservations s scope refs).map (proposedRow scope owner)).map (·.bytes) =
      (proposedReservations s scope refs).map Prod.snd := by
    rw [List.map_map]
    rfl
  -- The objects of the scan and everything else the charge reads are the same after the insertion.
  have hobjects : accountedObjects s' scope (s.observation scope) =
      accountedObjects s scope (s.observation scope) := by
    rw [hs']
    rfl
  have htotal : partsTotal (accountedObjects s' scope (s.observation scope))
      (chargeTable s' scope (s.observation scope) attempts) =
      c₀.chargedBytes + ((proposedReservations s scope refs).map Prod.snd).sum := by
    rw [hobjects, hcharged, ← partsTotal_proposed _ owner]
    simp only [partsTotal, partTotal, hadds.total]
    ring
  have hatt' : (accountedObjects s' scope (s.observation scope)).foldlM observeAttempt [] =
      .ok attempts := by
    rw [hobjects]
    exact hatt
  have href' : referencedBytes s' scope "" = .ok referenced := by
    rw [hs']
    exact href
  have hbytes' : ∀ r ∈ s'.live scope, 0 ≤ r.bytes := by
    intro r hr
    obtain ⟨hmem, hlive⟩ := List.mem_filter.mp hr
    rw [hs'] at hmem
    rcases List.mem_append.mp hmem with hmem | hmem
    · exact hbytes r (List.mem_filter.mpr ⟨hmem, hlive⟩)
    · obtain ⟨p, hp, rfl⟩ := List.mem_map.mp hmem
      exact (hall p hp).1
  obtain ⟨c', hok, hc'eq, -⟩ := storageCharge_of hatt' href' hbytes' hfits
    (by rw [htotal]; exact hmax hle)
  refine ⟨_, c₀, c', effective, hs', hc, heff, hok, ?_, ?_, ?_⟩
  · rw [hc'eq, htotal, hrows]
  · rw [hc'eq, htotal]
    exact hhard
  · intro r hr
    obtain ⟨⟨res, n⟩, hp, rfl⟩ := List.mem_map.mp hr
    refine ⟨rfl, rfl, rfl, fun cls sha256 bytes hres => ?_⟩
    obtain rfl : res = .content cls sha256 bytes := hres
    exact proposedReservations_uncovered hp

/-! ### An image that was repaired many times

Every repair of an image commits a reservation of its own, and while the image is on the machine
none of them is released. The charge counts them once. -/

def repairScope : StorageScope := ⟨"installation", "machine", "engine"⟩

def repairOwner : PinOwner := ⟨"workspace", "job", "attempt-0"⟩

/-- The `n` generations of one image, all retired, and their reservations; the scan shows the
image. -/
def repaired (n : ℕ) : Accounts String where
  storage :=
    { images := (List.range n).map fun i =>
        { id := "image-" ++ toString i
          key := ⟨repairScope, "archive", 1⟩
          operationID := "op-" ++ toString i
          owner := repairOwner
          objectID := "object"
          expectedImageID := some "image"
          state := .retired
          leaseUntil := 0 } }
  reservations := (List.range n).map fun i =>
    { scope := repairScope
      resource := .content .image "archive" 1
      bytes := imageReservationBytes
      owner := repairOwner
      operation := some ("op-" ++ toString i)
      state := .committed }
  observation _ := ⟨1, 0, true, [⟨.image "image", some 1, true, none⟩]⟩

/-- A new attempt whose bundle is also an input. -/
def newOwner : PinOwner := ⟨"workspace", "job", "attempt-1"⟩

def newRefs : List (FrozenObject String) := [⟨.bundle, "bundle", 7⟩, ⟨.input "data", "bundle", 7⟩]

/-- The reservations of the new attempt. -/
def newRows : List (Reservation String) :=
  [proposedRow repairScope newOwner (.attempt, attemptAllowanceBytes),
    proposedRow repairScope newOwner (.content .cache "bundle" 7, 7)]

def repairedAdmitted (n : ℕ) : Accounts String :=
  { repaired n with reservations := (repaired n).reservations ++ newRows }

section Repaired

variable {n : ℕ}

theorem foldl_raise_same {α κ : Type*} [DecidableEq κ] {k : κ} {v w : ℤ} {key : α → κ}
    {amount : α → ℤ} {as : List α} (h : ∀ a ∈ as, key a = k ∧ amount a = v) (hw : 0 ≤ w) :
    as.foldl (fun m a => raise (key a) (amount a) m) [(k, w)] =
    [(k, if as = [] then w else max w v)] := by
  induction as generalizing w with
  | nil => rfl
  | cons a as ih =>
    obtain ⟨⟨hk, hv⟩, has⟩ := List.forall_mem_cons.mp h
    rw [List.foldl_cons, hk, hv, raise, if_pos rfl, ih has (hw.trans (le_max_left ..))]
    by_cases hnil : as = []
    · simp [hnil]
    · simp [hnil]

theorem repaired_live : (repaired n).live repairScope = (repaired n).reservations := by
  refine List.filter_eq_self.mpr fun r hr => ?_
  obtain ⟨i, -, rfl⟩ := List.mem_map.mp hr
  simp

theorem repaired_names : ∀ r ∈ (repaired n).live repairScope, r.state = .committed →
    NamesGeneration (repaired n) repairScope r := by
  intro r hr _
  rw [repaired_live] at hr
  obtain ⟨i, hi, rfl⟩ := List.mem_map.mp hr
  exact ⟨_, rfl, _, List.mem_map_of_mem hi, rfl, rfl⟩

theorem repaired_physical : ∀ r ∈ (repaired n).reservations,
    r.physical (repaired n) repairScope = .image "image" ∧ r.bytes = imageReservationBytes := by
  intro r hr
  obtain ⟨i, hi, rfl⟩ := List.mem_map.mp hr
  have hsome : (reservedImage (repaired n) ⟨repairScope, "archive", 1⟩
      (some ("op-" ++ toString i))).isSome = true :=
    List.find?_isSome.mpr ⟨_, List.mem_map_of_mem hi, by simp [repairScope]⟩
  obtain ⟨g, hg⟩ := Option.isSome_iff_exists.mp hsome
  obtain ⟨j, -, rfl⟩ := List.mem_map.mp (List.mem_of_find?_eq_some hg)
  simp only [Reservation.physical, hg, ImageGeneration.chargeKey, and_self]

theorem repaired_observed (hn : 0 < n) :
    chargeObserved (repaired n) repairScope ((repaired n).observation repairScope) =
      ([(.image "image", 1)], false) := by
  have hledger : storageLedger (repaired n) repairScope =
      (List.range n).map fun _ => (.image "image", 1, true) := by
    simp [storageLedger, repaired, ImageGeneration.chargeKey, List.filter_map, Function.comp_def]
  have hkeep : chargeLedger (repaired n) repairScope ((repaired n).observation repairScope) =
      [(.image "image", 1)] := by
    unfold chargeLedger
    rw [hledger, List.filter_eq_self.mpr, List.foldl_map]
    · obtain ⟨m, rfl⟩ : ∃ m, n = m + 1 := ⟨n - 1, by omega⟩
      rw [List.range_succ_eq_map, List.foldl_cons]
      refine (foldl_raise_same (v := 1) (fun _ _ => ⟨rfl, rfl⟩) (by decide)).trans ?_
      simp
    · intro r hr
      obtain ⟨i, -, rfl⟩ := List.mem_map.mp hr
      simp [storageDeletedSinceScan, accountedObjects, repaired, StorageObject.chargeKey]
  unfold chargeObserved
  rw [hkeep]
  simp [accountedObjects, repaired, storageDeletedSinceScan, chargeObject, raise,
    StorageObject.chargeKey]

theorem repaired_table (hn : 0 < n) :
    chargeTable (repaired n) repairScope ((repaired n).observation repairScope) [] =
      [(.image "image", imageReservationBytes)] := by
  unfold chargeTable
  rw [repaired_observed hn, repaired_live, List.foldl_nil]
  refine (foldl_raise_same repaired_physical (by decide)).trans ?_
  have hne : (repaired n).reservations ≠ [] := by
    simp [repaired]
    omega
  simp [hne, imageReservationBytes]

theorem repaired_bytes : (((repaired n).live repairScope).map (·.bytes)).sum =
    n * imageReservationBytes := by
  rw [repaired_live]
  simp [repaired, Function.comp_def]

/-- The charge of the repaired image is that of one reservation. -/
theorem repaired_charge (hn : 0 < n) (hmax : n * imageReservationBytes ≤ maxInt64) :
    ∃ c, freshStorageCharge (repaired n) repairScope 0 = .ok c ∧
      c.chargedBytes = imageReservationBytes := by
  have hparts : partsTotal (accountedObjects (repaired n) repairScope
      ((repaired n).observation repairScope))
      (chargeTable (repaired n) repairScope ((repaired n).observation repairScope) []) =
        imageReservationBytes := by
    rw [repaired_table hn]
    simp [partsTotal, partTotal, ChargeKey.part]
  have hatt : (accountedObjects (repaired n) repairScope
      ((repaired n).observation repairScope)).foldlM observeAttempt [] = .ok [] := rfl
  have href : referencedBytes (repaired n) repairScope "" = .ok 0 := rfl
  have hbytes : ∀ r ∈ (repaired n).live repairScope, 0 ≤ r.bytes := by
    intro r hr
    rw [repaired_live] at hr
    rw [(repaired_physical r hr).2]
    decide
  obtain ⟨c, hc, hcharged, hunknown⟩ := storageCharge_of hatt href hbytes
    (by rw [repaired_bytes]; exact hmax) (by rw [hparts]; decide)
  rw [hparts] at hcharged
  rw [repaired_observed hn] at hunknown
  exact ⟨c, bind_eq_ok.mpr ⟨(), rfl, bind_eq_ok.mpr ⟨c, hc, bind_eq_ok.mpr
    ⟨(), ensure_eq_ok.mpr (by rw [hunknown]; rfl), rfl⟩⟩⟩, hcharged⟩

theorem repaired_proposed : proposedReservations (repaired n) repairScope newRefs =
    [(.attempt, attemptAllowanceBytes), (.content .cache "bundle" 7, 7)] := by
  have hprov : provisionalReservation (repaired n) repairScope (.content .cache "bundle" 7) =
      false := by
    simp [provisionalReservation, repaired]
  have hlive : liveGeneration (repaired n) ⟨repairScope, "bundle", 7⟩ .cache = false := rfl
  simp [proposedReservations, newRefs, proposedContent, ObjectRole.contentClass, hprov, hlive,
    List.eraseDups_cons]

theorem repaired_admission (hn : 0 < n) (hmax : n * imageReservationBytes ≤ maxInt64) :
    storageAdmission (repaired n) (some repairScope) newOwner ⟨1, 80 * 2 ^ 30⟩ [] newRefs 0 =
      .ok (repairedAdmitted n) := by
  obtain ⟨c, hc, hcharged⟩ := repaired_charge hn hmax
  have hattempt : insertReservation (repaired n)
      (proposedRow repairScope newOwner (.attempt, attemptAllowanceBytes)) =
      .ok { repaired n with reservations := (repaired n).reservations ++
        [proposedRow repairScope newOwner (.attempt, attemptAllowanceBytes)] } := by
    simp [insertReservation, proposedRow, ensure, repaired, attemptAllowanceBytes,
      bind, Except.bind, pure, Except.pure]
  have hbundle : insertReservation { repaired n with reservations := (repaired n).reservations ++
        [proposedRow repairScope newOwner (.attempt, attemptAllowanceBytes)] }
      (proposedRow repairScope newOwner (.content .cache "bundle" 7, 7)) =
        .ok (repairedAdmitted n) := by
    simp [insertReservation, proposedRow, ensure, repaired, repairedAdmitted, newRows,
      bind, Except.bind, pure, Except.pure]
  unfold storageAdmission
  refine bind_eq_ok.mpr ⟨c, hc, bind_eq_ok.mpr ⟨⟨1, 80 * 2 ^ 30⟩, rfl, bind_eq_ok.mpr ⟨(), ?_, ?_⟩⟩⟩
  · rw [hcharged]
    rfl
  · rw [repaired_proposed, hcharged]
    refine bind_eq_ok.mpr ⟨imageReservationBytes + attemptAllowanceBytes + 7, rfl,
      bind_eq_ok.mpr ⟨(), rfl, ?_⟩⟩
    rw [List.foldlM_cons]
    refine bind_eq_ok.mpr ⟨_, hattempt, ?_⟩
    rw [List.foldlM_cons]
    exact bind_eq_ok.mpr ⟨_, hbundle, rfl⟩

theorem repairedAdmitted_bytes : (((repairedAdmitted n).live repairScope).map (·.bytes)).sum =
    n * imageReservationBytes + (attemptAllowanceBytes + 7) := by
  have hlive : (repairedAdmitted n).live repairScope =
      (repaired n).live repairScope ++ newRows := by
    rw [Accounts.live, Accounts.live, repairedAdmitted, List.filter_append]
    rfl
  rw [hlive, List.map_append, List.sum_append, repaired_bytes]
  rfl

end Repaired

/-- One repair: the attempt and its bundle are charged on top of the image. -/
theorem one_repair_charged :
    ∃ c c', freshStorageCharge (repaired 1) repairScope 0 = .ok c ∧
      storageCharge (repairedAdmitted 1) repairScope ((repaired 1).observation repairScope) "" =
        .ok c' ∧
      c'.chargedBytes = c.chargedBytes + (attemptAllowanceBytes + 7) := by
  have hadmit := repaired_admission (n := 1) (by decide) (by decide)
  obtain ⟨rows, c, c', effective, hs', hc, -, hc', hcharged, -⟩ :=
    admission_charges_reserved repaired_names (by simp [repaired]) hadmit
      (by rw [repairedAdmitted_bytes]; decide)
  have hrows : rows = newRows :=
    (List.append_cancel_left (congrArg Accounts.reservations hs')).symm
  refine ⟨c, c', hc, hc', ?_⟩
  rw [hcharged, hrows]
  rfl

/-- With one repair less than two to the power of 31, the attempt is admitted and the sum of all
reservations overflows. -/
theorem many_repairs_overflow :
    (∀ r ∈ (repaired 2147483647).live repairScope, r.state = .committed →
      NamesGeneration (repaired 2147483647) repairScope r) ∧
    (∀ b ∈ ((repaired 2147483647).observation repairScope).objects,
      b.attempt ≠ some newOwner.attemptID) ∧
    storageAdmission (repaired 2147483647) (some repairScope) newOwner ⟨1,
      80 * 2 ^ 30⟩ [] newRefs 0 =
      .ok (repairedAdmitted 2147483647) ∧
    storageCharge (repairedAdmitted 2147483647) repairScope
      ((repaired 2147483647).observation repairScope) "" = .error .corrupt := by
  refine ⟨repaired_names, by simp [repaired], repaired_admission (by decide) (by decide), ?_⟩
  have hover : sumStorageCharge
      (((repairedAdmitted 2147483647).live repairScope).map (·.bytes)) = .error .corrupt := by
    cases hsum :
      sumStorageCharge (((repairedAdmitted 2147483647).live repairScope).map (·.bytes)) with
    | error e => rw [sumStorageCharge_error hsum]
    | ok c =>
      obtain ⟨hc, -, hle⟩ := foldlM_addStorageCharge hsum
      have hmax := hle (by decide)
      rw [hc, zero_add, repairedAdmitted_bytes] at hmax
      exact absurd hmax (by decide)
  exact bind_eq_error.mpr (.inr ⟨[], rfl, bind_eq_error.mpr (.inl hover)⟩)

end Store
end ComputeRelay
