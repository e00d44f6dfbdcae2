import Mathlib.Tactic
import ComputeRelay.Lib.Assoc
import ComputeRelay.Lib.Run
import ComputeRelay.Kaggle.Pacer

/-!
# What the pacer keeps apart

Every time that a later send has to respect is either over or still stands in the entry of its
scope: an entry is evicted only when nothing in it lies ahead (`Ledger`). With that, each step of
any number of goroutines keeps the sends apart (`step_inv`, `paced`).
-/

namespace ComputeRelay
namespace Kaggle

/-! ### Latest times -/

theorem latest_le {values : List ℤ} {now : ℤ} (h : latest values ≤ now) :
    ∀ v ∈ values, v ≤ now := by
  have hgen : ∀ (l : List ℤ) (start : ℤ), l.foldl max start ≤ now → start ≤ now ∧
      ∀ v ∈ l, v ≤ now := by
    intro l
    induction l with
    | nil => exact fun start h => ⟨h, by simp⟩
    | cons v l ih =>
      intro start h
      obtain ⟨hstart, hl⟩ := ih _ h
      exact ⟨(le_max_left _ _).trans hstart,
        List.forall_mem_cons.mpr ⟨(le_max_right _ _).trans hstart, hl⟩⟩
  exact (hgen values 0 h).2

theorem le_latest {values : List ℤ} {v : ℤ} (h : v ∈ values) : v ≤ latest values :=
  latest_le le_rfl v h

/-! ### What is recorded -/

/-- What has to hold between an earlier and a later fact. -/
def Apart (gaps : Gaps) : Fact → Fact → Prop
  | .granted scope t, .granted scope' t' =>
    t + gaps.provider ≤ t' ∧ (scope = scope' → t + gaps.account ≤ t')
  | .cooldown (some scope) u, .granted scope' t' => scope = scope' → u ≤ t'
  | .cooldown none u, .granted _ t' => u ≤ t'
  | _, .cooldown .. => True

/-- The pacer still has every time that a later send has to respect. -/
structure Ledger (gaps : Gaps) (p : RequestPacer) (clock : ℤ) (log : List Fact) : Prop where
  keys : (p.scopes.map (·.1)).Nodup
  entries : (p.scopes.map (·.2)).Nodup
  made : ∀ s ∈ p.scopes, s.2 < p.pointers
  size : p.scopes.length ≤ maxRequestScopes
  past : ∀ scope t, .granted scope t ∈ log → t ≤ clock ∧ t + gaps.provider ≤ p.providerNext
  spaced : ∀ scope t, .granted scope t ∈ log → t + gaps.account ≤ clock ∨
    ∃ i, (scope, i) ∈ p.scopes ∧ t + gaps.account ≤ (p.heap i).next
  cooled : ∀ scope u, .cooldown (some scope) u ∈ log → u ≤ clock ∨
    ∃ i, (scope, i) ∈ p.scopes ∧ u ≤ (p.heap i).cooldown
  provider : ∀ u, .cooldown none u ∈ log → u ≤ p.providerUntil
  apart : log.Pairwise (Apart gaps)

variable {gaps : Gaps} {p : RequestPacer} {clock now jitter : ℤ} {log : List Fact} {scope : String}

/-- Entries that are in use or have a time ahead stay. -/
theorem mem_evict {s : String × ℕ} : s ∈ (p.evict now).scopes ↔ s ∈ p.scopes ∧
    p.idle now s.2 = false := by
  simp [RequestPacer.evict]

theorem Ledger.evict (h : Ledger gaps p clock log) (hclock : clock ≤ now) :
    Ledger gaps (p.evict now) now log := by
  have hsub : (p.evict now).scopes.Sublist p.scopes := List.filter_sublist
  have hahead : ∀ i, p.idle now i = true → (p.heap i).next ≤ now ∧ (p.heap i).cooldown ≤ now := by
    intro i hi
    simp only [RequestPacer.idle, Bool.and_eq_true, decide_eq_true_eq] at hi
    exact ⟨hi.1.2, hi.2⟩
  refine ⟨h.keys.sublist (hsub.map _), h.entries.sublist (hsub.map _), fun s hs =>
    h.made s (hsub.subset hs),
    hsub.length_le.trans h.size, fun s t ht => ⟨(h.past s t ht).1.trans hclock, (h.past s t ht).2⟩,
    fun s t ht => ?_, fun s u hu => ?_, h.provider, h.apart⟩
  · rcases h.spaced s t ht with hle | ⟨i, hi, hle⟩
    · exact .inl (hle.trans hclock)
    · cases hidle : p.idle now i with
      | true => exact .inl (hle.trans (hahead i hidle).1)
      | false => exact .inr ⟨i, mem_evict.mpr ⟨hi, hidle⟩, hle⟩
  · rcases h.cooled s u hu with hle | ⟨i, hi, hle⟩
    · exact .inl (hle.trans hclock)
    · cases hidle : p.idle now i with
      | true => exact .inl (hle.trans (hahead i hidle).2)
      | false => exact .inr ⟨i, mem_evict.mpr ⟨hi, hidle⟩, hle⟩

/-- The clock goes on. -/
theorem Ledger.later (h : Ledger gaps p clock log) (hclock : clock ≤ now) :
    Ledger gaps p now log where
  keys := h.keys
  entries := h.entries
  made := h.made
  size := h.size
  past := fun s t ht => ⟨(h.past s t ht).1.trans hclock, (h.past s t ht).2⟩
  spaced := fun s t ht => (h.spaced s t ht).imp_left (·.trans hclock)
  cooled := fun s u hu => (h.cooled s u hu).imp_left (·.trans hclock)
  provider := h.provider
  apart := h.apart

/-- A new entry takes a pointer that is not in use. -/
theorem Ledger.create (h : Ledger gaps p clock log) (hnew : scope ∉ p.scopes.map (·.1))
    (hroom : p.scopes.length < maxRequestScopes) :
    Ledger gaps { p with
      scopes := (scope, p.pointers) :: p.scopes
      heap := Function.update p.heap p.pointers {}
      pointers := p.pointers + 1 } clock log := by
  have hold : ∀ s ∈ p.scopes, Function.update p.heap p.pointers {} s.2 = p.heap s.2 := fun s hs =>
    Function.update_of_ne (h.made s hs).ne _ _
  refine ⟨List.nodup_cons.mpr ⟨hnew, h.keys⟩, List.nodup_cons.mpr ⟨fun hmem => ?_, h.entries⟩,
    List.forall_mem_cons.mpr ⟨Nat.lt_succ_self _, fun s hs =>
      (h.made s hs).trans (Nat.lt_succ_self _)⟩,
    hroom, h.past, fun s t ht => ?_, fun s u hu => ?_, h.provider, h.apart⟩
  · obtain ⟨s, hs, heq⟩ := List.mem_map.mp hmem
    exact (h.made s hs).ne heq
  · refine (h.spaced s t ht).imp_right ?_
    rintro ⟨i, hi, hle⟩
    exact ⟨i, List.mem_cons_of_mem _ hi, by simpa only [hold _ hi] using hle⟩
  · refine (h.cooled s u hu).imp_right ?_
    rintro ⟨i, hi, hle⟩
    exact ⟨i, List.mem_cons_of_mem _ hi, by simpa only [hold _ hi] using hle⟩

/-- Finding the entry of a scope, or making it, keeps every entry that is in use. -/
theorem Ledger.entry (h : Ledger gaps p clock log) (hclock : clock ≤ now) (scope : String) :
    Ledger gaps (p.entry now scope).1 now log ∧
      (∀ i, (p.entry now scope).2 = some i → (scope, i) ∈ (p.entry now scope).1.scopes) ∧
      ∀ s ∈ p.scopes, (p.heap s.2).active ≠ none →
        s ∈ (p.entry now scope).1.scopes ∧ (p.entry now scope).1.heap s.2 = p.heap s.2 := by
  have hkept : ∀ s ∈ p.scopes, (p.heap s.2).active ≠ none → s ∈ (p.evict now).scopes := by
    intro s hs hactive
    refine mem_evict.mpr ⟨hs, ?_⟩
    simp [RequestPacer.idle, hactive]
  unfold RequestPacer.entry
  cases hlookup : p.scopes.lookup scope with
  | some i =>
    refine ⟨h.later hclock, fun j hj => ?_, fun s hs _ => ⟨hs, rfl⟩⟩
    obtain rfl := Option.some.inj hj
    exact Assoc.mem_of_lookup hlookup
  | none =>
    simp only
    split_ifs with hfull
    · exact ⟨h.evict hclock, by simp, fun s hs hactive => ⟨hkept s hs hactive, rfl⟩⟩
    · have hnew : scope ∉ (p.evict now).scopes.map (·.1) := fun hmem =>
        Assoc.not_mem_of_lookup_none hlookup (List.map_subset _ (List.filter_subset_self _) hmem)
      refine ⟨(h.evict hclock).create hnew (not_le.mp hfull), fun i hi => ?_,
        fun s hs hactive => ?_⟩
      · obtain rfl := Option.some.inj hi
        exact List.mem_cons_self
      · refine ⟨List.mem_cons_of_mem _ (hkept s hs hactive), ?_⟩
        exact Function.update_of_ne (h.made s hs).ne _ _

/-- A send is granted where every time of its scope and of the provider is over. -/
theorem Ledger.grant {i : ℕ} (h : Ledger gaps p now log) (hentry : (scope, i) ∈ p.scopes)
    (hjitter : 0 ≤ jitter)
    (hover : latest [p.providerUntil, (p.heap i).cooldown, p.providerNext, (p.heap i).next] ≤ now) :
    Ledger gaps (p.grant gaps now jitter i) now (log ++ [.granted scope now]) := by
  have hle := latest_le hover
  simp only [List.mem_cons, List.not_mem_nil, or_false, forall_eq_or_imp, forall_eq] at hle
  obtain ⟨hprovider, hcooldown, hproviderNext, hnext⟩ := hle
  have hother : ∀ s ∈ p.scopes, s.2 ≠ i → (p.grant gaps now jitter i).heap s.2 = p.heap s.2 :=
    fun s _ hne => Function.update_of_ne hne _ _
  have hself : (p.grant gaps now jitter i).heap i =
      { p.heap i with next := now + (gaps.account + jitter), active := some p.channels } :=
    Function.update_self ..
  -- What is recorded for this scope is over by now.
  have hspaced : ∀ t, .granted scope t ∈ log → t + gaps.account ≤ now := by
    intro t ht
    rcases h.spaced scope t ht with hle | ⟨j, hj, hle⟩
    · exact hle
    · rw [Assoc.value_unique h.keys hj hentry] at hle
      exact hle.trans hnext
  have hcooled : ∀ u, .cooldown (some scope) u ∈ log → u ≤ now := by
    intro u hu
    rcases h.cooled scope u hu with hle | ⟨j, hj, hle⟩
    · exact hle
    · rw [Assoc.value_unique h.keys hj hentry] at hle
      exact hle.trans hcooldown
  refine ⟨h.keys, h.entries, h.made, h.size, fun s t ht => ?_, fun s t ht => ?_, fun s u hu => ?_,
    fun u hu => h.provider u (by simpa using hu), ?_⟩
  · have ht' : t ≤ now := by
      rcases List.mem_append.mp ht with ht | ht
      · exact (h.past s t ht).1
      · simp only [List.mem_singleton, Fact.granted.injEq] at ht
        exact ht.2.le
    exact ⟨ht', Int.add_le_add_right ht' _⟩
  · rcases List.mem_append.mp ht with ht | ht
    · rcases h.spaced s t ht with hle | ⟨j, hj, hle⟩
      · exact .inl hle
      · by_cases hji : j = i
        · subst hji
          exact .inl (hle.trans hnext)
        · exact .inr ⟨j, hj, by rw [hother _ hj hji]; exact hle⟩
    · simp only [List.mem_singleton, Fact.granted.injEq] at ht
      obtain ⟨rfl, rfl⟩ := ht
      refine .inr ⟨i, hentry, ?_⟩
      rw [hself]
      simp only
      omega
  · have hu' : .cooldown (some s) u ∈ log := by simpa using hu
    refine (h.cooled s u hu').imp_right ?_
    rintro ⟨j, hj, hle⟩
    refine ⟨j, hj, ?_⟩
    by_cases hji : j = i
    · subst hji
      rw [hself]
      exact hle
    · rw [hother _ hj hji]
      exact hle
  · refine List.pairwise_append.mpr ⟨h.apart, List.pairwise_singleton _ _, fun f hf f' hf' => ?_⟩
    obtain rfl := List.mem_singleton.mp hf'
    cases f with
    | granted s t =>
      refine ⟨(h.past s t hf).2.trans hproviderNext, ?_⟩
      rintro rfl
      exact hspaced t hf
    | cooldown account u =>
      cases account with
      | none => exact (h.provider u hf).trans hprovider
      | some s =>
        rintro rfl
        exact hcooled u hf

/-- A change of the entries that takes no time back keeps the ledger. -/
theorem Ledger.raise {q : RequestPacer} (h : Ledger gaps p clock log)
    (hscopes : q.scopes = p.scopes)
    (hpointers : q.pointers = p.pointers) (hnext : q.providerNext = p.providerNext)
    (huntil : p.providerUntil ≤ q.providerUntil)
    (hheap : ∀ i, (p.heap i).next ≤ (q.heap i).next ∧ (p.heap i).cooldown ≤ (q.heap i).cooldown) :
    Ledger gaps q clock log where
  keys := hscopes ▸ h.keys
  entries := hscopes ▸ h.entries
  made := by
    rw [hscopes, hpointers]
    exact h.made
  size := hscopes ▸ h.size
  past := by
    rw [hnext]
    exact h.past
  spaced := fun s t ht => (h.spaced s t ht).imp_right fun ⟨i, hi, hle⟩ =>
    ⟨i, hscopes ▸ hi, hle.trans (hheap i).1⟩
  cooled := fun s u hu => (h.cooled s u hu).imp_right fun ⟨i, hi, hle⟩ =>
    ⟨i, hscopes ▸ hi, hle.trans (hheap i).2⟩
  provider := fun u hu => (h.provider u hu).trans huntil
  apart := h.apart

/-- A new cooldown that the pacer has. -/
theorem Ledger.record (h : Ledger gaps p clock log) {account : Option String} {u : ℤ}
    (haccount : ∀ s, account = some s → ∃ i, (s, i) ∈ p.scopes ∧ u ≤ (p.heap i).cooldown)
    (hprovider : account = none → u ≤ p.providerUntil) :
    Ledger gaps p clock (log ++ [.cooldown account u]) where
  keys := h.keys
  entries := h.entries
  made := h.made
  size := h.size
  past := fun s t ht => h.past s t (by simpa using ht)
  spaced := fun s t ht => h.spaced s t (by simpa using ht)
  cooled := fun s v hv => by
    rcases List.mem_append.mp hv with hv | hv
    · exact h.cooled s v hv
    · simp only [List.mem_singleton, Fact.cooldown.injEq] at hv
      obtain ⟨rfl, rfl⟩ := hv
      exact .inr (haccount s rfl)
  provider := fun v hv => by
    rcases List.mem_append.mp hv with hv | hv
    · exact h.provider v hv
    · simp only [List.mem_singleton, Fact.cooldown.injEq] at hv
      obtain ⟨rfl, rfl⟩ := hv
      exact hprovider rfl
  apart := by
    refine List.pairwise_append.mpr ⟨h.apart, List.pairwise_singleton _ _, fun f _ f' hf' => ?_⟩
    obtain rfl := List.mem_singleton.mp hf'
    cases f with
    | granted => trivial
    | cooldown account => cases account <;> trivial

/-! ### Goroutines -/

/-- What holds of the pacer and the goroutines. -/
structure Inv (gaps : Gaps) (w : World) : Prop where
  ledger : Ledger gaps w.pacer w.clock w.log
  held : ∀ g scope i, w.routine g = .holding scope i →
    (scope, i) ∈ w.pacer.scopes ∧ (w.pacer.heap i).active ≠ none
  single : ∀ g g' scope i i', w.routine g = .holding scope i →
    w.routine g' = .holding scope i' → g = g'

theorem inv_start (clock : ℤ) : Inv gaps { clock := clock } where
  ledger := ⟨List.nodup_nil, List.nodup_nil, by simp, by simp, by simp, by simp, by simp, by simp,
    List.Pairwise.nil⟩
  held := by simp
  single := by simp

variable {w v : World} {g : ℕ}

/-- A goroutine goes on without holding anything. -/
theorem Inv.move (h : Inv gaps w) {r : Routine} (hr : ∀ scope i, r ≠ .holding scope i) :
    Inv gaps { w with routine := Function.update w.routine g r } := by
  have hold : ∀ g' scope i, Function.update w.routine g r g' = .holding scope i →
      w.routine g' = .holding scope i := by
    intro g' scope i hg'
    by_cases heq : g' = g
    · subst heq
      rw [Function.update_self] at hg'
      exact absurd hg' (hr scope i)
    · rwa [Function.update_of_ne heq] at hg'
  exact ⟨h.ledger, fun g' s i hg' => h.held g' s i (hold g' s i hg'),
    fun g₁ g₂ s i i' h₁ h₂ => h.single g₁ g₂ s i i' (hold g₁ s i h₁) (hold g₂ s i' h₂)⟩

/-- The pacer changed, but the entries of the holders are in use as before. -/
theorem Inv.keep {q : RequestPacer} {log' : List Fact} (h : Inv gaps w)
    (hledger : Ledger gaps q now log')
    (hkeep : ∀ s ∈ w.pacer.scopes, (w.pacer.heap s.2).active ≠ none →
      s ∈ q.scopes ∧ (q.heap s.2).active ≠ none) :
    Inv gaps { w with pacer := q, clock := now, log := log' } where
  ledger := hledger
  held := fun g scope i hg => hkeep (scope, i) (h.held g scope i hg).1 (h.held g scope i hg).2
  single := h.single

/-- A goroutine is granted a send of a scope whose entry is not in use: no one else holds the
scope. -/
theorem Inv.take {i : ℕ} (h : Inv gaps w) (hmem : (scope, i) ∈ w.pacer.scopes)
    (hactive : (w.pacer.heap i).active = none) (hjitter : 0 ≤ jitter)
    (hover : latest [w.pacer.providerUntil, (w.pacer.heap i).cooldown, w.pacer.providerNext,
      (w.pacer.heap i).next] ≤ w.clock) :
    Inv gaps { w with
      pacer := w.pacer.grant gaps w.clock jitter i
      routine := Function.update w.routine g (.holding scope i)
      log := w.log ++ [.granted scope w.clock] } := by
  have hfree : ∀ g' j, w.routine g' ≠ .holding scope j := by
    intro g' j hg'
    obtain ⟨hj, hused⟩ := h.held g' scope j hg'
    rw [Assoc.value_unique h.ledger.keys hj hmem] at hused
    exact hused hactive
  refine ⟨h.ledger.grant hmem hjitter hover, fun g' s j hg' => ?_, fun g₁ g₂ s j j' h₁ h₂ => ?_⟩
  · by_cases heq : g' = g
    · subst heq
      simp only [Function.update_self, Routine.holding.injEq] at hg'
      obtain ⟨rfl, rfl⟩ := hg'
      exact ⟨hmem, by simp [RequestPacer.grant]⟩
    · simp only [Function.update_of_ne heq] at hg'
      obtain ⟨hj, hused⟩ := h.held g' s j hg'
      have hne : j ≠ i := by
        rintro rfl
        exact hused hactive
      exact ⟨hj, by simpa [RequestPacer.grant, Function.update_of_ne hne] using hused⟩
  · by_cases h₁g : g₁ = g <;> by_cases h₂g : g₂ = g
    · rw [h₁g, h₂g]
    · subst h₁g
      simp only [Function.update_self, Routine.holding.injEq, Function.update_of_ne h₂g] at h₁ h₂
      exact absurd (h₁.1 ▸ h₂) (hfree g₂ j')
    · subst h₂g
      simp only [Function.update_self, Routine.holding.injEq, Function.update_of_ne h₁g] at h₁ h₂
      exact absurd (h₂.1 ▸ h₁) (hfree g₁ j)
    · simp only [Function.update_of_ne h₁g, Function.update_of_ne h₂g] at h₁ h₂
      exact h.single g₁ g₂ s j j' h₁ h₂

theorem enter_inv (h : Inv gaps w) (hg : w.routine g = .acquiring scope)
    (hguard : w.clock ≤ now ∧ 0 ≤ jitter ∧ gaps.account + jitter ≤ maxDuration)
    (hv : step gaps w (.enter g now jitter) = some v) : Inv gaps v := by
  simp only [step, hg, if_pos hguard, Option.some.injEq] at hv
  obtain ⟨hclock, hjitter, -⟩ := hguard
  subst hv
  unfold RequestPacer.locked
  by_cases hclosed : (w.pacer.closed || w.pacer.stateErr) = true
  · simp only [hclosed, if_true]
    exact (h.keep (h.ledger.later hclock) fun s hs hactive => ⟨hs, hactive⟩).move (by simp)
  simp only [hclosed, Bool.false_eq_true, if_false]
  obtain ⟨hledger, hentry, hkept⟩ := h.ledger.entry hclock scope
  have hkeep := h.keep hledger fun s hs hactive =>
    ⟨(hkept s hs hactive).1, by rw [(hkept s hs hactive).2]; exact hactive⟩
  rcases hp : w.pacer.entry now scope with ⟨p, _ | i⟩
  · rw [hp] at hkeep
    exact hkeep.move (by simp)
  · rw [hp] at hkeep hentry
    simp only
    cases hactive : (p.heap i).active with
    | some channel => exact hkeep.move (by simp)
    | none =>
      simp only
      split_ifs with hover
      · exact hkeep.take (hentry i rfl) hactive hjitter hover
      · exact hkeep.move (by simp)

theorem release_inv {i : ℕ} {q : RequestPacer} (h : Inv gaps w)
    (hg : w.routine g = .holding scope i) (hq : w.pacer.release i = some q) :
    Inv gaps { w with pacer := q, routine := Function.update w.routine g .idle } := by
  obtain ⟨channel, -, rfl⟩ := Option.map_eq_some_iff.mp hq
  have hheap : ∀ j, (w.pacer.heap j).next ≤
      (Function.update w.pacer.heap i { w.pacer.heap i with active := none } j).next ∧
      (w.pacer.heap j).cooldown ≤
        (Function.update w.pacer.heap i { w.pacer.heap i with active := none } j).cooldown := by
    intro j
    by_cases hj : j = i
    · subst hj
      simp
    · simp [Function.update_of_ne hj]
  refine ⟨h.ledger.raise rfl rfl rfl le_rfl hheap, fun g' s j hg' => ?_,
    fun g₁ g₂ s j j' h₁ h₂ => ?_⟩
  · have hne : g' ≠ g := by
      rintro rfl
      simp at hg'
    simp only [Function.update_of_ne hne] at hg'
    obtain ⟨hj, hused⟩ := h.held g' s j hg'
    -- Another goroutine holds another scope, and so another entry.
    have hji : j ≠ i := by
      rintro rfl
      have hsame : (s, j) = (scope, j) :=
        List.inj_on_of_nodup_map h.ledger.entries hj (h.held g scope j hg).1 rfl
      obtain rfl := (Prod.mk.inj hsame).1
      exact hne (h.single g' g s j j hg' hg)
    exact ⟨hj, by simpa [Function.update_of_ne hji] using hused⟩
  · have hne : g₁ ≠ g ∧ g₂ ≠ g := by
      constructor
      · rintro rfl
        simp at h₁
      · rintro rfl
        simp at h₂
    simp only [Function.update_of_ne hne.1, Function.update_of_ne hne.2] at h₁ h₂
    exact h.single g₁ g₂ s j j' h₁ h₂

theorem remember_inv {delay : ℤ} {saved : Bool} {q : RequestPacer} (h : Inv gaps w)
    (hclock : w.clock ≤ now)
    (hq : w.pacer.remember now delay scope saved = some q) :
    Inv gaps { w with
      pacer := q
      clock := now
      log := w.log ++
        [.cooldown (if accountName scope then some scope else none) (now + delay)] } := by
  unfold RequestPacer.remember at hq
  have hlater := h.ledger.later hclock
  by_cases haccount : accountName scope = true
  · rw [if_pos haccount] at hq ⊢
    obtain ⟨j, hj, hq⟩ := Option.map_eq_some_iff.mp hq
    have hscopes : q.scopes = w.pacer.scopes := by rw [← hq]
    have hself : q.heap j = { w.pacer.heap j with
        cooldown := latest [(w.pacer.heap j).cooldown, now + delay] } := by
      rw [← hq]
      exact Function.update_self ..
    have hother : ∀ k, k ≠ j → q.heap k = w.pacer.heap k := by
      intro k hk
      rw [← hq]
      exact Function.update_of_ne hk ..
    have hledger : Ledger gaps q now w.log := by
      refine hlater.raise hscopes (by rw [← hq]) (by rw [← hq]) (by rw [← hq]) fun k => ?_
      by_cases hk : k = j
      · rw [hk, hself]
        exact ⟨le_rfl, le_latest (by simp)⟩
      · rw [hother k hk]
        exact ⟨le_rfl, le_rfl⟩
    refine h.keep (hledger.record ?_ (by simp)) fun s hs hused => ⟨hscopes ▸ hs, ?_⟩
    · intro s hs
      obtain rfl := Option.some.inj hs
      refine ⟨j, hscopes ▸ Assoc.mem_of_lookup hj, ?_⟩
      rw [hself]
      exact le_latest (by simp)
    · by_cases hk : s.2 = j
      · rw [hk, hself]
        exact hk ▸ hused
      · rwa [hother _ hk]
  · rw [if_neg haccount] at hq ⊢
    have hq := Option.some.inj hq
    have huntil : q.providerUntil = latest [w.pacer.providerUntil, now + delay] := by rw [← hq]
    have hledger : Ledger gaps q now w.log := by
      refine hlater.raise (by rw [← hq]) (by rw [← hq]) (by rw [← hq]) ?_ fun k => ?_
      · rw [huntil]
        exact le_latest (by simp)
      · rw [← hq]
        exact ⟨le_rfl, le_rfl⟩
    refine h.keep (hledger.record (by simp) fun _ => ?_) fun s hs hused => ?_
    · rw [huntil]
      exact le_latest (by simp)
    · rw [← hq]
      exact ⟨hs, hused⟩

theorem step_inv {l : Label} (h : Inv gaps w) (hv : step gaps w l = some v) : Inv gaps v := by
  cases l with
  | call g scope =>
    simp only [step] at hv
    split at hv
    · obtain rfl := Option.some.inj hv
      exact h.move (by simp)
    · cases hv
  | enter g now jitter =>
    cases hg : w.routine g with
    | acquiring scope =>
      by_cases hguard : w.clock ≤ now ∧ 0 ≤ jitter ∧ gaps.account + jitter ≤ maxDuration
      · exact enter_inv h hg hguard hv
      · simp [step, hg, hguard] at hv
    | idle => simp [step, hg] at hv
    | waiting => simp [step, hg] at hv
    | sleeping => simp [step, hg] at hv
    | holding => simp [step, hg] at hv
  | wake g =>
    simp only [step] at hv
    split at hv
    · obtain rfl := Option.some.inj hv
      exact h.move (by simp)
    · split_ifs at hv
      obtain rfl := Option.some.inj hv
      exact h.move (by simp)
    · cases hv
  | giveUp g =>
    simp only [step] at hv
    split at hv
    · cases hv
    · obtain rfl := Option.some.inj hv
      exact h.move (by simp)
  | remember g now delay saved =>
    simp only [step] at hv
    split at hv
    · by_cases hclock : w.clock ≤ now
      · rw [if_pos hclock] at hv
        obtain ⟨q, hq, rfl⟩ := Option.map_eq_some_iff.mp hv
        exact remember_inv h hclock hq
      · rw [if_neg hclock] at hv
        cases hv
    · cases hv
  | release g =>
    simp only [step] at hv
    split at hv
    · next scope i hg =>
      obtain ⟨q, hq, rfl⟩ := Option.map_eq_some_iff.mp hv
      exact release_inv h hg hq
    · cases hv
  | close =>
    obtain rfl := Option.some.inj hv
    exact h.keep (h.ledger.raise rfl rfl rfl le_rfl fun _ => ⟨le_rfl, le_rfl⟩)
      fun s hs hused => ⟨hs, hused⟩

/-- **Request pacing.** In every run of any number of goroutines from a new pacer, with a clock that
does not go back, no scope has two holders, and in the order in which they happened any two granted
sends are `gaps.provider` apart, those of one scope `gaps.account` apart, and none comes before the
end of a cooldown remembered earlier for its scope or for the provider. There are never more scopes
than the bound, and neither a release nor a cooldown of a holder is ever refused. -/
theorem paced (gaps : Gaps) (clock : ℤ) (labels : List Label) :
    let w := Run.run (step gaps) { clock := clock } labels
    (∀ g g' scope i i', w.routine g = .holding scope i →
      w.routine g' = .holding scope i' → g = g') ∧
      w.log.Pairwise (Apart gaps) ∧ w.pacer.scopes.length ≤ maxRequestScopes ∧
      ∀ g scope i, w.routine g = .holding scope i → (step gaps w (.release g)).isSome ∧
        ∀ now delay saved, w.clock ≤ now → (step gaps w (.remember g now delay saved)).isSome := by
  intro w
  have h : Inv gaps w := Run.run_invariant (inv_start clock) (fun _ _ _ => step_inv) labels
  refine ⟨h.single, h.ledger.apart, h.ledger.size, fun g scope i hg => ?_⟩
  obtain ⟨hmem, hused⟩ := h.held g scope i hg
  refine ⟨?_, fun now delay saved hclock => ?_⟩
  · simpa [step, hg, RequestPacer.release, Option.isSome_iff_ne_none] using hused
  · have hlookup := (Assoc.lookup_eq_some h.ledger.keys).mpr hmem
    by_cases haccount : accountName scope = true <;>
      simp [step, hg, hclock, RequestPacer.remember, haccount, hlookup]

/-- Two goroutines ask for one scope: the first holds it, and the second waits for the first and
then sleeps. -/
def handover : List Label :=
  [.call 0 "relay", .call 1 "relay", .enter 0 1000 7, .enter 1 2000 0, .release 0, .wake 1,
    .enter 1 3000 0, .wake 1, .enter 1 500001007 0]

theorem handover_run : let w := Run.run (step ⟨500000000, 100000000⟩) { clock := 1000 } handover
    w.routine 1 = .holding "relay" 0 ∧ w.clock ≤ 500001008 ∧
      w.log = [.granted "relay" 1000, .granted "relay" 500001007] := by
  decide +kernel

theorem second_holder_releases :
    let w := Run.run (step ⟨500000000, 100000000⟩) { clock := 1000 } handover
    w.log = [.granted "relay" 1000, .granted "relay" 500001007] ∧
      (step ⟨500000000, 100000000⟩ w (.release 1)).isSome ∧
      (step ⟨500000000, 100000000⟩ w (.remember 1 500001008 60 true)).isSome := by
  obtain ⟨-, -, -, hheld⟩ := paced ⟨500000000, 100000000⟩ 1000 handover
  obtain ⟨hrelease, hremember⟩ := hheld 1 "relay" 0 handover_run.1
  exact ⟨handover_run.2.2, hrelease, hremember 500001008 60 true handover_run.2.1⟩

end Kaggle
end ComputeRelay
