import Shoveler.Model.Snapshot

/-!
# The snapshot registry

What the registry's operations do to its two questions: how many handles
read a generation (`activeRefCount`), and what is kept of it
(`retainedAt`). `Registry.Good` says that no generation is counted or
kept twice and that none is kept that nobody reads.
-/

namespace Shoveler

open List

namespace Registry

variable {reg : Registry} {g g' : Generation}

/-- What is kept of a generation. -/
def retainedAt (reg : Registry) (g : Generation) : Option RetainedGeneration :=
  reg.retained.find? fun retained => retained.generation = g

/-- **A registry in good order.** -/
structure Good (reg : Registry) : Prop where
  active_nodup : (reg.active.map ActiveGeneration.generation).Nodup
  positive : ∀ a ∈ reg.active, 0 < a.refCount
  retained_nodup : (reg.retained.map RetainedGeneration.generation).Nodup
  retained_read : ∀ r ∈ reg.retained, reg.activeRefCount r.generation ≠ 0

theorem findRetainedIndex_isSome :
    (reg.findRetainedIndex g).isSome = true ↔ (reg.retainedAt g).isSome = true := by
  rw [findRetainedIndex, Keyed.isSome_findIdx?, ← not_iff_not, retainedAt, Option.not_isSome_iff_eq_none]
  exact Keyed.find?_eq_none.symm

/-! ## Counting -/

/-- The count, on the list alone. -/
def countOf (active : List ActiveGeneration) (g : Generation) : ℕ :=
  match active.find? fun a => a.generation = g with
  | none => 0
  | some a => a.refCount

theorem activeRefCount_eq : reg.activeRefCount g = countOf reg.active g := rfl

/-- Changing the count of one generation. -/
theorem countOf_modify {active : List ActiveGeneration}
    (h : (active.map ActiveGeneration.generation).Nodup) {f : ℕ → ℕ} {i : ℕ}
    (hi : active.findIdx? (fun a => decide (a.generation = g)) = some i) :
    countOf (active.modify i fun a => { a with refCount := f a.refCount }) g' =
      if g' = g then f (countOf active g') else countOf active g' := by
  have hmem : g ∈ active.map ActiveGeneration.generation :=
    Keyed.isSome_findIdx?.1 (by rw [hi]; rfl)
  rw [Keyed.modify_findIdx? h hi]
  have hkey : ∀ a : ActiveGeneration,
      (if a.generation = g then { a with refCount := f a.refCount } else a).generation =
        a.generation := fun a => by split <;> rfl
  simp only [countOf, Keyed.find?_map hkey]
  by_cases hg : g' = g
  · subst hg
    cases hfind : active.find? (fun a => decide (a.generation = g')) with
    | none => exact (Keyed.find?_eq_none.1 hfind hmem).elim
    | some a => simp [(Keyed.of_find?_eq_some hfind).2]
  · rw [if_neg hg]
    cases hfind : active.find? (fun a => decide (a.generation = g')) with
    | none => rfl
    | some a =>
      have hne : ¬a.generation = g := fun he => hg ((Keyed.of_find?_eq_some hfind).2.symm.trans he)
      simp [hne]

/-- **Acquiring adds one reader.** -/
theorem activeRefCount_acquire (h : reg.Good) :
    (reg.acquire g).1.activeRefCount g' =
      if g' = g then reg.activeRefCount g' + 1 else reg.activeRefCount g' := by
  simp only [activeRefCount_eq, acquire]
  cases hi : reg.findActiveIndex g with
  | some i => exact countOf_modify h.active_nodup (f := (· + 1)) hi
  | none =>
    have hnone : reg.active.find? (fun a => decide (a.generation = g)) = none :=
      Keyed.find?_eq_none.2 (Keyed.findIdx?_eq_none.1 hi)
    simp only [countOf, find?_append]
    by_cases hg : g' = g
    · subst hg
      simp [hnone]
    · have hne : ¬g = g' := fun he => hg he.symm
      rw [if_neg hg]
      cases reg.active.find? (fun a => decide (a.generation = g')) with
      | none => simp [hne]
      | some a => rfl

/-- A list without the entry of a generation does not count it, and counts
the others as before. -/
theorem countOf_eraseIdx {active : List ActiveGeneration}
    (h : (active.map ActiveGeneration.generation).Nodup) {i : ℕ}
    (hi : active.findIdx? (fun a => decide (a.generation = g)) = some i) :
    countOf (active.eraseIdx i) g' = if g' = g then 0 else countOf active g' := by
  rw [Keyed.eraseIdx_findIdx? h hi]
  by_cases hg : g' = g
  · subst hg
    have hnone : (active.filter (fun a => decide (a.generation ≠ g'))).find?
        (fun a => decide (a.generation = g')) = none := by
      rw [find?_eq_none]
      intro a ha
      simpa using (mem_filter.1 ha).2
    rw [countOf, hnone, if_pos rfl]
  · rw [if_neg hg, countOf, Keyed.find?_filter fun a _ ha => by
      simpa [ha] using hg]
    rfl

/-- **Releasing takes one away.** -/
theorem activeRefCount_release (h : reg.Good) :
    (reg.releaseGeneration g).activeRefCount g' =
      if g' = g then reg.activeRefCount g' - 1 else reg.activeRefCount g' := by
  rw [releaseGeneration]
  cases hi : reg.findActiveIndex g with
  | none =>
    have hnone : reg.active.find? (fun a => decide (a.generation = g)) = none :=
      Keyed.find?_eq_none.2 (Keyed.findIdx?_eq_none.1 hi)
    by_cases hg : g' = g
    · subst hg
      simp [activeRefCount, hnone]
    · rw [if_neg hg]
  | some i =>
    by_cases hcount : reg.activeRefCount g > 1
    · simp only [if_pos hcount]
      exact countOf_modify h.active_nodup (f := (· - 1)) hi
    · simp only [if_neg hcount]
      refine Eq.trans (countOf_eraseIdx h.active_nodup hi) ?_
      by_cases hg : g' = g
      · subst hg
        rw [if_pos rfl, if_pos rfl]
        omega
      · rw [if_neg hg, if_neg hg]
        rfl

/-! ## Good order is kept -/

/-- **In a registry in good order there is nothing to sweep.** -/
theorem Good.sweepReleasedGenerations (h : reg.Good) : reg.sweepReleasedGenerations = reg := by
  have hall : reg.retained.filter (fun r => decide (reg.activeRefCount r.generation ≠ 0)) =
      reg.retained :=
    filter_eq_self.2 fun r hr => decide_eq_true (h.retained_read r hr)
  rw [Registry.sweepReleasedGenerations, hall]

/-- Changing a count changes no generation of the list. -/
theorem map_generation_modify (active : List ActiveGeneration) (i : ℕ) (f : ℕ → ℕ) :
    (active.modify i fun a => { a with refCount := f a.refCount }).map ActiveGeneration.generation =
      active.map ActiveGeneration.generation := by
  induction active generalizing i with
  | nil => simp
  | cons a active ih =>
    cases i with
    | zero => simp
    | succ i => rw [modify_succ_cons, map_cons, map_cons, ih]

theorem Good.acquire (h : reg.Good) : (reg.acquire g).1.Good := by
  have hcount : ∀ g', reg.activeRefCount g' ≠ 0 → (reg.acquire g).1.activeRefCount g' ≠ 0 := by
    intro g' hg'
    rw [activeRefCount_acquire h]
    split <;> omega
  refine ⟨?_, ?_, h.retained_nodup, fun r hr => hcount _ (h.retained_read r hr)⟩
  · simp only [Registry.acquire]
    cases hi : reg.findActiveIndex g with
    | some i =>
      rw [map_generation_modify reg.active i (· + 1)]
      exact h.active_nodup
    | none =>
      have hnew : g ∉ reg.active.map ActiveGeneration.generation := Keyed.findIdx?_eq_none.1 hi
      exact Keyed.nodup_append_new h.active_nodup hnew
  · simp only [Registry.acquire]
    cases hi : reg.findActiveIndex g with
    | some i =>
      simp only [Keyed.modify_findIdx? h.active_nodup hi, forall_mem_map]
      intro b hb
      split
      · exact Nat.succ_pos _
      · exact h.positive b hb
    | none =>
      refine forall_mem_append.2 ⟨h.positive, fun a ha => ?_⟩
      rw [mem_singleton] at ha
      rw [ha]
      exact Nat.one_pos

/-- The list of counts after a release. -/
def released (reg : Registry) (g : Generation) (i : ℕ) : List ActiveGeneration :=
  if reg.activeRefCount g > 1 then
    reg.active.modify i fun a => { a with refCount := a.refCount - 1 }
  else reg.active.eraseIdx i

theorem releaseGeneration_eq {i : ℕ} (hi : reg.findActiveIndex g = some i) :
    reg.releaseGeneration g =
      { reg with active := reg.released g i }.sweepReleasedGenerations := by
  rw [releaseGeneration, hi]
  rfl

theorem Good.releaseGeneration (h : reg.Good) : (reg.releaseGeneration g).Good := by
  cases hi : reg.findActiveIndex g with
  | none =>
    rw [Registry.releaseGeneration, hi]
    exact h
  | some i =>
    rw [releaseGeneration_eq hi]
    refine ⟨?_, ?_, h.retained_nodup.sublist (filter_sublist.map _), fun r hr => ?_⟩
    · show ((reg.released g i).map ActiveGeneration.generation).Nodup
      rw [released]
      split
      · rw [map_generation_modify reg.active i (· - 1)]
        exact h.active_nodup
      · exact h.active_nodup.sublist ((eraseIdx_sublist _ _).map _)
    · show ∀ a ∈ reg.released g i, 0 < a.refCount
      rw [released]
      split
      · rename_i hcount
        intro a ha
        rw [Keyed.modify_findIdx? h.active_nodup hi] at ha
        obtain ⟨b, hb, rfl⟩ := mem_map.1 ha
        by_cases hg : b.generation = g
        · -- the entry found is the one the count was read from
          have hb' : reg.activeRefCount g = b.refCount := by
            rw [activeRefCount, ← hg, Keyed.find?_eq_some_of_mem h.active_nodup hb]
          rw [if_pos hg]
          simp only
          omega
        · rw [if_neg hg]
          exact h.positive b hb
      · exact fun a ha => h.positive a ((eraseIdx_sublist _ _).subset ha)
    · exact of_decide_eq_true (mem_filter.1 hr).2

/-- **What is kept of a generation that is still read after a release is
what was kept before.** -/
theorem retainedAt_releaseGeneration (hread : (reg.releaseGeneration g).activeRefCount g' ≠ 0) :
    (reg.releaseGeneration g).retainedAt g' = reg.retainedAt g' := by
  cases hi : reg.findActiveIndex g with
  | none => rw [releaseGeneration, hi]
  | some i =>
    rw [releaseGeneration_eq hi] at hread ⊢
    refine Keyed.find?_filter fun r _ hr => decide_eq_true ?_
    rw [hr]
    exact hread

theorem mem_retained_releaseGeneration {r : RetainedGeneration}
    (hr : r ∈ (reg.releaseGeneration g).retained) : r ∈ reg.retained := by
  cases hi : reg.findActiveIndex g with
  | none =>
    rw [releaseGeneration, hi] at hr
    exact hr
  | some i =>
    rw [releaseGeneration_eq hi] at hr
    exact mem_of_mem_filter hr

/-! ## Retaining -/

/-- **What retaining a generation that is read does**: it is there
already, or it cannot be captured and nothing changes, or it is added at
the end. -/
theorem retainGeneration_cases (h : reg.Good) (sources : List TableSource) :
    (reg.retainedAt g).isSome = true ∧ reg.retainGeneration g sources = (reg, .ok ()) ∨
      (reg.retainedAt g = none ∧ ∃ e, reg.retainGeneration g sources = (reg, .error e) ∧
        (e = .snapshotRetentionExceeded ∨ sources.mapM RetainedTable.init = .error e)) ∨
      (reg.retainedAt g = none ∧ ∃ tables, sources.mapM RetainedTable.init = .ok tables ∧
        reg.retainGeneration g sources =
          ({ reg with retained := reg.retained ++ [⟨g, tables⟩] }, .ok ())) := by
  rw [retainGeneration, h.sweepReleasedGenerations]
  by_cases hkept : (reg.retainedAt g).isSome = true
  · exact Or.inl ⟨hkept, if_pos (findRetainedIndex_isSome.2 hkept)⟩
  · have hnone : reg.retainedAt g = none := Option.not_isSome_iff_eq_none.1 hkept
    rw [if_neg fun hf => hkept (findRetainedIndex_isSome.1 hf)]
    by_cases hlimit : reg.retained.length ≥ reg.retentionLimit
    · exact Or.inr (Or.inl ⟨hnone, _, if_pos hlimit, Or.inl rfl⟩)
    · simp only [if_neg hlimit]
      cases hs : sources.mapM RetainedTable.init with
      | error e => exact Or.inr (Or.inl ⟨hnone, e, rfl, Or.inr rfl⟩)
      | ok tables => exact Or.inr (Or.inr ⟨hnone, tables, rfl, rfl⟩)

/-- A registry with one more generation kept, that is read and was not
kept before. -/
theorem Good.retain (h : reg.Good) (hread : reg.activeRefCount g ≠ 0)
    (hnew : reg.retainedAt g = none) (tables : List RetainedTable) :
    Registry.Good { reg with retained := reg.retained ++ [⟨g, tables⟩] } := by
  refine ⟨h.active_nodup, h.positive, ?_, ?_⟩
  · have hnot : g ∉ reg.retained.map RetainedGeneration.generation := Keyed.find?_eq_none.1 hnew
    exact Keyed.nodup_append_new h.retained_nodup hnot
  · refine forall_mem_append.2 ⟨h.retained_read, fun r hr => ?_⟩
    rw [mem_singleton] at hr
    rw [hr]
    exact hread

theorem retainedAt_retain (hnew : reg.retainedAt g = none) (tables : List RetainedTable)
    (g' : Generation) :
    Registry.retainedAt { reg with retained := reg.retained ++ [⟨g, tables⟩] } g' =
      if g' = g then some ⟨g, tables⟩ else reg.retainedAt g' := by
  rw [retainedAt, find?_append]
  by_cases hg : g' = g
  · subst hg
    rw [retainedAt] at hnew
    simp [hnew]
  · have hne : ¬g = g' := fun he => hg he.symm
    rw [if_neg hg]
    simp [retainedAt, hne]

end Registry

end Shoveler
