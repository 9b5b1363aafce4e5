import Mathlib.Data.List.Basic

/-!
# Running a step until it stops

A step on states with a size that every step makes smaller can be taken
until there is none, with one more round than the size. `exhaust`
keeps the last state, `collect` what the steps give on the way; both
satisfy the equation one would write without counting rounds.
-/

namespace Shoveler

namespace Unfold

variable {σ α : Type} (size : σ → ℕ)

/-- At most so many steps. -/
def iterate (step : σ → Option σ) : ℕ → σ → σ
  | 0, s => s
  | n + 1, s =>
    match step s with
    | none => s
    | some s' => iterate step n s'

/-- **Steps until there is none.** -/
def exhaust (step : σ → Option σ) (s : σ) : σ := iterate step (size s + 1) s

/-- What at most so many steps give. -/
def gather (next : σ → Option (α × σ)) : ℕ → σ → List α
  | 0, _ => []
  | n + 1, s =>
    match next s with
    | none => []
    | some (a, s') => a :: gather next n s'

/-- **What the steps give until there is none.** -/
def collect (next : σ → Option (α × σ)) (s : σ) : List α := gather next (size s + 1) s

section Exhaust

variable {size : σ → ℕ} {step : σ → Option σ}

theorem iterate_stable (h : ∀ s s', step s = some s' → size s' < size s) {n m : ℕ} {s : σ}
    (hn : size s < n) (hm : size s < m) : iterate step n s = iterate step m s := by
  induction n generalizing m s with
  | zero => omega
  | succ n ih =>
    obtain ⟨m, rfl⟩ := Nat.exists_eq_succ_of_ne_zero (Nat.ne_zero_of_lt hm)
    rw [iterate, iterate]
    cases hs : step s with
    | none => rfl
    | some s' =>
      have hless := h s s' hs
      exact ih (by omega) (by omega)

/-- Where no step is possible. -/
theorem exhaust_of_none {s : σ} (h : step s = none) : exhaust size step s = s := by
  rw [exhaust, iterate, h]

/-- After a step. -/
theorem exhaust_of_some (h : ∀ s s', step s = some s' → size s' < size s) {s s' : σ}
    (hs : step s = some s') : exhaust size step s = exhaust size step s' := by
  rw [exhaust, iterate, hs]
  exact iterate_stable h (h s s' hs) (Nat.lt_succ_self _)

/-- **Induction over the steps**: what holds where there is none, and of a
state if it holds after its step. -/
theorem exhaust_induction (h : ∀ s s', step s = some s' → size s' < size s) {P : σ → σ → Prop}
    (hstop : ∀ s, step s = none → P s s)
    (hstep : ∀ s s' t, step s = some s' → P s' t → P s t) (s : σ) :
    P s (exhaust size step s) := by
  induction hn : size s using Nat.strongRecOn generalizing s with
  | ind n ih =>
    cases hs : step s with
    | none =>
      rw [exhaust_of_none hs]
      exact hstop s hs
    | some s' =>
      rw [exhaust_of_some h hs]
      have hless := h s s' hs
      exact hstep s s' _ hs (ih (size s') (by omega) s' rfl)

/-- There is no step where it stops. -/
theorem step_exhaust (h : ∀ s s', step s = some s' → size s' < size s) (s : σ) :
    step (exhaust size step s) = none :=
  exhaust_induction h (P := fun _ t => step t = none) (fun _ hs => hs) (fun _ _ _ _ ht => ht) s

end Exhaust

section Collect

variable {size : σ → ℕ} {next : σ → Option (α × σ)}

theorem gather_stable (h : ∀ s a s', next s = some (a, s') → size s' < size s) {n m : ℕ} {s : σ}
    (hn : size s < n) (hm : size s < m) : gather next n s = gather next m s := by
  induction n generalizing m s with
  | zero => omega
  | succ n ih =>
    obtain ⟨m, rfl⟩ := Nat.exists_eq_succ_of_ne_zero (Nat.ne_zero_of_lt hm)
    rw [gather, gather]
    cases hs : next s with
    | none => rfl
    | some result =>
      have hless := h s result.1 result.2 hs
      exact congrArg (result.1 :: ·) (ih (by omega) (by omega))

theorem collect_of_none {s : σ} (h : next s = none) : collect size next s = [] := by
  rw [collect, gather, h]

theorem collect_of_some (h : ∀ s a s', next s = some (a, s') → size s' < size s) {s s' : σ} {a : α}
    (hs : next s = some (a, s')) : collect size next s = a :: collect size next s' := by
  rw [collect, gather, hs]
  exact congrArg (a :: ·) (gather_stable h (h s a s' hs) (Nat.lt_succ_self _))

end Collect

end Unfold

end Shoveler
