import Mathlib.Data.Nat.Find
import Mathlib.Order.WellFounded

/-!
# Recursion that comes to an end

A recursive function is given by its body, which takes what it calls
itself with as an argument (`F`). Unrolled so many times it gives an
answer, or none if it has to call itself once more (`unroll`). What is
known of more calls is known of more results (`Rising`), and where the
calls the body can make are finitely many and smaller in a well-founded
order, enough unrolling gives an answer everywhere (`halts`): then there
is a total function that satisfies the equation of the recursion
(`value_eq`).
-/

namespace Shoveler

namespace Recursion

variable {κ α : Type} {F : (κ → Option α) → κ → Option α}

/-- The recursion, with at most so many calls inside one another. -/
def unroll (F : (κ → Option α) → κ → Option α) : ℕ → κ → Option α
  | 0 => fun _ => none
  | n + 1 => F (unroll F n)

/-- Whatever the one answers the other answers too. -/
def Below (f g : κ → Option α) : Prop := ∀ k a, f k = some a → g k = some a

/-- **The more is known of the calls, the more of the result.** -/
def Rising (F : (κ → Option α) → κ → Option α) : Prop := ∀ f g, Below f g → Below (F f) (F g)

/-- **The calls the body may make**: with answers to all of them it
answers. -/
def Calls (F : (κ → Option α) → κ → Option α) (calls : κ → List κ) : Prop :=
  ∀ f k, (∀ k' ∈ calls k, ∃ a, f k' = some a) → ∃ a, F f k = some a

/-- More unrolling answers no less, and nothing else. -/
theorem unroll_below (hF : Rising F) {n m : ℕ} (h : n ≤ m) : Below (unroll F n) (unroll F m) := by
  induction n generalizing m with
  | zero =>
    intro k a hk
    cases hk
  | succ n ih =>
    obtain ⟨m, rfl⟩ : ∃ m', m = m' + 1 := ⟨m - 1, by omega⟩
    exact hF _ _ (ih (Nat.le_of_succ_le_succ h))

/-- Two answers are the same. -/
theorem unroll_unique (hF : Rising F) {n m : ℕ} {k : κ} {a b : α} (ha : unroll F n k = some a)
    (hb : unroll F m k = some b) : a = b := by
  have ha' := unroll_below hF (Nat.le_max_left n m) k a ha
  have hb' := unroll_below hF (Nat.le_max_right n m) k b hb
  exact Option.some.inj (ha'.symm.trans hb')

/-- Finitely many calls that are all answered are answered together. -/
theorem exists_unroll_forall (hF : Rising F) {l : List κ}
    (h : ∀ k ∈ l, ∃ n a, unroll F n k = some a) : ∃ n, ∀ k ∈ l, ∃ a, unroll F n k = some a := by
  induction l with
  | nil => exact ⟨0, fun k hk => absurd hk List.not_mem_nil⟩
  | cons k l ih =>
    obtain ⟨hk, hl⟩ := List.forall_mem_cons.1 h
    obtain ⟨n, a, ha⟩ := hk
    obtain ⟨m, hm⟩ := ih hl
    refine ⟨max n m, List.forall_mem_cons.2 ⟨?_, fun k' hk' => ?_⟩⟩
    · exact ⟨a, unroll_below hF (Nat.le_max_left n m) k a ha⟩
    · obtain ⟨b, hb⟩ := hm k' hk'
      exact ⟨b, unroll_below hF (Nat.le_max_right n m) k' b hb⟩

/-- **A recursion whose calls get smaller comes to an end.** -/
theorem halts (hF : Rising F) {calls : κ → List κ} (hcalls : Calls F calls) {r : κ → κ → Prop}
    (hr : WellFounded r) (hless : ∀ k, ∀ k' ∈ calls k, r k' k) (k : κ) :
    ∃ n a, unroll F n k = some a := by
  induction k using hr.induction with
  | h k ih =>
    obtain ⟨n, hn⟩ := exists_unroll_forall hF fun k' hk' => ih k' (hless k k' hk')
    obtain ⟨a, ha⟩ := hcalls (unroll F n) k hn
    exact ⟨n + 1, a, ha⟩

/-! ## Bodies that may fail

A body is a chain of steps in `ExceptT`, and what is said of its answers is
said step by step. -/

section Steps

variable {ε β γ : Type} {x y : ExceptT ε Option β} {f g : β → ExceptT ε Option γ}

/-- The answers of a chain. -/
theorem bind_eq_some {r : Except ε γ} :
    (x >>= f) = some r ↔
      (∃ e, x = some (.error e) ∧ r = .error e) ∨ ∃ b, x = some (.ok b) ∧ f b = some r := by
  match x with
  | none =>
    constructor
    · intro h
      cases h
    · rintro (⟨e, h, -⟩ | ⟨b, h, -⟩)
      · cases h
      · cases h
  | some (.error e) =>
    constructor
    · intro h
      exact .inl ⟨e, rfl, (Option.some.inj h).symm⟩
    · rintro (⟨e', h, rfl⟩ | ⟨b, h, -⟩)
      · cases h
        rfl
      · cases h
  | some (.ok b) =>
    constructor
    · exact fun h => .inr ⟨b, rfl, h⟩
    · rintro (⟨e, h, -⟩ | ⟨b', h, hr⟩)
      · cases h
      · cases h
        exact hr

/-- What makes no call answers at once. -/
theorem liftExcept_eq_some (r : Except ε β) :
    (liftExcept r : ExceptT ε Option β) = some r := by
  cases r with
  | error e => rfl
  | ok b => rfl

/-- And what is made of it by a step that may fail. -/
theorem bind_liftExcept_of_some {r : Except ε β} (hx : x = some r) (f : β → Except ε γ) :
    (x >>= fun b => liftExcept (f b)) = some (r >>= f) := by
  cases r with
  | error e => exact bind_eq_some.2 (.inl ⟨e, hx, rfl⟩)
  | ok b => exact bind_eq_some.2 (.inr ⟨b, hx, liftExcept_eq_some (f b)⟩)

/-- A chain answers what it answered, where its steps do. -/
theorem below_bind (hx : ∀ r, x = some r → y = some r)
    (hf : ∀ b r, f b = some r → g b = some r) (r : Except ε γ) (h : (x >>= f) = some r) :
    (y >>= g) = some r := by
  rcases bind_eq_some.1 h with ⟨e, hx', rfl⟩ | ⟨b, hx', hb⟩
  · exact bind_eq_some.2 (.inl ⟨e, hx _ hx', rfl⟩)
  · exact bind_eq_some.2 (.inr ⟨b, hx _ hx', hf b r hb⟩)

/-- A chain answers where its steps do. -/
theorem exists_bind (hx : ∃ r, x = some r) (hf : ∀ b, ∃ r, f b = some r) :
    ∃ r, (x >>= f) = some r := by
  obtain ⟨r, hr⟩ := hx
  cases r with
  | error e => exact ⟨.error e, bind_eq_some.2 (.inl ⟨e, hr, rfl⟩)⟩
  | ok b =>
    obtain ⟨r, hb⟩ := hf b
    exact ⟨r, bind_eq_some.2 (.inr ⟨b, hr, hb⟩)⟩

end Steps

section Value

theorem exists_isSome (hhalts : ∀ k, ∃ n a, unroll F n k = some a) (k : κ) :
    ∃ n, (unroll F n k).isSome = true := by
  obtain ⟨n, a, ha⟩ := hhalts k
  exact ⟨n, by rw [ha]; rfl⟩

variable (hhalts : ∀ k, ∃ n a, unroll F n k = some a)

/-- **The function the recursion defines.** -/
def value (k : κ) : α :=
  (unroll F (Nat.find (exists_isSome hhalts k)) k).get (Nat.find_spec (exists_isSome hhalts k))

theorem unroll_value (k : κ) : ∃ n, unroll F n k = some (value hhalts k) :=
  ⟨_, (Option.some_get _).symm⟩

/-- Any answer is its value. -/
theorem value_of_unroll (hF : Rising F) {n : ℕ} {k : κ} {a : α} (h : unroll F n k = some a) :
    value hhalts k = a := by
  obtain ⟨m, hm⟩ := unroll_value hhalts k
  exact unroll_unique hF hm h

/-- **It satisfies the equation of the recursion.** -/
theorem value_eq (hF : Rising F) (k : κ) :
    F (fun k' => some (value hhalts k')) k = some (value hhalts k) := by
  obtain ⟨n, hn⟩ := unroll_value hhalts k
  cases n with
  | zero => cases hn
  | succ n =>
    have hbelow : Below (unroll F n) fun k' => some (value hhalts k') :=
      fun k' a ha => congrArg some (value_of_unroll hhalts hF ha)
    exact hF _ _ hbelow k _ hn

end Value

end Recursion

end Shoveler
