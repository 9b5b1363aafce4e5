import Shoveler.Query.Calls

/-!
# Views and common table expressions

Every query comes to an end, whatever views and common table expressions
there are and however they refer to each other (`select_terminates`).
-/

namespace Shoveler

namespace QuerySource

open Ast

/-- **Every query comes to an end**: with calls enough there is an answer,
which no further calls change, and there is no endless chain of calls. -/
theorem select_terminates (ctx : Context) (statement : SelectStatement) :
    (∃ n r, ∀ m ≥ n, run ctx m ⟨statement, [], 0⟩ = some r) ∧
      ¬∃ chain : ℕ → Call, chain 0 = ⟨statement, [], 0⟩ ∧
        ∀ i, chain (i + 1) ∈ calls ctx (chain i) := by
  constructor
  · obtain ⟨n, r, hr⟩ := halts ctx ⟨statement, [], 0⟩
    exact ⟨n, r, fun m hm => Recursion.unroll_below rising_executeSelectScoped hm _ _ hr⟩
  · rintro ⟨chain, -, hchain⟩
    have hrank : IsWellFounded Call fun call call' =>
        Prod.Lex (· < ·) (· < ·) call.rank call'.rank := ⟨wellFounded_rank⟩
    obtain ⟨i, hi⟩ := WellFounded.not_rel_apply_succ (h := hrank) chain
    exact hi (calls_less (hchain i))

end QuerySource

end Shoveler
