import Shoveler.Model.QuerySource
import Shoveler.Model.System

/-!
# Integer arithmetic

An expression is evaluated in four places: over a row of a table, in
`UPDATE` and `DELETE`; over a row and over a group of rows of a source, in
`SELECT`; over the variables of a procedure. A sum or difference of two
integers is the machine's in all of them. It is exact where the exact
result is a 64-bit number, and where it is not the process ends: no error
is returned for it (`arithmetic_exact_iff`). That goes for every sum on the
way, also where a later one would lead back into the range.
-/

namespace Shoveler

open Ast (Expression)

/-- Where an expression is evaluated. -/
inductive Site where
  | row (table : TableDef) (row : Row)
  | source (columns : List QuerySource.ColumnBinding) (row : List Value)
  | group (rowSet : QuerySource.RowSet) (group : QuerySource.Group rowSet)
      (groupBy : List Expression) (onAlias : Expression → Option (Result Value))
  | procedure (env : ProcedureEnv)

namespace Site

/-- What it evaluates to there. -/
def eval : Site → Expression → Result Value
  | .row table stored => evalExpression table stored
  | .source columns values => QuerySource.evalExpression columns values
  | .group _ members groupBy onAlias => QuerySource.evalGroupedWith members groupBy onAlias
  | .procedure env => evalProcedureExpression env

/-- The integer an expression evaluates to. -/
def integer (site : Site) (expression : Expression) : Option ℤ :=
  match site.eval expression with
  | .ok (.integer v) => some v.toInt
  | _ => none

/-- **The exact value** of sums and differences over integers that are
stored, bound or written. -/
def exactValue (site : Site) : Expression → Option ℤ
  | .binary left .add right => do
    return (← exactValue site left) + (← exactValue site right)
  | .binary left .subtract right => do
    return (← exactValue site left) - (← exactValue site right)
  | leaf => site.integer leaf

/-- The exact values of all sums and differences in an expression. -/
def intermediates (site : Site) : Expression → List ℤ
  | .binary left .add right =>
    intermediates site left ++ intermediates site right ++
      (site.exactValue (.binary left .add right)).toList
  | .binary left .subtract right =>
    intermediates site left ++ intermediates site right ++
      (site.exactValue (.binary left .subtract right)).toList
  | _ => []

/-- **Every sum and difference on the way is a 64-bit number.** -/
def Fits (site : Site) (expression : Expression) : Prop :=
  ∀ n ∈ site.intermediates expression, -2 ^ 63 ≤ n ∧ n < 2 ^ 63

instance (site : Site) (expression : Expression) : Decidable (site.Fits expression) :=
  inferInstanceAs (Decidable (∀ n ∈ _, _))

/-- The evaluators agree on what an operator does. -/
theorem eval_binary (site : Site) (left : Expression) (operator : Ast.BinaryOperator)
    (right : Expression) :
    site.eval (.binary left operator right) = (do
      let left ← site.eval left
      let right ← site.eval right
      evalBinaryValues left right operator) := by
  cases site with
  | row table stored => rfl
  | source columns values => rfl
  | group rowSet members groupBy onAlias => rfl
  | procedure env => rfl

/-- An expression is evaluated to this integer, or ends the process. -/
def Settles (site : Site) (expression : Expression) (n : ℤ) : Prop :=
  (site.Fits expression → ∃ v, site.eval expression = .ok (.integer v) ∧ v.toInt = n) ∧
    (¬site.Fits expression → site.eval expression = .error (.panic .integerOverflow))

theorem checkedInteger_of_fits {n : ℤ} (h : -2 ^ 63 ≤ n ∧ n < 2 ^ 63) :
    ∃ v, checkedInteger n = .ok (.integer v) ∧ v.toInt = n := by
  refine ⟨Int64.ofInt n, ?_, Int64.toInt_ofInt_of_le h.1 h.2⟩
  rw [checkedInteger, if_pos h]

theorem checkedInteger_of_not_fits {n : ℤ} (h : ¬(-2 ^ 63 ≤ n ∧ n < 2 ^ 63)) :
    checkedInteger n = .error (.panic .integerOverflow) := by
  rw [checkedInteger, if_neg h]

/-- **An operation on two integers**, for the operator that does it and the
exact result it stands for. -/
theorem settles_binary {site : Site} {left right : Expression} {operator : Ast.BinaryOperator}
    {exact : ℤ → ℤ → ℤ} {l r : ℤ} (hl : site.Settles left l) (hr : site.Settles right r)
    (hop : ∀ v w : Int64, evalBinaryValues (.integer v) (.integer w) operator =
      checkedInteger (exact v.toInt w.toInt))
    (hvalues : site.intermediates (.binary left operator right) =
      site.intermediates left ++ site.intermediates right ++ [exact l r]) :
    site.Settles (.binary left operator right) (exact l r) := by
  have hfits : site.Fits (.binary left operator right) ↔
      site.Fits left ∧ site.Fits right ∧ -2 ^ 63 ≤ exact l r ∧ exact l r < 2 ^ 63 := by
    unfold Fits
    rw [hvalues, List.forall_mem_append, List.forall_mem_append, List.forall_mem_singleton,
      and_assoc]
  rw [Settles, hfits, eval_binary]
  by_cases hleft : site.Fits left
  · obtain ⟨v, hv, rfl⟩ := hl.1 hleft
    by_cases hright : site.Fits right
    · obtain ⟨w, hw, rfl⟩ := hr.1 hright
      rw [hv, hw, Outcome.ok_bind, Outcome.ok_bind, hop]
      exact ⟨fun h => checkedInteger_of_fits h.2.2,
        fun h => checkedInteger_of_not_fits fun hin => h ⟨hleft, hright, hin⟩⟩
    · rw [hv, hr.2 hright]
      exact ⟨fun h => absurd h.2.1 hright, fun _ => rfl⟩
  · rw [hl.2 hleft]
    exact ⟨fun h => absurd h.1 hleft, fun _ => rfl⟩

/-- An expression that is no sum or difference is its own value. -/
theorem settles_leaf {site : Site} {expression : Expression} {n : ℤ}
    (hnone : site.intermediates expression = []) (h : site.integer expression = some n) :
    site.Settles expression n := by
  have hfits : site.Fits expression := by
    intro m hm
    rw [hnone] at hm
    cases hm
  refine ⟨fun _ => ?_, fun hnot => absurd hfits hnot⟩
  unfold integer at h
  split at h
  · rename_i v hv
    exact ⟨v, hv, Option.some.inj h⟩
  · cases h

/-- **Every expression with an exact value settles.** -/
theorem settles_of_exactValue {site : Site} {expression : Expression} {n : ℤ}
    (h : site.exactValue expression = some n) : site.Settles expression n := by
  fun_induction exactValue site expression generalizing n with
  | case1 left right ihleft ihright =>
    have hexact : site.exactValue (.binary left .add right) = some n := h
    obtain ⟨l, hl, h⟩ := Option.bind_eq_some_iff.1 h
    obtain ⟨r, hr, h⟩ := Option.bind_eq_some_iff.1 h
    obtain rfl := Option.some.inj h
    refine settles_binary (ihleft hl) (ihright hr) (fun _ _ => rfl) ?_
    rw [intermediates, hexact]
    rfl
  | case2 left right ihleft ihright =>
    have hexact : site.exactValue (.binary left .subtract right) = some n := h
    obtain ⟨l, hl, h⟩ := Option.bind_eq_some_iff.1 h
    obtain ⟨r, hr, h⟩ := Option.bind_eq_some_iff.1 h
    obtain rfl := Option.some.inj h
    refine settles_binary (ihleft hl) (ihright hr) (fun _ _ => rfl) ?_
    rw [intermediates, hexact]
    rfl
  | case3 leaf hadd hsubtract =>
    refine settles_leaf ?_ h
    unfold intermediates
    split
    · exact (hadd _ _ rfl).elim
    · exact (hsubtract _ _ rfl).elim
    · rfl

end Site

/-- **Integer arithmetic is exact, or ends the process.** Wherever it is
evaluated, an expression of sums and differences over integers has their
exact value if every one of them is a 64-bit number. If one is not, no
error comes back: the process ends in an overflow. -/
theorem arithmetic_exact_iff (site : Site) {expression : Expression} {n : ℤ}
    (h : site.exactValue expression = some n) :
    (site.Fits expression → ∃ v, site.eval expression = .ok (.integer v) ∧ v.toInt = n) ∧
      (¬site.Fits expression → site.eval expression = .error (.panic .integerOverflow)) :=
  Site.settles_of_exactValue h

/-! ### At the boundary -/

/-- `v + 1 - 1`. -/
def plusMinusOne : Expression :=
  .binary (.binary (.identifier (ascii "v")) .add (.literal (.integer 1))) .subtract
    (.literal (.integer 1))

/-- A variable of a procedure, with the next to largest integer. -/
def nearlyLargest : Site := .procedure [⟨ascii "v", .integer 9223372036854775806⟩]

/-- A sum that reaches the largest integer is exact. -/
theorem arithmetic_exact_iff_largest :
    ∃ v, nearlyLargest.eval plusMinusOne = .ok (.integer v) ∧ v.toInt = 9223372036854775806 :=
  (arithmetic_exact_iff nearlyLargest (by decide +kernel)).1 (by decide +kernel)

/-- A table with the largest integer in it, and a transaction. -/
def largestStored : List Event :=
  [Script.createTable 0 "A" ["v"], Script.begin 0,
    Script.insert 0 "A" [some 9223372036854775807]]

/-- **One more than the largest integer ends the process**, in an `UPDATE`,
a `DELETE`, a `SELECT` and a procedure, although the integer that is asked
for is one. -/
theorem sum_ends_process :
    (((System.start {}).run Script.frontend largestStored).perform Script.frontend
        (.statement 0 (.update ⟨ascii "A", [⟨ascii "v", plusMinusOne⟩], none⟩))).2 =
        .error (.panic .integerOverflow) ∧
      (((System.start {}).run Script.frontend largestStored).perform Script.frontend
        (Script.delete 0 "A" (some (.binary plusMinusOne .equal (.literal (.integer 0)))))).2 =
        .error (.panic .integerOverflow) ∧
      QuerySource.selectFrom ⟨[⟨ascii "v", [ascii "A"]⟩], [[.integer 9223372036854775807]]⟩
        { projections := [plusMinusOne], source := some (.baseTable (ascii "A") none) } =
        .error (.panic .integerOverflow) ∧
      evalProcedureExpression [⟨ascii "v", .integer 9223372036854775807⟩] plusMinusOne =
        .error (.panic .integerOverflow) := by
  decide +kernel

end Shoveler
