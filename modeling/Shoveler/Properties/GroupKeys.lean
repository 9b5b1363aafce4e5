import Shoveler.Query.Groups
import Shoveler.Query.Outline

/-!
# Selecting a key of the groups

An expression by which the rows are grouped should be allowed where the
groups are projected, filtered and ordered, and stand for the key of the
group. The evaluator looks for a key only where it meets an identifier or
a call: an operator is taken apart first. So a key may be selected if its
parts may be (`Admitted`, `group_key_selected`), and a sum may not, unless
its operands are keys as well (`sum_key_refused`).
-/

namespace Shoveler

open Outcome

namespace QuerySource

open Ast

/-! ## What the checks accept -/

/-- **An expression that may be used of a group**: its identifiers, and the
calls that are no aggregates, are keys, and the aggregates are well
formed. -/
def Admitted (columns : List ColumnBinding) (groupBy : List Expression) : Expression → Prop
  | .literal _ => True
  | .star => False
  | .identifier identifier => expressionMatchesGroupBy (.identifier identifier) groupBy = true
  | .functionCall name args =>
    match functionForName name with
    | some function => validateAggregateCall columns function args = .ok ()
    | none => expressionMatchesGroupBy (.functionCall name args) groupBy = true
  | .binary left _ right => Admitted columns groupBy left ∧ Admitted columns groupBy right

/-- **What an expression means on a group**: its aggregates are of all rows,
and everything else is of the first. -/
def Group.meaning {rowSet : RowSet} (group : Group rowSet) : Expression → Result Value
  | .functionCall name args =>
    match functionForName name with
    | some function => evalAggregateCall group function args
    | none => evalRepresentativeExpression group (.functionCall name args)
  | .binary left operator right => do
    let left ← group.meaning left
    let right ← group.meaning right
    evalBinaryValues left right operator
  | e => evalRepresentativeExpression group e

/-- The keys that `validateAggregateSelect` lets pass. -/
def KeysChecked (columns : List ColumnBinding) (groupBy : List Expression) : Prop :=
  ∀ key ∈ groupBy, expressionContainsAggregate key = false ∧
    validateExpression columns key = .ok ()

section Checks

variable {columns : List ColumnBinding} {groupBy : List Expression}
  {projections : List Projection}

/-- What is taken for a key has passed the checks of the key. -/
theorem KeysChecked.of_matches (hkeys : KeysChecked columns groupBy) {e : Expression}
    (h : expressionMatchesGroupBy e groupBy = true) :
    expressionContainsAggregate e = false ∧ validateExpression columns e = .ok () := by
  obtain ⟨key, hkey, hequal⟩ := List.any_eq_true.1 h
  rw [← expressionContainsAggregate_outline (fun _ => .null) e,
    ← validateExpression_outline (fun _ => .null) columns e,
    outline_eq_of_expressionsEqual .null hequal, expressionContainsAggregate_outline,
    validateExpression_outline]
  exact hkeys key hkey

theorem groupKeyOnly_eq_ok {α : Type} {e : Expression} {x : Result α} {a : α} :
    groupKeyOnly groupBy e x = .ok a ↔ expressionMatchesGroupBy e groupBy = true ∧ x = .ok a := by
  rw [groupKeyOnly]
  by_cases h : expressionMatchesGroupBy e groupBy = true
  · rw [if_pos h]
    exact (and_iff_right h).symm
  · rw [if_neg h]
    exact iff_of_false (fun hok => by cases hok) fun hok => h hok.1

/-- **Exactly these expressions are accepted.** -/
theorem validateGroupedWith_iff (hkeys : KeysChecked columns groupBy) (e : Expression) :
    validateGroupedWith columns groupBy (fun _ => none) e = .ok () ↔
      Admitted columns groupBy e := by
  -- a key has passed the checks already
  have hkey : ∀ e, groupKeyOnly groupBy e (validateExpression columns e) = .ok () ↔
      expressionMatchesGroupBy e groupBy = true := fun e =>
    groupKeyOnly_eq_ok.trans (and_iff_left_of_imp fun hmatch => (hkeys.of_matches hmatch).2)
  induction e using Admitted.induct with
  | case1 literal => exact iff_of_true rfl trivial
  | case2 => exact iff_of_false (fun h => by cases h) id
  | case3 identifier => exact hkey (.identifier identifier)
  | case4 name args function hname => rw [validateGroupedWith, Admitted, hname]
  | case5 name args hname =>
    rw [validateGroupedWith, Admitted, hname]
    exact hkey (.functionCall name args)
  | case6 left operator right ihleft ihright =>
    rw [validateGroupedWith, bind_eq_ok]
    constructor
    · rintro ⟨_, hleft, hright⟩
      exact ⟨ihleft.1 hleft, ihright.1 hright⟩
    · rintro ⟨hleft, hright⟩
      exact ⟨(), ihleft.2 hleft, ihright.2 hright⟩

section Values

variable {rowSet : RowSet} {group : Group rowSet} {first : rowSet.Index}
  {rest : List rowSet.Index} (hrows : group.rowIndices = first :: rest)
include hrows

theorem evalRepresentativeExpression_eq (e : Expression) :
    evalRepresentativeExpression group e = evalExpression rowSet.columns (rowSet.row first) e := by
  rw [evalRepresentativeExpression, hrows]

/-- **And have their meaning on every group.** -/
theorem evalGroupedWith_eq {e : Expression} (h : Admitted rowSet.columns groupBy e) :
    evalGroupedWith group groupBy (fun _ => none) e = group.meaning e := by
  induction e using Admitted.induct with
  | case1 literal => exact (evalRepresentativeExpression_eq hrows (.literal literal)).symm
  | case2 => exact h.elim
  | case3 identifier => exact if_pos h
  | case4 name args function hname => rw [evalGroupedWith, Group.meaning, hname]
  | case5 name args hname =>
    rw [Admitted, hname] at h
    rw [evalGroupedWith, Group.meaning, hname]
    exact if_pos h
  | case6 left operator right ihleft ihright =>
    rw [evalGroupedWith, Group.meaning, ihleft h.1, ihright h.2]

/-- Without aggregates this is the value on the first row. -/
theorem Group.meaning_eq {e : Expression} (h : expressionContainsAggregate e = false) :
    group.meaning e = evalExpression rowSet.columns (rowSet.row first) e := by
  induction e using Group.meaning.induct with
  | case1 name args function hname =>
    rw [expressionContainsAggregate, hname] at h
    cases h
  | case2 name args hname =>
    rw [Group.meaning, hname]
    exact evalRepresentativeExpression_eq hrows _
  | case3 left operator right ihleft ihright =>
    rw [expressionContainsAggregate, Bool.or_eq_false_iff] at h
    rw [Group.meaning, evalExpression, ihleft h.1, ihright h.2]
  | case4 e hcall hbinary =>
    rw [Group.meaning.eq_3 _ _ hcall hbinary]
    exact evalRepresentativeExpression_eq hrows e

end Values

end Checks

/-! ## Where aliases count -/

/-- The projections whose aliases count: within a projection none do. -/
def aliased (projections : List Projection) (allowAlias : Bool) : List Projection :=
  if allowAlias then projections else []

/-- **An expression with its aliases replaced**, where the evaluator looks
for them. -/
def unaliased (projections : List Projection) : Expression → Expression
  | .identifier identifier =>
    (projectionAliasExpression projections (.identifier identifier)).getD (.identifier identifier)
  | .binary left operator right =>
    .binary (unaliased projections left) operator (unaliased projections right)
  | e => e

theorem unaliased_nil (e : Expression) : unaliased [] e = e := by
  induction e using unaliased.induct with
  | case1 identifier =>
    have hnone : projectionAliasExpression [] (.identifier identifier) = none := by
      simp [projectionAliasExpression, aliasMatches]
    rw [unaliased, hnone]
    rfl
  | case2 left operator right ihleft ihright => rw [unaliased, ihleft, ihright]
  | case3 e hidentifier hbinary => exact unaliased.eq_3 _ _ hidentifier hbinary

theorem validateGroupedExpression_eq (columns : List ColumnBinding) (statement : SelectStatement)
    (projections : List Projection) (allowAlias : Bool) (e : Expression) :
    validateGroupedExpression columns statement projections allowAlias e =
      validateGroupedWith columns statement.groupBy (fun _ => none)
        (unaliased (aliased projections allowAlias) e) := by
  cases allowAlias with
  | false => rw [aliased, if_neg Bool.false_ne_true, unaliased_nil]; rfl
  | true =>
    rw [validateGroupedExpression, if_pos rfl, aliased, if_pos rfl]
    induction e using unaliased.induct with
    | case1 identifier =>
      rw [validateGroupedWith, unaliased]
      cases projectionAliasExpression projections (.identifier identifier) <;> rfl
    | case2 left operator right ihleft ihright =>
      rw [unaliased, validateGroupedWith, validateGroupedWith, ihleft, ihright]
    | case3 e hidentifier hbinary =>
      rw [unaliased.eq_3 _ _ hidentifier hbinary]
      cases e with
      | identifier identifier => exact (hidentifier identifier rfl).elim
      | binary left operator right => exact (hbinary left operator right rfl).elim
      | star | literal | functionCall => rfl

theorem evalGroupedExpression_eq {rowSet : RowSet} (group : Group rowSet)
    (statement : SelectStatement) (projections : List Projection) (allowAlias : Bool)
    (e : Expression) :
    evalGroupedExpression group statement projections allowAlias e =
      evalGroupedWith group statement.groupBy (fun _ => none)
        (unaliased (aliased projections allowAlias) e) := by
  cases allowAlias with
  | false => rw [aliased, if_neg Bool.false_ne_true, unaliased_nil]; rfl
  | true =>
    rw [evalGroupedExpression, if_pos rfl, aliased, if_pos rfl]
    induction e using unaliased.induct with
    | case1 identifier =>
      rw [evalGroupedWith, unaliased]
      cases projectionAliasExpression projections (.identifier identifier) <;> rfl
    | case2 left operator right ihleft ihright =>
      rw [unaliased, evalGroupedWith, evalGroupedWith, ihleft, ihright]
    | case3 e hidentifier hbinary =>
      rw [unaliased.eq_3 _ _ hidentifier hbinary]
      cases e with
      | identifier identifier => exact (hidentifier identifier rfl).elim
      | binary left operator right => exact (hbinary left operator right rfl).elim
      | star | literal | functionCall => rfl

/-! ## The keys of a group -/

/-- **A group carries the values that its keys have on its first row.** -/
theorem exists_key_of_group {rowSet : RowSet} {indices : List rowSet.Index}
    {groupBy : List Expression} {groups : List (Group rowSet)}
    (hgroups : buildGroups indices groupBy = .ok groups) {k : ℕ} {key : Expression}
    (hkey : groupBy[k]? = some key) {group : Group rowSet} (hgroup : group ∈ groups) :
    ∃ first rest value, group.rowIndices = first :: rest ∧ group.keys[k]? = some value ∧
      evalExpression rowSet.columns (rowSet.row first) key = .ok value := by
  have hne : groupBy ≠ [] := by
    rintro rfl
    cases hkey
  obtain ⟨keyOf, heval⟩ := evalGroupKeys_of_buildGroups hne hgroups
  have hgrouped := grouped_buildGroups hne heval hgroups
  have hpair : group.pair ∈ groups.map Group.pair := List.mem_map_of_mem hgroup
  obtain ⟨first, rest, hrows, hkeys, -⟩ := hgrouped.first _ hpair
  have hfirst : first ∈ indices := (hgrouped.sublist _ hpair).subset (by simp [hrows])
  have hvalues := mapM_eq_ok.1 (heval first hfirst)
  rw [hkeys] at hvalues
  obtain ⟨hk, rfl⟩ := List.getElem?_eq_some_iff.1 hkey
  have hlt : k < group.keys.length := hvalues.length_eq ▸ hk
  exact ⟨first, rest, group.keys[k], hrows, List.getElem?_eq_getElem hlt, hvalues.get hk hlt⟩

/-- **Where a key of the groups may be selected.** In any grouped query
whose keys pass their checks, an expression is accepted, in a projection as
in `HAVING` and `ORDER BY`, and evaluates for each group to a key of the
group, if and only if with its aliases replaced it may be used of a group
(`Admitted`) and means on each group what the key does. An expression that
is the same as the key does mean that, if none of its identifiers is the
alias of something else, and its literals are those of the key. -/
theorem group_key_selected {rowSet : RowSet} {statement : SelectStatement}
    {projections : List Projection} {indices : List rowSet.Index} {groups : List (Group rowSet)}
    (hkeys : KeysChecked rowSet.columns statement.groupBy)
    (hgroups : buildGroups indices statement.groupBy = .ok groups)
    {k : ℕ} {key : Expression} (hkey : statement.groupBy[k]? = some key) (e : Expression)
    (allowAlias : Bool) :
    let e' := unaliased (aliased projections allowAlias) e
    ((validateGroupedExpression rowSet.columns statement projections allowAlias e = .ok () ∧
      ∀ group ∈ groups, ∃ value, group.keys[k]? = some value ∧
        evalGroupedExpression group statement projections allowAlias e = .ok value) ↔
      Admitted rowSet.columns statement.groupBy e' ∧
        ∀ group ∈ groups, group.meaning e' = evalRepresentativeExpression group key) ∧
    (expressionsEqual e' key = true → literals e' = literals key →
      ∀ group ∈ groups, group.meaning e' = evalRepresentativeExpression group key) := by
  intro e'
  have hfirst : ∀ group ∈ groups, ∃ first rest value, group.rowIndices = first :: rest ∧
      group.keys[k]? = some value ∧ evalRepresentativeExpression group key = .ok value ∧
      evalExpression rowSet.columns (rowSet.row first) key = .ok value := by
    intro group hgroup
    obtain ⟨first, rest, value, hrows, hvalue, heval⟩ := exists_key_of_group hgroups hkey hgroup
    exact ⟨first, rest, value, hrows, hvalue,
      (evalRepresentativeExpression_eq hrows key).trans heval, heval⟩
  refine ⟨?_, fun hequal hliterals group hgroup => ?_⟩
  · rw [validateGroupedExpression_eq, validateGroupedWith_iff hkeys]
    refine and_congr_right fun hadmitted => forall₂_congr fun group hgroup => ?_
    obtain ⟨first, rest, value, hrows, hvalue, hkeyed, -⟩ := hfirst group hgroup
    rw [evalGroupedExpression_eq, evalGroupedWith_eq hrows hadmitted, hkeyed, hvalue]
    exact ⟨fun ⟨_, hsame, heval⟩ => Option.some.inj hsame ▸ heval, fun heval => ⟨_, rfl, heval⟩⟩
  · obtain ⟨first, rest, value, hrows, -, hkeyed, heval⟩ := hfirst group hgroup
    have hmatch : expressionMatchesGroupBy e' statement.groupBy = true :=
      List.any_eq_true.2 ⟨key, List.mem_of_getElem? hkey, hequal⟩
    have hoff : literals e' ++ [] = literals key ++ [] := by rw [hliterals]
    rw [Group.meaning_eq hrows (hkeys.of_matches hmatch).1, hkeyed, ← evalExpression_outline,
      (outline_id_eq hequal hoff).1, evalExpression_outline, heval]

/-! ### Sums -/

/-- Rows of `t (a, b)`. -/
def twoColumns : RowSet where
  columns := [⟨ascii "a", [ascii "t"]⟩, ⟨ascii "b", [ascii "t"]⟩]
  rows := [[.integer 1, .integer 2], [.integer 3, .integer 4], [.integer 1, .integer 2]]

/-- `a + b`. -/
def sumOfBoth : Expression := .binary (.identifier (ascii "a")) .add (.identifier (ascii "b"))

/-- `SELECT a + b FROM t`, with its rows grouped. -/
def sumGroupedBy (keys : List Expression) : SelectStatement where
  projectionItems := [⟨sumOfBoth, none⟩]
  projections := [sumOfBoth]
  fromName := some (ascii "t")
  source := some (.baseTable (ascii "t") none)
  groupBy := keys

/-- `GROUP BY A, B, a + b`. -/
def sumBesideOperands : SelectStatement :=
  sumGroupedBy [.identifier (ascii "A"), .identifier (ascii "B"), sumOfBoth]

/-- All rows. -/
def allThree : List twoColumns.Index := List.finRange 3

/-- The sum may be selected where its operands are keys as well, also where
their names are in capital letters. -/
theorem group_key_selected_sum :
    validateGroupedExpression twoColumns.columns sumBesideOperands [] false sumOfBoth = .ok () ∧
      ∃ groups, buildGroups allThree sumBesideOperands.groupBy = .ok groups ∧
        ∀ group ∈ groups, ∃ value, group.keys[2]? = some value ∧
          evalGroupedExpression group sumBesideOperands [] false sumOfBoth = .ok value := by
  have hkeys : KeysChecked twoColumns.columns sumBesideOperands.groupBy := by
    unfold KeysChecked
    decide
  have hkey : sumBesideOperands.groupBy[2]? = some sumOfBoth := rfl
  have hadmitted : Admitted twoColumns.columns sumBesideOperands.groupBy sumOfBoth :=
    ⟨(by decide : expressionMatchesGroupBy _ _ = true),
      (by decide : expressionMatchesGroupBy _ _ = true)⟩
  have hbuilt : (buildGroups allThree sumBesideOperands.groupBy).isOk = true := by decide
  obtain ⟨groups, hgroups⟩ := exists_ok hbuilt
  obtain ⟨hselected, hmeans⟩ :=
    @group_key_selected _ _ [] _ _ hkeys hgroups _ _ hkey sumOfBoth false
  obtain ⟨hok, heval⟩ := hselected.2 ⟨hadmitted, hmeans (by decide) rfl⟩
  exact ⟨hok, groups, hgroups, heval⟩

/-- **`SELECT a + b FROM t GROUP BY a + b` is refused**: the operands are
looked for among the keys, and the sum is not. -/
theorem sum_key_refused :
    expressionsEqual sumOfBoth sumOfBoth = true ∧
      selectFrom twoColumns (sumGroupedBy [sumOfBoth]) = .error .invalidGrouping := by
  decide +kernel

end QuerySource

end Shoveler
