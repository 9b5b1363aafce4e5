import Shoveler.Common.Sweep
import Shoveler.Model.Executor

/-!
# The loops over the visible rows

`UPDATE` and `DELETE` visit the rows a scan has shown, one after the
other: each loop is a sweep (`stageUpdates_eq_sweep`,
`stageDeletes_eq_sweep`), and what it does with a row is a step that fails,
passes the row over, or stages one change.
-/

namespace Shoveler

open Outcome

variable {statement : Ast.UpdateStatement} {row : Row}

/-- What `UPDATE` does with one visible row. -/
def updateStep (store : Result RowStore) (table : TableDef) (statement : Ast.UpdateStatement)
    (row : Row) (tx : Transaction) : Result (Option Transaction) := do
  match ← updatedValues table statement row with
  | none => return none
  | some values => return some (← tx.update store row.id values)

/-- What `DELETE` does with one visible row. -/
def deleteStep (store : Result RowStore) (table : TableDef) (whereClause : Option Ast.Expression)
    (row : Row) (tx : Transaction) : Result (Option Transaction) := do
  if ← matchesWhere table row whereClause then return some (← tx.delete store row.id)
  else return none

section Loops

variable (store : Result RowStore) (table : TableDef)

theorem stageUpdates_eq_sweep (statement : Ast.UpdateStatement) (rows : List Row)
    (tx : Transaction) :
    stageUpdates store table statement rows tx =
      sweep (updateStep store table statement) rows tx := by
  induction rows generalizing tx with
  | nil => rfl
  | cons row rows ih =>
    rw [stageUpdates, sweep, updateStep]
    cases updatedValues table statement row with
    | error err => rfl
    | ok new =>
      cases new with
      | none => exact ih tx
      | some values =>
        cases hu : tx.update store row.id values with
        | error err => simp [hu]
        | ok tx' => simp [hu, ih tx']

theorem stageDeletes_eq_sweep (whereClause : Option Ast.Expression) (rows : List Row)
    (tx : Transaction) :
    stageDeletes store table whereClause rows tx =
      sweep (deleteStep store table whereClause) rows tx := by
  induction rows generalizing tx with
  | nil => rfl
  | cons row rows ih =>
    rw [stageDeletes, sweep, deleteStep]
    cases matchesWhere table row whereClause with
    | error err => rfl
    | ok holds =>
      cases holds with
      | false => exact ih tx
      | true =>
        cases tx.delete store row.id with
        | error err => simp
        | ok tx' => simp [ih tx']

/-- A row that does not match is passed over by both. -/
theorem updateStep_of_unmatched (h : matchesWhere table row statement.whereClause = .ok false)
    (tx : Transaction) :
    updateStep store table statement row tx = .ok none := by
  simp [updateStep, updatedValues, h]

theorem deleteStep_of_unmatched {whereClause : Option Ast.Expression}
    (h : matchesWhere table row whereClause = .ok false) (tx : Transaction) :
    deleteStep store table whereClause row tx = .ok none := by
  simp [deleteStep, h]

end Loops

section Steps

variable {store : Result RowStore} {table : TableDef} {tx tx' : Transaction}

/-- Where an `UPDATE` has values for a row, `WHERE` holds of it and the
assignments gave them. -/
theorem updatedValues_eq_some {values : List Value}
    (h : updatedValues table statement row = .ok (some values)) :
    matchesWhere table row statement.whereClause = .ok true ∧
      applyAssignments table row statement.assignments row.values = .ok values := by
  unfold updatedValues at h
  obtain ⟨holds, hwhere, h⟩ := bind_eq_ok.1 h
  cases holds with
  | false => cases Except.ok.inj h
  | true =>
    obtain ⟨values', hvalues, hsome⟩ := bind_eq_ok.1 h
    obtain rfl := Option.some.inj (Except.ok.inj hsome)
    exact ⟨hwhere, hvalues⟩

/-- A step of `UPDATE` rewrites the row in view, or does nothing. -/
theorem updateStep_eq_ok {next : Option Transaction}
    (h : updateStep store table statement row tx = .ok next) :
    ∃ new, updatedValues table statement row = .ok new ∧
      (new = none ∧ next = none ∨ ∃ values tx', new = some values ∧ next = some tx' ∧
        tx.update store row.id values = .ok tx') := by
  unfold updateStep at h
  obtain ⟨new, hnew, h⟩ := bind_eq_ok.1 h
  refine ⟨new, hnew, ?_⟩
  cases new with
  | none => exact Or.inl ⟨rfl, (Except.ok.inj h).symm⟩
  | some values =>
    obtain ⟨tx', htx, h⟩ := bind_eq_ok.1 h
    exact Or.inr ⟨values, tx', rfl, (Except.ok.inj h).symm, htx⟩

/-- What one round of `UPDATE` does where it stages. -/
theorem updateStep_eq_some (h : updateStep store table statement row tx = .ok (some tx')) :
    matchesWhere table row statement.whereClause = .ok true ∧
      ∃ values, applyAssignments table row statement.assignments row.values = .ok values ∧
        tx.update store row.id values = .ok tx' := by
  obtain ⟨new, hnew, ⟨-, hnext⟩ | ⟨values, tx₁, rfl, hnext, hupdate⟩⟩ := updateStep_eq_ok h
  · cases hnext
  · obtain rfl := Option.some.inj hnext
    obtain ⟨hwhere, hvalues⟩ := updatedValues_eq_some hnew
    exact ⟨hwhere, values, hvalues, hupdate⟩

/-- What one round of `DELETE` does where it stages. -/
theorem deleteStep_eq_some {whereClause : Option Ast.Expression}
    (h : deleteStep store table whereClause row tx = .ok (some tx')) :
    tx.delete store row.id = .ok tx' := by
  unfold deleteStep at h
  obtain ⟨holds, -, h⟩ := bind_eq_ok.1 h
  cases holds with
  | false => cases Except.ok.inj h
  | true =>
    obtain ⟨tx₁, htx, h⟩ := bind_eq_ok.1 h
    obtain rfl := Option.some.inj (Except.ok.inj h)
    exact htx

end Steps

end Shoveler
