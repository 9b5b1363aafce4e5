import Shoveler.Invariant.Schema
import Shoveler.Invariant.StagingRule

/-!
# Changes to the schema

What the statements that create and drop tables, views and procedures
leave: a database in good order that differs in its schema only
(`System.SchemaOnly`), and where they leave the tables alone in its views
and procedures only (`System.BesideTables`).
-/

namespace Shoveler

/-- The statements that create and drop tables, views and procedures. -/
def Ast.Statement.IsDdl : Ast.Statement → Prop
  | .createTable _ | .dropTable _ => True
  | .createView _ | .dropView _ => True
  | .createProcedure _ | .dropProcedure _ => True
  | _ => False

namespace System

/-! ## The schema -/

/-- A database that differs in its schema only. -/
structure SchemaOnly (db db' : Database) : Prop where
  registry : db'.registry = db.registry
  commitSequence : db'.commitSequence = db.commitSequence
  commitQueue : db'.commitQueue = db.commitQueue
  overlay : db'.overlay = db.overlay

theorem SchemaOnly.refl (db : Database) : SchemaOnly db db := ⟨rfl, rfl, rfl, rfl⟩

section Ddl

variable {db : Database}

theorem schemaOnly_createTable (h : db.Valid) (statement : Ast.CreateTableStatement) :
    (orKeep db (db.createTable statement)).1.Valid ∧
      SchemaOnly db (orKeep db (db.createTable statement)).1 := by
  cases hc : db.createTable statement with
  | error e => exact ⟨h, .refl db⟩
  | ok db' =>
    refine ⟨h.createTable hc, ?_⟩
    rcases Database.createTable_eq_ok h hc with rfl | ⟨spec, table, -, -, -, -, rfl⟩
    · exact .refl _
    · exact ⟨rfl, rfl, rfl, rfl⟩

theorem schemaOnly_dropTable (h : db.Valid) (statement : Ast.NamedStatement) :
    (orKeep db (db.dropTable statement)).1.Valid ∧
      SchemaOnly db (orKeep db (db.dropTable statement)).1 := by
  cases hc : db.dropTable statement with
  | error e => exact ⟨h, .refl db⟩
  | ok db' =>
    refine ⟨h.dropTable hc, ?_⟩
    rcases Database.dropTable_eq_ok h hc with rfl | ⟨index, -, rfl⟩
    · exact .refl _
    · exact ⟨rfl, rfl, rfl, rfl⟩

/-- A database that differs in its views and procedures only. -/
structure BesideTables (db db' : Database) : Prop extends SchemaOnly db db' where
  valid : db'.Valid
  tables : db'.tables = db.tables

theorem BesideTables.refl (h : db.Valid) : BesideTables db db := ⟨.refl db, h, rfl⟩

theorem besideTables_createView (h : db.Valid) (statement : Ast.CreateViewStatement) :
    BesideTables db (db.createView statement).1 := by
  have hvalid := h.createView statement
  rcases @Database.createView_cases db statement with ⟨e, he⟩ | ⟨-, -, hc⟩
  · rw [he]
    exact .refl h
  · rw [hc] at hvalid ⊢
    exact ⟨⟨rfl, rfl, rfl, rfl⟩, hvalid, rfl⟩

theorem besideTables_createProcedure (parseBody : Bytes → Option ProcedureBody.Body)
    (h : db.Valid) (statement : Ast.ProcedureStatement) :
    BesideTables db (db.createProcedure parseBody statement).1 := by
  have hvalid := h.createProcedure parseBody statement
  rcases @Database.createProcedure_cases db parseBody statement with ⟨e, he⟩ | ⟨-, body, -, hc⟩
  · rw [he]
    exact .refl h
  · rw [hc] at hvalid ⊢
    exact ⟨⟨rfl, rfl, rfl, rfl⟩, hvalid, rfl⟩

theorem besideTables_dropView (h : db.Valid) (statement : Ast.NamedStatement) :
    BesideTables db (db.dropView statement).1 := by
  have hvalid := h.dropView statement
  rcases Database.dropView_cases h statement with ⟨e, he⟩ | ⟨index, hd⟩
  · rw [he]
    exact .refl h
  · rw [hd] at hvalid ⊢
    exact ⟨⟨rfl, rfl, rfl, rfl⟩, hvalid, rfl⟩

theorem besideTables_dropProcedure (h : db.Valid) (statement : Ast.NamedStatement) :
    BesideTables db (db.dropProcedure statement).1 := by
  have hvalid := h.dropProcedure statement
  rcases Database.dropProcedure_cases h statement with ⟨e, he⟩ | ⟨index, hd⟩
  · rw [he]
    exact .refl h
  · rw [hd] at hvalid ⊢
    exact ⟨⟨rfl, rfl, rfl, rfl⟩, hvalid, rfl⟩

end Ddl

end System

end Shoveler
