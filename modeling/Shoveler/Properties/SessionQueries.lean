import Shoveler.Properties.Registries
import Shoveler.Properties.VisibleRows
import Shoveler.Query.TableColumns

/-!
# The queries of a session

What a session asks is answered from the tables as it reads them and from
the views of the database (`queryContext`).
-/

namespace Shoveler

open Outcome Script List

/-- No view has the name of a table. -/
theorem Database.Lockstep.findView_eq_none {db : Database} (h : db.Lockstep) {name : Bytes}
    {slot : ℕ} {table : TableState} (ht : db.getTableState name = some (slot, table)) :
    findView db name = none := by
  obtain ⟨-, hslot, hkey⟩ := Database.getTableState_eq_some ht
  unfold findView
  cases hfind : db.views.find? fun stored => namesEqual stored.name name with
  | none => rfl
  | some stored =>
    have hmem := mem_of_find?_eq_some hfind
    have hname := find?_some hfind
    have happart := (pairwise_append.1 (pairwise_append.1 h.distinct).1).2.2 table.name
      (mem_map_of_mem (mem_of_getElem? hslot)) stored.name (mem_map_of_mem hmem)
    have hsame : namesEqual table.name stored.name = true :=
      namesEqual_iff.2 (hkey.trans (namesEqual_iff.1 hname).symm)
    rw [happart] at hsame
    cases hsame

namespace System

/-- What a query of a session answers. -/
def select (sys : System) (i : ℕ) (statement : Ast.SelectStatement) : Result ResultSet :=
  QuerySource.executeSelect (loadBaseTable sys.db (sys.sessions i)) (findView sys.db) statement

/-- What the queries of a session look at. -/
def queryContext (sys : System) (i : ℕ) : QuerySource.Context :=
  ⟨loadBaseTable sys.db (sys.sessions i), findView sys.db⟩

variable {sys : System} {i : ℕ}

/-- With calls enough the answer is computed. -/
theorem select_of_run {n : ℕ} {statement : Ast.SelectStatement} {answer : Result ResultSet}
    (h : QuerySource.run (sys.queryContext i) n ⟨statement, [], 0⟩ = some answer) :
    sys.select i statement = answer :=
  QuerySource.answer_of_run h

end System

/-- A column compared with a number. -/
def columnIs (column : String) (op : Ast.BinaryOperator) (value : Int64) : Option Ast.Expression :=
  some (.binary (.identifier (ascii column)) op (literal (some value)))

end Shoveler
