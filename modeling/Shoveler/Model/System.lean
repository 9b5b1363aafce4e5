import Shoveler.Common.Run
import Shoveler.Model.Statement

/-!
# The system

One database and any number of sessions, driven by events: a session runs
a statement, a session goes away, someone drains the vector overlay. The
commit lock makes a statement run as a whole, so an interleaving of
sessions is a list of events.
-/

namespace Shoveler

/-- The database and its sessions, by number. -/
structure System where
  db : Database
  sessions : ℕ → Session

/-- What can happen to the system. -/
inductive Event where
  | statement (session : ℕ) (statement : Ast.Statement)
  | deinit (session : ℕ)
  | drain (throughGeneration : Generation) (maxCount : ℕ)

namespace System

/-- A system over a database, with no session begun. -/
def start (db : Database) : System := { db := db, sessions := fun _ => {} }

/-- What an event does, and what it returns to the caller. -/
def perform (frontend : Frontend) (sys : System) : Event → System × Result ExecutionResult
  | .statement i statement =>
    let (db, session, outcome) := executeStatement frontend sys.db (sys.sessions i) statement
    ({ db := db, sessions := Function.update sys.sessions i session }, outcome)
  | .deinit i =>
    -- `Session.deinit`; the number is free for a session to come
    let registry := (sys.sessions i).releaseHandle sys.db.registry
    ({ db := { sys.db with registry := registry }
       sessions := Function.update sys.sessions i {} }, .ok .ok)
  | .drain throughGeneration maxCount =>
    let (_, overlay) := sys.db.overlay.drainReady throughGeneration maxCount
    ({ sys with db := { sys.db with overlay := overlay } }, .ok .ok)

/-- The system after an event. -/
def step (frontend : Frontend) (sys : System) (event : Event) : System :=
  (sys.perform frontend event).1

/-- The system after a list of events. -/
def run (frontend : Frontend) (sys : System) (events : List Event) : System :=
  Run.run (step frontend) sys events

/-- A condition at every step of a run. -/
abbrev Along (frontend : Frontend) (C : System → Event → Prop) (sys : System) (events : List Event) :
    Prop :=
  Run.Along (step frontend) C sys events

end System

/-! ## Scripts

Statements over tables of integer columns, to write runs down with. -/

namespace Script

/-- A frontend for runs that neither parse nor select. -/
def frontend : Frontend where
  parse := fun _ => none
  parseBody := fun _ => none
  select := fun _ _ _ => .error .unsupportedExpression

/-- `CREATE TABLE name (column INTEGER, ..)`. -/
def createTable (i : ℕ) (name : String) (columns : List String) : Event :=
  .statement i (.createTable
    { name := ascii name
      columns := columns.map fun column => { name := ascii column, columnType := .integer } })

/-- `DROP TABLE name`. -/
def dropTable (i : ℕ) (name : String) : Event :=
  .statement i (.dropTable { name := ascii name })

/-- `BEGIN`. -/
def begin (i : ℕ) : Event := .statement i .begin

/-- `COMMIT`. -/
def commit (i : ℕ) : Event := .statement i .commit

/-- `ROLLBACK`. -/
def rollback (i : ℕ) : Event := .statement i .rollback

/-- An integer, or `NULL`. -/
def literal : Option Int64 → Ast.Expression
  | some n => .literal (.integer n)
  | none => .literal .null

/-- `INSERT INTO name VALUES (value, ..)`. -/
def insert (i : ℕ) (name : String) (values : List (Option Int64)) : Event :=
  .statement i (.insert { tableName := ascii name, values := values.map literal })

/-- `UPDATE name SET column = value WHERE ..`. -/
def update (i : ℕ) (name column : String) (value : Int64)
    (whereClause : Option Ast.Expression := none) : Event :=
  .statement i (.update
    { tableName := ascii name
      assignments := [⟨ascii column, literal (some value)⟩]
      whereClause := whereClause })

/-- `DELETE FROM name WHERE ..`. -/
def delete (i : ℕ) (name : String) (whereClause : Option Ast.Expression := none) : Event :=
  .statement i (.delete { tableName := ascii name, whereClause := whereClause })

/-- `SELECT * FROM name WHERE ..`. -/
def selectAll (name : String) (whereClause : Option Ast.Expression := none) :
    Ast.SelectStatement where
  projectionItems := [{ expression := .star }]
  projections := [.star]
  fromName := some (ascii name)
  source := some (.baseTable (ascii name) none)
  whereClause := whereClause

/-- `CREATE VIEW name AS SELECT * FROM table`. -/
def createView (i : ℕ) (name table : String) : Event :=
  .statement i (.createView
    { name := ascii name
      query := selectAll table
      bodySql := ascii "SELECT * FROM " ++ ascii table })

/-- Changes to the tables leave the sessions alone. -/
theorem step_createTable_sessions (sys : System) (i : ℕ) (name : String) (columns : List String) :
    (sys.step frontend (createTable i name columns)).sessions = sys.sessions :=
  Function.update_eq_self i sys.sessions

/-- Two empty tables, each with the column `v`. -/
def twoTables : System :=
  (System.start {}).run frontend [createTable 0 "A" ["v"], createTable 0 "B" ["v"]]

theorem twoTables_atRest (j : ℕ) : (twoTables.sessions j).active = false := by
  have hnew : twoTables.sessions = (System.start {}).sessions := by
    unfold twoTables System.run
    rw [Run.run_cons, Run.run_cons, Run.run_nil, step_createTable_sessions,
      step_createTable_sessions]
  rw [hnew]
  rfl

end Script

end Shoveler
