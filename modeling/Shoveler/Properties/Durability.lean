import Shoveler.Frontend.Views
import Shoveler.Properties.Procedures

/-!
# Durability

Whatever SQL statements a program has run, its database comes back from a
checkpoint: the tables with their rows, ids and next ids, and the catalog
with the texts of views and procedures. Two things must be said of the
data, that every table definition can be rebuilt and that the snapshot
fits the format. That the text of every view parses again need not be said
(`reopen_durable`).
-/

namespace Shoveler

open Outcome

/-- **The SQL front end**, with the parser of `parser.zig`. How floats are
read, how the bodies of procedures are parsed and how queries are
evaluated is left open. -/
def Sql.frontend (parseFloat : Bytes → Option UInt64) (others : Frontend) : Frontend :=
  { others with parse := fun sql => (Sql.parse parseFloat sql).toOption }

/-- A statement is what the front end makes of some text. -/
def Event.Written (frontend : Frontend) : Event → Prop
  | .statement _ written => ∃ sql, frontend.parse sql = some written
  | _ => True

variable {parseFloat : Bytes → Option UInt64} {others : Frontend}

theorem Sql.frontend_parse {sql : Bytes} {written : Ast.Statement} :
    (Sql.frontend parseFloat others).parse sql = some written ↔
      Sql.parse parseFloat sql = .ok written := by
  change (Sql.parse parseFloat sql).toOption = some written ↔ _
  cases Sql.parse parseFloat sql with
  | error diagnostic => simp [Except.toOption]
  | ok statement => simp [Except.toOption]

/-- **A view that was created can be restored.** -/
theorem restoresView_of_written {created : Ast.CreateViewStatement} {sql : Bytes}
    (h : Sql.parse parseFloat sql = .ok (.createView created))
    (hsourced : ¬(created.query.source.isNone = true ∧ created.query.fromName.isNone = true)) :
    ∃ stored, RestoresView (Sql.frontend parseFloat others) ⟨created.name, created.bodySql⟩
      stored := by
  obtain ⟨query, hparse, hsource, hfrom, -⟩ := Sql.parse_bodySql h
  refine ⟨⟨created.name, query⟩, rfl, Sql.frontend_parse.2 hparse, fun hnone => hsourced ?_⟩
  have hempty : created.query.source = none := by
    rw [Option.isNone_iff_eq_none.1 hnone.1] at hsource
    exact Option.isSome_eq_false_iff.1 hsource.symm |> Option.isNone_iff_eq_none.1
  rw [hempty, hfrom hempty]
  exact ⟨rfl, rfl⟩

/-- **The text of every view and of every procedure can be restored**, at
every time. -/
theorem restores_run {start : Database} (hstart : start.Loaded (Sql.frontend parseFloat others)
      (Event.Written (Sql.frontend parseFloat others))) {events : List Event}
    (hevents : ∀ event ∈ events, event.Written (Sql.frontend parseFloat others)) :
    ((System.start start).run (Sql.frontend parseFloat others) events).db.Registered
      (fun view _ => ∃ stored, RestoresView (Sql.frontend parseFloat others) view stored)
      (StoresProcedure (Sql.frontend parseFloat others)) := by
  refine hstart.registered (fun _ stored hview => ⟨stored, hview⟩)
    (fun _ _ hprocedure => ⟨hprocedure.name, hprocedure.parses⟩) (fun event hwritten => ?_) hevents
  unfold Event.Registers
  split
  · intro hsourced
    obtain ⟨sql, hsql⟩ := hwritten
    exact restoresView_of_written (Sql.frontend_parse.1 hsql) hsourced
  · exact fun body hbody => ⟨rfl, hbody⟩
  · exact trivial

/-- **What has been committed is durable.** A database that any SQL
statements have led to, in any number of sessions and after any number of
reopenings, comes back with the tables and the catalog it has, if its
table definitions can be rebuilt and its snapshot can be encoded. What the
sessions have staged is in neither. -/
theorem reopen_durable (parseFloat : Bytes → Option UInt64) (others : Frontend) {start : Database}
    (hstart : start.Loaded (Sql.frontend parseFloat others)
      (Event.Written (Sql.frontend parseFloat others))) {events : List Event}
    (hevents : ∀ event ∈ events, event.Written (Sql.frontend parseFloat others)) {db : Database}
    (hdb : db = ((System.start start).run (Sql.frontend parseFloat others) events).db)
    (hrebuilds : ∀ state ∈ db.tables, ∃ table, cloneTableDef state.store.table = .ok table)
    (hencodes : ∀ exported, db.exportSnapshot = .ok exported →
      ∃ bytes, Persistence.encodeSnapshot exported = .ok bytes) :
    ∃ db', db.reopen (Sql.frontend parseFloat others) = .ok db' ∧
      db'.tables = db.tables ∧ db'.catalog = db.catalog := by
  have hvalid : db.Valid := hdb ▸ (hstart.coherent events).valid
  have hregistered := restores_run hstart hevents
  rw [← hdb] at hregistered
  have hrebuilds' : db.Rebuilds := by
    intro state hstate
    obtain ⟨table, htable⟩ := hrebuilds state hstate
    exact (TableDef.cloneTableDef_eq_ok.1 htable).1
  have hbytes := hencodes db.exported
    ((Database.exportSnapshot_eq_ok hvalid).2 ⟨hrebuilds', rfl⟩)
  obtain ⟨views, hviews⟩ := exists_forall₂ hregistered.views fun _ _ hview => hview
  obtain ⟨procedures, hprocedures⟩ : ∃ procedures, List.Forall₂
      (RestoresProcedure (Sql.frontend parseFloat others)) db.catalog.procedures procedures :=
    exists_forall₂ hregistered.procedures fun procedure stored hstored =>
      ⟨⟨procedure.name, [], stored.body⟩, rfl, hstored.parses, rfl⟩
  exact ⟨_, (Database.reopen_eq_ok hvalid).2
    ⟨hrebuilds', hbytes, views, procedures, hviews, hprocedures, rfl⟩, rfl, rfl⟩

/-! ### A table and a view -/

/-- No floats, and no procedures. -/
def plainFrontend : Frontend := Sql.frontend (fun _ => none) Script.frontend

/-- What the front end makes of a text. -/
def written (text : String) : Ast.Statement :=
  match Sql.parse (fun _ => none) (ascii text) with
  | .ok statement => statement
  | .error _ => .begin

/-- A table with a row in it, a second row that is not committed, and a
view whose text ends in an open quote. -/
def viewScript : List Event :=
  [.statement 0 (written "CREATE TABLE A (v INTEGER)"), .statement 0 (written "BEGIN"),
    .statement 0 (written "INSERT INTO A VALUES (7)"), .statement 0 (written "COMMIT;"),
    .statement 1 (written "BEGIN"), .statement 1 (written "INSERT INTO A VALUES (8)"),
    .statement 0 (written "CREATE VIEW w AS SELECT v FROM A WHERE v = `v  ")]

/-- Their database. -/
def viewDatabase : Database := ((System.start {}).run plainFrontend viewScript).db

theorem written_eq {text : String}
    (h : (Sql.parse (fun _ => none) (ascii text)).isOk = true) :
    plainFrontend.parse (ascii text) = some (written text) := by
  refine Sql.frontend_parse.2 ?_
  obtain ⟨statement, hparse⟩ := exists_ok h
  rw [written, hparse]

theorem viewScript_written : ∀ event ∈ viewScript, event.Written plainFrontend := by
  simp only [viewScript, List.forall_mem_cons]
  refine ⟨?_, ?_, ?_, ?_, ?_, ?_, ?_, nofun⟩ <;> exact ⟨_, written_eq (by decide +kernel)⟩

/-- The committed row and the view come back. -/
theorem reopen_durable_view :
    (viewDatabase.tables.map fun state => state.store.rows.map Row.values) = [[[.integer 7]]] ∧
      viewDatabase.catalog.views = [⟨ascii "w", ascii "SELECT v FROM A WHERE v = `v"⟩] ∧
      ∃ db', viewDatabase.reopen plainFrontend = .ok db' ∧
        db'.tables = viewDatabase.tables ∧ db'.catalog = viewDatabase.catalog := by
  have hvalid : viewDatabase.Valid :=
    (Database.Loaded.coherent (.empty : Database.Loaded plainFrontend (fun _ => True) {}) _).valid
  obtain ⟨hrows, hviews, hrebuilds, hencodes⟩ :
      (viewDatabase.tables.map fun state => state.store.rows.map Row.values) = [[[.integer 7]]] ∧
        viewDatabase.catalog.views = [⟨ascii "w", ascii "SELECT v FROM A WHERE v = `v"⟩] ∧
        viewDatabase.Rebuilds ∧
        (Persistence.encodeSnapshot viewDatabase.exported).isOk = true := by
    decide +kernel
  refine ⟨hrows, hviews, ?_⟩
  refine reopen_durable (fun _ => none) Script.frontend .empty viewScript_written rfl
    (fun state hstate => ⟨_, TableDef.cloneTableDef_eq_ok.2 ⟨hrebuilds state hstate, rfl⟩⟩)
    fun exported hexported => ?_
  obtain ⟨-, rfl⟩ := (Database.exportSnapshot_eq_ok hvalid).1 hexported
  exact exists_ok hencodes

end Shoveler
