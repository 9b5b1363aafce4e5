import Shoveler.Properties.CommittedStores
import Shoveler.Properties.OwnTables

/-!
# Rows and the columns they are read with

A query takes the columns of a table from the catalog as it is now, and
its rows from the generation its session reads, found by name. The rows
have passed the checks of the definition they were captured with. They fit
the columns where the two definitions agree (`ReadsCurrent`), as they do in
every run in which tables are dropped only while no session is active, and
created only while no table transaction is open (`rows_fit_columns`). A
table dropped and created again with more columns under an older reader is
read with rows that are too short, and the evaluators then reach past their
end (`old_rows_under_new_columns`).
-/

namespace Shoveler

open Outcome List

/-- **The rows of a table fit its columns**: each has one value for each
column, which the column may hold, and so a value at every index at which
a column is found. -/
structure BaseTable.RowsFit (table : BaseTable) : Prop where
  counts : ∀ row ∈ table.rows, row.values.length = table.columns.length
  holds : ∀ row ∈ table.rows, List.Forall₂ ColumnDef.Holds table.columns row.values
  indexed : ∀ row ∈ table.rows, ∀ name index,
    (table.columns.findIdx? fun column => namesEqual column.name name) = some index →
      index < row.values.length

theorem BaseTable.RowsFit.of_holds {table : BaseTable}
    (h : ∀ row ∈ table.rows, List.Forall₂ ColumnDef.Holds table.columns row.values) :
    table.RowsFit := by
  refine ⟨fun row hrow => (h row hrow).length_eq.symm, h, fun row hrow name index hindex => ?_⟩
  obtain ⟨hlt, -⟩ := findIdx?_eq_some_iff_getElem.1 hindex
  rw [← (h row hrow).length_eq]
  exact hlt

/-- **What a session reads of a table has the table's columns**: the
generation that is kept for it, and the table its own rows are staged
for. -/
structure ReadsCurrent (db : Database) (session : Session) (t : TableState) : Prop where
  kept : ∀ store, session.snapshotStoreForRead db t.name = .ok (some store) →
    store.table.columns = t.store.table.columns
  staged : ∀ tx store, session.transactionForRead t.name = some tx →
    storeAt db.tables tx.slot = .ok store → store.table.columns = t.store.table.columns

/-- Only the columns of a definition are asked about a row. -/
theorem Row.Conforms.of_columns {table table' : TableDef} {row : Row} (h : row.Conforms table)
    (hcolumns : table.columns = table'.columns) : row.Conforms table' := by
  unfold Row.Conforms validateValues at h ⊢
  rw [← hcolumns]
  exact h

/-! ## One read -/

section Scan

variable {db : Database} {session : Session} {t : TableState} {rows : List Row}

/-- A row of a store was checked against the definition of the store. -/
theorem conforms_of_cloneRows {store : RowStore} (h : cloneRowsFromStore store = .ok rows)
    {row : Row} (hrow : row ∈ rows) : row.Conforms store.table := by
  obtain ⟨hall, rfl⟩ := mapM_clone_eq_ok.1 h
  exact hall row hrow

/-- A visible row was checked against the definition of the base, or as an
insert against that of the slot. -/
theorem conforms_of_scanWithBase {tx : Transaction} {store : Result RowStore} {base : RowStore}
    (h : tx.scanWithBase store base = .ok rows) {row : Row} (hrow : row ∈ rows) :
    row.Conforms base.table ∨ ∃ s, store = .ok s ∧ row.Conforms s.table := by
  simp only [Transaction.scanWithBase, bind_eq_ok] at h
  obtain ⟨-, -, committed, hcommitted, inserted, hinserted, hrows⟩ := h
  obtain rfl := Except.ok.inj hrows
  rcases mem_append.1 hrow with hrow | hrow
  · obtain ⟨old, -, hclone⟩ := exists_left_of_forall₂ (mapM_eq_ok.1 hcommitted) hrow
    obtain ⟨hconforms, rfl⟩ := Row.clone_eq_ok.1 hclone
    exact Or.inl hconforms
  · obtain ⟨old, -, hclone⟩ := exists_left_of_forall₂ (mapM_eq_ok.1 hinserted) hrow
    obtain ⟨s, hs, hclone⟩ := bind_eq_ok.1 hclone
    obtain ⟨hconforms, rfl⟩ := Row.clone_eq_ok.1 hclone
    exact Or.inr ⟨s, hs, hconforms⟩

/-- **A scan gives rows of the table's columns** where what is read has
them. -/
theorem ReadsCurrent.scan (h : ReadsCurrent db session t)
    (hscan : scanRowsForTable db session t = .ok rows) {row : Row} (hrow : row ∈ rows) :
    row.Conforms t.store.table := by
  unfold scanRowsForTable at hscan
  cases htx : session.transactionForRead t.name with
  | none =>
    rw [htx] at hscan
    obtain ⟨found, hfound, hclone⟩ := bind_eq_ok.1 hscan
    cases found with
    | none => exact conforms_of_cloneRows hclone hrow
    | some store => exact (conforms_of_cloneRows hclone hrow).of_columns (h.kept store hfound)
  | some tx =>
    rw [htx] at hscan
    obtain ⟨base, hbase, hscan⟩ := bind_eq_ok.1 hscan
    rcases conforms_of_scanWithBase hscan hrow with hconforms | ⟨s, hs, hconforms⟩
    · unfold Session.baseStoreForRead at hbase
      obtain ⟨found, hfound, hbase⟩ := bind_eq_ok.1 hbase
      obtain rfl := Except.ok.inj hbase
      cases found with
      | none => exact hconforms
      | some store => exact hconforms.of_columns (h.kept store hfound)
    · exact hconforms.of_columns (h.staged tx s htx hs)

end Scan

/-- **And so does loading a table.** -/
theorem rowsFit_of_load {db : Database} {session : Session} {name : Bytes} {table : BaseTable}
    (hload : loadBaseTable db session name = .ok table)
    (h : ∀ slot t, db.getTableState name = some (slot, t) → ReadsCurrent db session t) :
    table.RowsFit := by
  unfold loadBaseTable at hload
  split at hload
  · cases hload
  · rename_i slot t hfind
    obtain ⟨rows, hscan, hload⟩ := bind_eq_ok.1 hload
    obtain rfl := Except.ok.inj hload
    refine .of_holds fun row hrow => ?_
    exact ((h slot t hfind).scan hscan hrow).forall₂_holds

/-! ## Runs -/

/-- **A table is dropped only while no session is active.** -/
def DropsAtRest (sys : System) (event : Event) : Prop :=
  event.DropsTable → ∀ j, (sys.sessions j).active = false

namespace System

variable {frontend : Frontend} {sys : System}

/-- Every kept table is there under its definition, and every transaction
points at its table. -/
structure Matched (sys : System) : Prop where
  kept : ∀ r ∈ sys.db.registry.retained, ∀ rt ∈ r.tables,
    rt.store.table = rt.table ∧ ∃ t ∈ sys.db.tables, t.store.table = rt.table
  pointing : ∀ j, (sys.sessions j).Pointing sys.db

/-- What is dropped at rest stands before nothing that is staged. -/
theorem Coherent.dropsApart (h : sys.Coherent) {event : Event} (hrest : DropsAtRest sys event) :
    DropsApart sys event := by
  unfold DropsApart
  split
  · intro k _ j e he
    have hnil := ((h.shaped j).closed (hrest trivial j)).2.2
    rw [hnil] at he
    cases he
  · trivial

theorem Matched.step (hm : sys.Matched) (h : sys.Coherent) {event : Event}
    (hrest : DropsAtRest sys event) : (sys.step frontend event).Matched := by
  refine ⟨fun r hr => ?_, pointing_step frontend h hm.pointing (h.dropsApart hrest)⟩
  by_cases hdrop : event.DropsTable
  · -- nothing is kept while no session is active
    have hidle := hrest hdrop
    have hnone : ∀ j, ((sys.step frontend event).sessions j).active = false := by
      cases event with
      | deinit | drain => exact hdrop.elim
      | statement i statement =>
        cases statement with
        | dropTable dropped =>
          intro j
          show (Function.update sys.sessions i (sys.sessions i) j).active = false
          rw [Function.update_eq_self]
          exact hidle j
        | begin | commit | rollback | insert | update | delete | select | call | createTable
        | createView | dropView | createProcedure | dropProcedure => exact hdrop.elim
    rw [(coherent_step frontend h event).retained_eq_nil hnone] at hr
    cases hr
  · -- a table that was there is there under the same definition
    have hgoes := goes_step frontend h hdrop
    have hstays : ∀ t ∈ sys.db.tables, ∃ t' ∈ (sys.step frontend event).db.tables,
        t'.store.table = t.store.table := by
      intro t ht
      obtain ⟨k, hk⟩ := getElem?_of_mem ht
      obtain ⟨t', ht', -, hpublishes⟩ := hgoes k t hk
      exact ⟨t', mem_of_getElem? ht', hpublishes.table⟩
    rcases mem_retained_step frontend h event hr with hold | rfl
    · intro rt hrt
      obtain ⟨hown, t, ht, htable⟩ := hm.kept r hold rt hrt
      obtain ⟨t', ht', hsame⟩ := hstays t ht
      exact ⟨hown, t', ht', hsame.trans htable⟩
    · exact forall_mem_map.2 fun t ht => ⟨rfl, hstays t ht⟩

theorem Matched.run (hm : sys.Matched) (h : sys.Coherent) {events : List Event}
    (hrest : sys.Along frontend DropsAtRest events) : (sys.run frontend events).Matched := by
  have hboth := Run.run_invariant (I := fun s => System.Coherent s ∧ s.Matched) (C := DropsAtRest)
    (fun s event hs hc => ⟨coherent_step frontend hs.1 event, hs.2.step hs.1 hc⟩) ⟨h, hm⟩ hrest
  exact hboth.2

/-- A system without an active session has nothing kept and nothing
staged. -/
theorem Coherent.matched (h : sys.Coherent) (hidle : ∀ j, (sys.sessions j).active = false) :
    sys.Matched := by
  refine ⟨fun r hr => ?_, fun j => .of_nil ((h.shaped j).closed (hidle j)).2.2⟩
  rw [h.retained_eq_nil hidle] at hr
  cases hr

/-- **Where all is matched every session reads with the columns the table
has.** -/
theorem Matched.readsCurrent (hm : sys.Matched) (h : sys.Coherent) (i : ℕ) {t : TableState}
    (ht : t ∈ sys.db.tables) : ReadsCurrent sys.db (sys.sessions i) t := by
  have hunique : ∀ u ∈ sys.db.tables, u.key = t.key → u.store.table = t.store.table := by
    intro u hu hkey
    obtain ⟨k, hk⟩ := getElem?_of_mem hu
    obtain ⟨k', hk'⟩ := getElem?_of_mem ht
    rw [(slot_unique h.valid.stateKeys_nodup hk hk' hkey).2]
  refine ⟨fun store hstore => ?_, fun tx store htx hslot => ?_⟩
  · -- the kept table of this name is a table that is there, so it is this one
    unfold Session.snapshotStoreForRead at hstore
    split at hstore
    · cases hstore
    · split at hstore
      · cases hstore
      · rename_i handle _
        split at hstore
        · rename_i found hfound
          obtain rfl := Option.some.inj (Except.ok.inj hstore)
          unfold Registry.retainedStoreForTable at hfound
          split at hfound
          · cases hfound
          · rename_i r hr
            obtain ⟨rt, hrt, rfl⟩ := Option.map_eq_some_iff.1 hfound
            obtain ⟨hown, u, hu, hutable⟩ :=
              hm.kept r (mem_of_find?_eq_some hr) rt (mem_of_find?_eq_some hrt)
            have hsame := find?_some hrt
            have hname := namesEqual_iff.1 hsame
            have hkey : u.key = t.key := by
              rw [TableState.key, h.valid.named u hu, hutable, hname, TableState.key]
            rw [hown, ← hutable, hunique u hu hkey]
        · split at hstore <;> cases hstore
  · unfold Session.transactionForRead at htx
    obtain ⟨e, he, rfl⟩ := Option.map_eq_some_iff.1 htx
    obtain ⟨u, hu, hkey⟩ := TableTransaction.points_iff.1
      (hm.pointing i e (mem_of_find?_eq_some he))
    obtain ⟨u', hu', rfl⟩ := Database.storeAt_eq_ok.1 hslot
    obtain rfl := Option.some.inj (hu.symm.trans hu')
    have hsame := find?_some he
    have hname := namesEqual_iff.1 hsame
    rw [hunique u (mem_of_getElem? hu) (hkey.trans hname)]

end System

/-- **Rows fit the columns they are read with** in every run in which no
table is created while a table transaction is open, and which so follows no
pointer to where the list of tables was: in every state in which what the
session reads of the table has the columns the table has now, and all the
way if tables are dropped only while no session is active. -/
theorem rows_fit_columns {frontend : Frontend} {start : System}
    (hreach : start.Reachable frontend) (hidle : ∀ j, (start.sessions j).active = false)
    {events : List Event} (hcreate : start.Along frontend CreatesApart events) (i : ℕ)
    {name : Bytes} {table : BaseTable}
    (hload : loadBaseTable (start.run frontend events).db
      ((start.run frontend events).sessions i) name = .ok table) :
    (∀ moves, (Placed.fresh start).run frontend moves events =
        some (.fresh (start.run frontend events))) ∧
      ((∀ slot t, (start.run frontend events).db.getTableState name = some (slot, t) →
          ReadsCurrent (start.run frontend events).db ((start.run frontend events).sessions i) t) →
        table.RowsFit) ∧
      (start.Along frontend DropsAtRest events → table.RowsFit) := by
  refine ⟨fun moves => Placed.run_eq frontend moves hcreate,
    fun hcurrent => rowsFit_of_load hload hcurrent, fun hrest => ?_⟩
  have hmatched := (hreach.coherent.matched hidle).run hreach.coherent hrest
  refine rowsFit_of_load hload fun slot t hfind => ?_
  obtain ⟨-, hslot, -⟩ := Database.getTableState_eq_some hfind
  exact hmatched.readsCurrent (hreach.run events).coherent i (mem_of_getElem? hslot)

/-! ### A table created again -/

/-- Session 1 begins after a row was committed; session 0 commits another
one over it. -/
def committedOver : List Event :=
  [Script.begin 0, Script.insert 0 "A" [some 1], Script.commit 0, Script.begin 1,
    Script.begin 0, Script.insert 0 "A" [some 2], Script.commit 0]

/-- Session 1 reads the rows it began with. -/
theorem rows_fit_columns_overtaken :
    ∃ table, loadBaseTable (Script.twoTables.run Script.frontend committedOver).db
          ((Script.twoTables.run Script.frontend committedOver).sessions 1) (ascii "A") = .ok table ∧
      table.rows = [⟨1, [.integer 1]⟩] ∧ table.RowsFit := by
  obtain ⟨table, hload⟩ : ∃ table, loadBaseTable
      (Script.twoTables.run Script.frontend committedOver).db
      ((Script.twoTables.run Script.frontend committedOver).sessions 1) (ascii "A") = .ok table :=
    exists_ok (by decide +kernel)
  refine ⟨table, hload, ?_, ?_⟩
  · have hrows : (loadBaseTable (Script.twoTables.run Script.frontend committedOver).db
        ((Script.twoTables.run Script.frontend committedOver).sessions 1) (ascii "A")).map
        BaseTable.rows = .ok [⟨1, [.integer 1]⟩] := by decide +kernel
    rw [hload] at hrows
    exact Except.ok.inj hrows
  · have hnone : ∀ event ∈ committedOver, ¬event.DropsTable ∧ ¬event.createsTable := by
      simp [committedOver, Script.begin, Script.insert, Script.commit, Event.DropsTable,
        Event.createsTable]
    have hcreate : Script.twoTables.Along Script.frontend CreatesApart committedOver :=
      Run.along_of_mem fun event hmem _ hcreates => absurd hcreates (hnone event hmem).2
    refine (rows_fit_columns Script.twoTables_reachable Script.twoTables_atRest hcreate 1
      hload).2.2 ?_
    exact Run.along_of_mem fun event hmem _ hdrop => absurd hdrop (hnone event hmem).1

/-- The table goes, and comes back with one more column. -/
def recreated : List Event :=
  committedOver ++ [Script.dropTable 0 "A", Script.createTable 0 "A" ["v", "w"]]

/-- **Session 1 then reads its old row under the new columns**: one value
for two of them. Where its `DELETE` asks for the second, the evaluator
reaches past the end of the row. -/
theorem old_rows_under_new_columns :
    Script.twoTables.Reachable Script.frontend ∧
      (loadBaseTable (Script.twoTables.run Script.frontend recreated).db
          ((Script.twoTables.run Script.frontend recreated).sessions 1) (ascii "A")).map
        (fun table => (table.columns.length, table.rows)) = .ok (2, [⟨1, [.integer 1]⟩]) ∧
      ((Script.twoTables.run Script.frontend recreated).perform Script.frontend
        (Script.delete 1 "A" (some (.binary (.identifier (ascii "w")) .equal
          (Script.literal (some 1)))))).2 = .error (.panic .indexOutOfBounds) :=
  ⟨Script.twoTables_reachable, by decide +kernel⟩

end Shoveler
