import Shoveler.Invariant.Moves
import Shoveler.Invariant.Restored
import Shoveler.Invariant.Steady
import Shoveler.Model.Placement
import Shoveler.Properties.SnapshotFormat

/-!
# Committed tables

Rows come into a table by a commit, by the decoder and by the capture of a
generation, and each of these checks them again. In every run from an
empty or a restored database the committed tables and the captures are in
order: distinct ids below the next one, and a value for each column that
the column may hold (`RowStore.InOrder`). As long as no table is dropped
each stays in its slot and its next id never falls. All of this is so where
no table is created while a table transaction is open
(`committed_stores_in_order`). A commit over a list of tables that was
moved goes to where the list was (`commit_frees_listed_rows`).
-/

namespace Shoveler

open Persistence (decodeSnapshot)

/-- **A store in order**: the ids are distinct and below the next one, and
every row has one value for each column, of the column's type and
dimension, and none that is null where the column is `NOT NULL` or a
key. -/
structure RowStore.InOrder (s : RowStore) : Prop where
  distinct : (s.rows.map Row.id).Nodup
  below : ∀ row ∈ s.rows, row.id < s.nextId
  fits : ∀ row ∈ s.rows, List.Forall₂
    (fun (column : ColumnDef) value =>
      column.Holds value ∧ (column.primaryKey = true → value ≠ .null))
    s.table.columns row.values

/-- A column of a definition holds no null where it is a key. -/
theorem ColumnDef.Sound.holds_key {c : ColumnDef} (h : c.Sound) {v : Value} (hv : c.Holds v)
    (hkey : c.primaryKey = true) : v ≠ .null := by
  rintro rfl
  have hnot := (h.nullable hv).1
  rw [hkey] at hnot
  cases hnot

theorem RowStore.Valid.inOrder {s : RowStore} (h : s.Valid) : s.InOrder := by
  refine ⟨h.distinct, h.below, fun row hrow => ?_⟩
  have hholds := (h.conform row hrow).forall₂_holds
  rw [List.forall₂_iff_zip] at hholds ⊢
  refine ⟨hholds.1, fun {column value} hmem => ⟨hholds.2 hmem, fun hkey => ?_⟩⟩
  have hcolumn : column ∈ s.table.columns := (List.of_mem_zip hmem).1
  exact (s.table.wellFormed.sound column hcolumn).holds_key (hholds.2 hmem) hkey

/-- A database one starts with: an empty one, or one restored from what
the decoder accepts. -/
def FreshlyOpened (frontend : Frontend) (db : Database) : Prop :=
  db = {} ∨ ∃ bytes snapshot, decodeSnapshot bytes = .ok snapshot ∧
    Database.initFromSnapshot frontend snapshot = .ok db

theorem FreshlyOpened.opened {frontend : Frontend} {db : Database} (h : FreshlyOpened frontend db) :
    System.Opened db := by
  rcases h with rfl | ⟨bytes, snapshot, hdecode, hinit⟩
  · exact .empty
  · have hformed := Persistence.wellFormed_of_decodeSnapshot hdecode
    obtain ⟨-, views, procedures, hviews, hprocedures, rfl⟩ :=
      (Database.initFromSnapshot_eq_ok hformed).1 hinit
    exact ⟨Database.valid_restored hformed hviews hprocedures, rfl, rfl, rfl, rfl⟩

/-- An event that drops a table. -/
def Event.DropsTable : Event → Prop
  | .statement _ (.dropTable _) => True
  | _ => False

namespace System

variable {frontend : Frontend} {sys : System}

/-! ## Captures -/

/-- **The captures of a registry are in order**, each over the definition
that was cloned with it. -/
def RetainsInOrder (sys : System) : Prop :=
  ∀ r ∈ sys.db.registry.retained, ∀ rt ∈ r.tables, rt.store.table = rt.table ∧ rt.store.Valid

theorem RetainsInOrder.step (hr : sys.RetainsInOrder) (h : sys.Coherent) (event : Event) :
    (sys.step frontend event).RetainsInOrder := by
  intro r hmem
  rcases mem_retained_step frontend h event hmem with hold | rfl
  · exact hr r hold
  · -- the capture of the tables as they stand
    refine List.forall_mem_map.2 fun t ht => ⟨rfl, h.valid.stores t ht⟩

theorem Reachable.retainsInOrder (h : sys.Reachable frontend) : sys.RetainsInOrder := by
  refine h.invariant (fun db hopened r hr => ?_) fun s event hco hs => hs.step hco event
  rw [System.start, hopened.registry] at hr
  cases hr

/-! ## Slots -/

/-- **A table stays in its slot** and is only ever followed, as long as no
table is dropped. -/
def Goes (tables tables' : List TableState) : Prop :=
  ∀ (k : ℕ) (t : TableState), tables[k]? = some t → ∃ t', tables'[k]? = some t' ∧ Database.Follows t t'

theorem Goes.of_follows {tables tables' : List TableState}
    (h : List.Forall₂ Database.Follows tables tables') : Goes tables tables' :=
  fun _ _ ht => Outcome.getElem?_of_forall₂ h ht

theorem Goes.refl (tables : List TableState) : Goes tables tables :=
  .of_follows (Database.follows_refl _)

theorem Goes.trans {l₁ l₂ l₃ : List TableState} (h₁ : Goes l₁ l₂) (h₂ : Goes l₂ l₃) :
    Goes l₁ l₃ := by
  intro k t ht
  obtain ⟨t', ht', hf⟩ := h₁ k t ht
  obtain ⟨t'', ht'', hf'⟩ := h₂ k t' ht'
  exact ⟨t'', ht'', hf.trans hf'⟩

theorem goes_step (frontend : Frontend) (h : sys.Coherent) {event : Event}
    (hdrop : ¬event.DropsTable) : Goes sys.db.tables (sys.step frontend event).db.tables := by
  by_cases hddl : event.Reshapes
  · -- what is left is `CREATE TABLE`, which goes to the end
    cases event with
    | deinit | drain => exact hddl.elim
    | statement i statement =>
      cases statement with
      | dropTable => exact absurd trivial hdrop
      | createTable created =>
        show Goes sys.db.tables (orKeep sys.db (sys.db.createTable created)).1.tables
        cases hc : sys.db.createTable created with
        | error e => exact .refl _
        | ok db' =>
          rcases Database.createTable_eq_ok h.valid hc with rfl | ⟨spec, table, -, -, -, -, rfl⟩
          · exact .refl _
          · intro k t ht
            have hlt : k < sys.db.tables.length := (List.getElem?_eq_some_iff.1 ht).1
            exact ⟨t, (List.getElem?_append_left hlt).trans ht, .refl t⟩
      | begin | commit | rollback | insert | update | delete | select | call | createView
      | dropView | createProcedure | dropProcedure => exact hddl.elim
  · exact .of_follows (follows_step frontend h hddl)

theorem goes_run (frontend : Frontend) (h : sys.Coherent) {events : List Event}
    (hdrop : ∀ event ∈ events, ¬event.DropsTable) :
    Goes sys.db.tables (sys.run frontend events).db.tables := by
  induction events generalizing sys with
  | nil => exact .refl _
  | cons event rest ih =>
    rw [List.forall_mem_cons] at hdrop
    exact (goes_step frontend h hdrop.1).trans (ih (coherent_step frontend h event) hdrop.2)

end System

/-- **Committed tables are in order.** In every run without `DROP TABLE`
in which no table is created while a table transaction is open, from an
empty database or from whatever the decoder accepts, no statement follows a
pointer to where the list of tables was, every committed table is in order
at every moment, every table stays in its slot with a next id that never
falls, every capture is in order over its own definition, and no `COMMIT`
finds a row id taken. -/
theorem committed_stores_in_order {frontend : Frontend} {db : Database}
    (hdb : FreshlyOpened frontend db) {events : List Event}
    (hdrop : ∀ event ∈ events, ¬event.DropsTable)
    (hcreate : (System.start db).Along frontend CreatesApart events) :
    (∀ moves, (Placed.fresh (.start db)).run frontend moves events =
        some (.fresh ((System.start db).run frontend events))) ∧
      (∀ t ∈ ((System.start db).run frontend events).db.tables, t.store.InOrder) ∧
      (∀ before after, events = before ++ after →
        ∀ (k : ℕ) (t : TableState), ((System.start db).run frontend before).db.tables[k]? = some t →
          ∃ t', ((System.start db).run frontend events).db.tables[k]? = some t' ∧
            t'.name = t.name ∧ t.store.nextId ≤ t'.store.nextId) ∧
      (∀ r ∈ ((System.start db).run frontend events).db.registry.retained, ∀ rt ∈ r.tables,
        rt.store.table = rt.table ∧ rt.store.InOrder) ∧
      ∀ i, (((System.start db).run frontend events).perform frontend (.statement i .commit)).2 ≠
        .error .duplicateRow := by
  have hreach : ∀ before, ((System.start db).run frontend before).Reachable frontend :=
    fun before => ⟨db, before, hdb.opened, rfl⟩
  have hco := (hreach events).coherent
  refine ⟨fun moves => Placed.run_eq frontend moves hcreate,
    fun t ht => (hco.valid.stores t ht).inOrder, ?_, fun r hr rt hrt => ?_, fun i he => ?_⟩
  · rintro before after rfl k t ht
    have hgoes := System.goes_run frontend (hreach before).coherent
      fun event hevent => hdrop event (List.mem_append_right _ hevent)
    obtain ⟨t', ht', hname, hpublishes⟩ := hgoes k t ht
    rw [System.run, Run.run_append]
    exact ⟨t', ht', hname, hpublishes.nextId⟩
  · have hkept := (hreach events).retainsInOrder r hr rt hrt
    exact ⟨hkept.1, hkept.2.inOrder⟩
  · rw [hco.perform_commit frontend i] at he
    have hfails := CommitOutcome.failsWith hco.valid (hco.commit_outcome i)
    generalize ((_ : Session).commit _).2.2 = outcome at he hfails
    cases outcome with
    | ok => cases he
    | error e =>
      cases he
      exact absurd (hfails _ rfl) (by decide)

/-- A table is created, and two sessions that both insert into it commit
over one another. -/
def insertsCross : List Event :=
  [Script.createTable 0 "A" ["v"], Script.begin 0, Script.begin 1, Script.insert 0 "A" [some 1],
    Script.insert 1 "A" [some 2], Script.commit 0]

/-- The second is given another id. -/
theorem committed_stores_in_order_cross :
    (∀ t ∈ ((System.start {}).run Script.frontend insertsCross).db.tables, t.store.InOrder) ∧
      (((System.start {}).run Script.frontend insertsCross).perform Script.frontend
        (Script.commit 1)).2 ≠ .error .duplicateRow ∧
      (((System.start {}).run Script.frontend insertsCross).step Script.frontend
        (Script.commit 1)).db.tables.map (fun t => t.store.rows) =
        [[⟨1, [.integer 1]⟩, ⟨2, [.integer 2]⟩]] := by
  have hcreate : (System.start {}).Along Script.frontend CreatesApart insertsCross := by
    -- the one table is created before anything is staged
    refine ⟨fun _ _ => rfl, Run.along_of_mem fun event hmem _ hcreates => ?_⟩
    simp only [List.mem_cons, List.not_mem_nil, or_false] at hmem
    rcases hmem with rfl | rfl | rfl | rfl | rfl <;> cases hcreates
  obtain ⟨-, horder, -, -, hcommit⟩ :=
    @committed_stores_in_order Script.frontend {} (Or.inl rfl) insertsCross
      (by simp [insertsCross, Script.createTable, Script.begin, Script.insert, Script.commit,
        Event.DropsTable]) hcreate
  exact ⟨horder, hcommit 1, by decide +kernel⟩

/-- A row of `A` is committed and another one staged, and then a second
table is created. -/
def createsMeanwhile : List Event :=
  [Script.createTable 0 "A" ["v"], Script.begin 0, Script.insert 0 "A" [some 1], Script.commit 0,
    Script.begin 0, Script.insert 0 "A" [some 7], Script.createTable 0 "B" ["v"]]

/-- **The commit goes to where the list was**, if the second table moved
it: it frees the rows that `A` lists. -/
theorem commit_frees_listed_rows :
    (∀ event ∈ createsMeanwhile ++ [Script.commit 0], ¬event.DropsTable) ∧
      ((Placed.fresh (.start {})).run Script.frontend (fun _ _ => true) createsMeanwhile).map
          (fun p => (p.sys.db.tables.map fun t => t.store.rows, p.stale 0)) =
        some ([[⟨1, [.integer 1]⟩], []], true) ∧
      ((Placed.fresh (.start {})).run Script.frontend (fun _ _ => true)
        (createsMeanwhile ++ [Script.commit 0])).isNone := by
  refine ⟨?_, by decide +kernel, by decide +kernel⟩
  simp [createsMeanwhile, Script.createTable, Script.begin, Script.insert, Script.commit,
    Event.DropsTable]

end Shoveler
