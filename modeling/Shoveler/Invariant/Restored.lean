import Shoveler.Invariant.Coherent
import Shoveler.Model.Reopen
import Shoveler.Storage.Frame

/-!
# What comes back

Export, encoding, decoding and restoring, each said as what it takes to
succeed and what it then gives. Of a database in good order the export is
the catalog and the stores as they are, where every definition can be
rebuilt (`exportSnapshot_eq_ok`). A snapshot in good order is restored
with its tables as they are, where moreover the text of every view parses
to a query the view registry takes and the text of every procedure parses
(`initFromSnapshot_eq_ok`). Put together this is what checkpoint and
reopen do to a database (`reopen_eq_ok`): all that is lost is what the
catalog does not hold.
-/

namespace Shoveler

open Outcome List

/-! ## Export -/

namespace DatabaseCatalog

variable {c : DatabaseCatalog}

/-- The views of a catalog can be registered again, over its tables. -/
theorem registerViews (h : c.keys.Nodup) :
    c.views.foldlM (fun catalog view => registerView catalog view.name view.body)
      { tables := c.tables } = .ok { tables := c.tables, views := c.views } := by
  refine foldlM_eq_ok_of_split
    (g := fun before => ({ tables := c.tables, views := before } : DatabaseCatalog))
    fun before view after hsplit => registerView_eq_ok.2 ⟨?_, rfl⟩
  exact fresh_view h hsplit

/-- And its procedures, over its tables and views. -/
theorem registerProcedures (h : c.keys.Nodup) :
    c.procedures.foldlM
      (fun catalog procedure => registerProcedure catalog procedure.name procedure.body)
      { tables := c.tables, views := c.views } = .ok c := by
  refine foldlM_eq_ok_of_split
    (g := fun before => ({ c with procedures := before } : DatabaseCatalog))
    fun before procedure after hsplit => registerProcedure_eq_ok.2 ⟨?_, rfl⟩
  exact fresh_procedure h hsplit

end DatabaseCatalog

namespace Database

variable {db db' : Database} {frontend : Frontend}

/-- **The snapshot of a database**: its catalog, and its stores. -/
def exported (db : Database) : DatabaseSnapshot where
  catalog := db.catalog
  stores := db.tables.map TableState.store

/-- It is in good order. -/
theorem Valid.wellFormed_exported (h : db.Valid) : db.exported.WellFormed where
  aligned := by
    rw [exported, map_map]
    exact h.defined
  valid := forall_mem_map.2 h.stores
  distinct := h.distinct

/-- The table definitions of a database that can all be rebuilt. -/
def Rebuilds (db : Database) : Prop := ∀ t ∈ db.tables, t.store.table.Rebuildable

instance (db : Database) : Decidable db.Rebuilds :=
  inferInstanceAs (Decidable (∀ t ∈ db.tables, t.store.table.Rebuildable))

/-- They are those of the catalog. -/
theorem Valid.rebuilds_iff (h : db.Valid) :
    db.Rebuilds ↔ ∀ table ∈ db.catalog.tables, table.Rebuildable := by
  rw [← h.defined, forall_mem_map]
  rfl

/-- **What export gives, and when.** -/
theorem exportSnapshot_eq_ok (h : db.Valid) {s : DatabaseSnapshot} :
    db.exportSnapshot = .ok s ↔ db.Rebuilds ∧ s = db.exported := by
  have hclone : ∀ t ∈ db.tables, ∀ table, cloneTableDef t.store.table = .ok table ↔
      t.store.table.Rebuildable ∧ table = t.store.table := fun t _ table =>
    TableDef.cloneTableDef_eq_ok
  have hstores : db.tables.mapM (exportStore { catalog := { tables := db.catalog.tables } }) =
      .ok (db.tables.map TableState.store) := by
    refine mapM_eq_ok_map fun t ht => ?_
    have hget : DatabaseCatalog.getTable { tables := db.catalog.tables } t.name =
        some t.store.table := h.getTable ht
    rw [exportStore, hget]
    exact (h.stores t ht).copyRowsIntoStore
  simp only [exportSnapshot, bind_eq_ok, mapM_eq_ok (f := fun state : TableState =>
    cloneTableDef state.store.table), forall₂_iff_map hclone]
  constructor
  · rintro ⟨tables, ⟨hrebuild, rfl⟩, stores, hs, c₁, hviews, c₂, hprocedures, hend⟩
    rw [h.defined] at hs hviews
    obtain rfl := Except.ok.inj (hstores.symm.trans hs)
    obtain rfl := Except.ok.inj ((DatabaseCatalog.registerViews h.distinct).symm.trans hviews)
    obtain rfl :=
      Except.ok.inj ((DatabaseCatalog.registerProcedures h.distinct).symm.trans hprocedures)
    exact ⟨hrebuild, (Except.ok.inj hend).symm⟩
  · rintro ⟨hrebuild, rfl⟩
    refine ⟨_, ⟨hrebuild, rfl⟩, _, ?_, _, ?_, _, DatabaseCatalog.registerProcedures h.distinct, rfl⟩
    · rw [h.defined]
      exact hstores
    · rw [h.defined]
      exact DatabaseCatalog.registerViews h.distinct

end Database

/-! ## Restoring -/

namespace DatabaseSnapshot

variable {s : DatabaseSnapshot}

/-- The table states of a restored snapshot. -/
def states (s : DatabaseSnapshot) : List TableState :=
  s.stores.map fun store => ⟨store.table.name, store⟩

theorem WellFormed.tableKeys_nodup (h : s.WellFormed) :
    (s.stores.map fun store => store.table.key).Nodup := by
  have hkeys : (s.catalog.tables.map TableDef.key).Nodup :=
    h.distinct.sublist ((sublist_append_left _ _).trans (sublist_append_left _ _))
  rw [← h.aligned, map_map] at hkeys
  exact hkeys

/-- A store is found under the name of its table. -/
theorem WellFormed.storeForTable (h : s.WellFormed) {store : RowStore} (hs : store ∈ s.stores) :
    s.storeForTable store.table.name = some store := by
  have hfind : s.stores.find? (fun other => namesEqual other.table.name store.table.name) =
      some store :=
    @Keyed.find?_eq_some_of_mem _ _ _ (fun other : RowStore => other.table.key) _
      h.tableKeys_nodup _ hs
  have hindex : s.tableIndex store.table.name =
      s.stores.findIdx? (fun other => namesEqual other.table.name store.table.name) := by
    rw [tableIndex, ← h.aligned, findIdx?_map]
    rfl
  rw [DatabaseSnapshot.storeForTable, hindex]
  cases hi : s.stores.findIdx? fun other => namesEqual other.table.name store.table.name with
  | none =>
    rw [findIdx?_eq_none_iff] at hi
    have hself := hi store hs
    rw [namesEqual_iff.2 rfl] at hself
    cases hself
  | some i => exact (Keyed.getElem?_findIdx? hi).trans hfind

end DatabaseSnapshot

/-- **A view that comes back**: its text parses to a query that has
something to select from. -/
structure RestoresView (frontend : Frontend) (view : ViewDef) (stored : StoredView) : Prop where
  name : stored.name = view.name
  parses : frontend.parse view.body = some (.select stored.query)
  sourced : ¬(stored.query.source.isNone = true ∧ stored.query.fromName.isNone = true)

/-- **A procedure that comes back**, without its parameters. -/
structure RestoresProcedure (frontend : Frontend) (procedure : ProcedureDef)
    (stored : StoredProcedure) : Prop where
  name : stored.name = procedure.name
  parses : frontend.parseBody procedure.body = some stored.body
  params : stored.params = []

namespace Database

variable {db db' : Database} {frontend : Frontend} {s : DatabaseSnapshot}

/-- One table: its store stands at its place, and its name is new. -/
theorem restoreTable_eq_ok (h : s.WellFormed) {before after : List TableDef} {table : TableDef}
    (hsplit : s.catalog.tables = before ++ table :: after) (done : List TableState) :
    restoreTable s { catalog := { tables := before }, tables := done } table = .ok db ↔
      ∃ state : TableState, (table.Rebuildable ∧ ∃ store,
          s.storeForTable table.name = some store ∧ state = ⟨table.name, store⟩) ∧
        db = { catalog := { tables := before ++ [table] }, tables := done ++ [state] } := by
  have hmem : table ∈ s.catalog.tables := by
    rw [hsplit]
    exact mem_append_right _ mem_cons_self
  rw [← h.aligned] at hmem
  obtain ⟨store, hstore, rfl⟩ := mem_map.1 hmem
  have hnew : store.table.key ∉ DatabaseCatalog.keys { tables := before } := by
    have hnodup := h.distinct
    rw [DatabaseCatalog.keys, hsplit, map_append, map_cons, append_assoc,
      append_assoc, cons_append, nodup_middle, nodup_cons] at hnodup
    intro hbefore
    simp only [DatabaseCatalog.keys, map_nil, append_nil] at hbefore
    exact hnodup.1 (mem_append_left _ hbefore)
  have hget := DatabaseCatalog.getTable_new hnew
  have hcopy := (h.valid store hstore).copyRowsIntoStore
  simp only [restoreTable, bind_eq_ok, TableDef.cloneTableDef_eq_ok]
  constructor
  · rintro ⟨_, ⟨hrebuild, rfl⟩, hb⟩
    rw [hget, h.storeForTable hstore] at hb
    simp only [hcopy, ok_bind] at hb
    exact ⟨_, ⟨hrebuild, store, h.storeForTable hstore, rfl⟩, (Except.ok.inj hb).symm⟩
  · rintro ⟨_, ⟨hrebuild, found, hfound, rfl⟩, rfl⟩
    obtain rfl := Option.some.inj ((h.storeForTable hstore).symm.trans hfound)
    refine ⟨_, ⟨hrebuild, rfl⟩, ?_⟩
    rw [hget, h.storeForTable hstore]
    simp only [hcopy, ok_bind]
    rfl

/-- The loop over the tables. -/
theorem restoreTables_eq_ok (h : s.WellFormed) :
    s.catalog.tables.foldlM (restoreTable s) {} = .ok db ↔
      (∀ table ∈ s.catalog.tables, table.Rebuildable) ∧
        db = { catalog := { tables := s.catalog.tables }, tables := s.states } := by
  have hloop := @foldlM_eq_ok _ _ _ _ (restoreTable s)
    (fun table state => table.Rebuildable ∧ ∃ store, s.storeForTable table.name = some store ∧
      state = (⟨table.name, store⟩ : TableState))
    (fun before done => ({ catalog := { tables := before }, tables := done } : Database))
    s.catalog.tables (fun _ _ _ done hsplit _ _ => restoreTable_eq_ok h hsplit done) db
  rw [hloop, ← h.aligned, forall_mem_map]
  simp only [forall₂_map_left_iff]
  have hone : ∀ store ∈ s.stores, ∀ state : TableState,
      (store.table.Rebuildable ∧ ∃ found, s.storeForTable store.table.name = some found ∧
        state = ⟨store.table.name, found⟩) ↔
      store.table.Rebuildable ∧ state = ⟨store.table.name, store⟩ := by
    intro store hstore state
    simp only [h.storeForTable hstore, Option.some.injEq, exists_eq_left']
  simp only [forall₂_iff_map hone]
  constructor
  · rintro ⟨_, ⟨hrebuild, rfl⟩, rfl⟩
    exact ⟨hrebuild, rfl⟩
  · rintro ⟨hrebuild, rfl⟩
    exact ⟨_, ⟨hrebuild, rfl⟩, rfl⟩

/-- A stored view is taken where its name is new and it has something to
select from. -/
theorem createStoredView_eq_ok {views views' : List StoredView} {name : Bytes}
    {query : Ast.SelectStatement}
    (hnew : (views.findIdx? fun stored => namesEqual stored.name name) = none) :
    createStoredView views name query = .ok views' ↔
      ¬(query.source.isNone = true ∧ query.fromName.isNone = true) ∧
        views' = views ++ [⟨name, query⟩] := by
  rw [createStoredView, hnew, ite_error_eq_ok, ite_error_eq_ok, Except.ok.injEq]
  constructor
  · exact fun hq => ⟨hq.2.1, hq.2.2.symm⟩
  · exact fun hq => ⟨Bool.false_ne_true, hq.1, hq.2.symm⟩

/-- The loop over the views, behind that over the tables. -/
theorem restoreViews_eq_ok (h : s.WellFormed) (tables : List TableState) :
    s.catalog.views.foldlM (restoreView frontend)
        { catalog := { tables := s.catalog.tables }, tables := tables } = .ok db ↔
      ∃ views, List.Forall₂ (RestoresView frontend) s.catalog.views views ∧
        db = { catalog := { tables := s.catalog.tables, views := s.catalog.views }
               tables := tables, views := views } := by
  refine foldlM_eq_ok
    (g := fun before done => ({ catalog := { tables := s.catalog.tables, views := before }
                                tables := tables, views := done } : Database))
    fun before view after done hsplit hdone b => ?_
  have hfresh := DatabaseCatalog.fresh_view h.distinct hsplit
  have hnew : (done.findIdx? fun stored => namesEqual stored.name view.name) = none := by
    rw [findIdx?_namesEqual (map_eq_of_forall₂ (fun _ _ hr => RestoresView.name hr) hdone)]
    refine Keyed.findIdx?_eq_none.2 fun hmem => hfresh ?_
    exact mem_append_left _ (mem_append_right _ hmem)
  simp only [restoreView, bind_eq_ok, DatabaseCatalog.registerView_eq_ok]
  constructor
  · rintro ⟨_, ⟨-, rfl⟩, hb⟩
    unfold createRuntimeViewFromBody at hb
    split at hb
    · cases hb
    · rename_i select hparse
      obtain ⟨views, hviews, hb⟩ := bind_eq_ok.1 hb
      obtain ⟨hsourced, rfl⟩ := (createStoredView_eq_ok hnew).1 hviews
      exact ⟨⟨view.name, select⟩, ⟨rfl, hparse, hsourced⟩, (Except.ok.inj hb).symm⟩
    · cases hb
  · rintro ⟨⟨name, query⟩, ⟨rfl, hparse, hsourced⟩, rfl⟩
    refine ⟨_, ⟨hfresh, rfl⟩, ?_⟩
    have hcreate := (createStoredView_eq_ok hnew).2 ⟨hsourced, rfl⟩
    unfold createRuntimeViewFromBody
    simp only at hparse hcreate
    simp only [hparse, hcreate, ok_bind]
    rfl

/-- The loop over the procedures, behind the others. -/
theorem restoreProcedures_eq_ok (h : s.WellFormed) (tables : List TableState)
    (views : List StoredView) :
    s.catalog.procedures.foldlM (restoreProcedure frontend)
        { catalog := { tables := s.catalog.tables, views := s.catalog.views }
          tables := tables, views := views } = .ok db ↔
      ∃ procedures, List.Forall₂ (RestoresProcedure frontend) s.catalog.procedures procedures ∧
        db = { catalog := s.catalog, tables := tables, views := views, procedures := procedures } := by
  refine foldlM_eq_ok
    (g := fun before done => ({ catalog := { s.catalog with procedures := before }
                                tables := tables, views := views
                                procedures := done } : Database))
    fun before procedure after done hsplit hdone b => ?_
  have hfresh := DatabaseCatalog.fresh_procedure h.distinct hsplit
  have hnew : (done.findIdx? fun stored => namesEqual stored.name procedure.name) = none := by
    rw [findIdx?_namesEqual (map_eq_of_forall₂ (fun _ _ hr => RestoresProcedure.name hr) hdone)]
    exact Keyed.findIdx?_eq_none.2 fun hmem => hfresh (mem_append_right _ hmem)
  simp only [restoreProcedure, createStoredProcedure, hnew, bind_eq_ok,
    DatabaseCatalog.registerProcedure_eq_ok]
  constructor
  · rintro ⟨_, ⟨-, rfl⟩, procedures, hprocedures, hb⟩
    simp only [Option.isSome_none, Bool.false_eq_true, if_false] at hprocedures
    split at hprocedures
    · cases hprocedures
    · rename_i body hparse
      obtain rfl := Except.ok.inj hprocedures
      exact ⟨⟨procedure.name, [], body⟩, ⟨rfl, hparse, rfl⟩, (Except.ok.inj hb).symm⟩
  · rintro ⟨⟨name, params, body⟩, ⟨rfl, hparse, rfl⟩, rfl⟩
    refine ⟨_, ⟨hfresh, rfl⟩, done ++ [⟨procedure.name, [], body⟩], ?_, rfl⟩
    simp only at hparse
    simp only [hparse, Option.isSome_none, Bool.false_eq_true, if_false]

/-- A restored database is in good order. -/
theorem valid_restored (h : s.WellFormed) {views : List StoredView}
    {procedures : List StoredProcedure}
    (hviews : List.Forall₂ (RestoresView frontend) s.catalog.views views)
    (hprocedures : List.Forall₂ (RestoresProcedure frontend) s.catalog.procedures procedures) :
    Database.Valid { catalog := s.catalog, tables := s.states, views := views
                     procedures := procedures } where
  defined := by
    rw [← h.aligned, DatabaseSnapshot.states, map_map]
    rfl
  named := forall_mem_map.2 fun _ _ => rfl
  distinct := h.distinct
  views := map_eq_of_forall₂ (fun _ _ hr => RestoresView.name hr) hviews
  procedures := map_eq_of_forall₂ (fun _ _ hr => RestoresProcedure.name hr) hprocedures
  stores := forall_mem_map.2 h.valid

/-- **What restoring gives, and when.** -/
theorem initFromSnapshot_eq_ok (h : s.WellFormed) :
    initFromSnapshot frontend s = .ok db ↔
      (∀ table ∈ s.catalog.tables, table.Rebuildable) ∧ ∃ views procedures,
        List.Forall₂ (RestoresView frontend) s.catalog.views views ∧
        List.Forall₂ (RestoresProcedure frontend) s.catalog.procedures procedures ∧
        db = { catalog := s.catalog, tables := s.states, views := views
               procedures := procedures } := by
  simp only [initFromSnapshot, bind_eq_ok, restoreTables_eq_ok h]
  constructor
  · rintro ⟨_, ⟨hrebuild, rfl⟩, db₁, hdb₁, db₂, hdb₂, hend⟩
    obtain ⟨views, hviews, rfl⟩ := (restoreViews_eq_ok h _).1 hdb₁
    obtain ⟨procedures, hprocedures, rfl⟩ := (restoreProcedures_eq_ok h _ _).1 hdb₂
    rw [(valid_restored h hviews hprocedures).refreshTablePointers] at hend
    exact ⟨hrebuild, views, procedures, hviews, hprocedures, (Except.ok.inj hend).symm⟩
  · rintro ⟨hrebuild, views, procedures, hviews, hprocedures, rfl⟩
    exact ⟨_, ⟨hrebuild, rfl⟩, _, (restoreViews_eq_ok h _).2 ⟨views, hviews, rfl⟩, _,
      (restoreProcedures_eq_ok h _ _).2 ⟨procedures, hprocedures, rfl⟩,
      (valid_restored h hviews hprocedures).refreshTablePointers⟩

/-! ## Reopening -/

theorem Valid.states_exported (h : db.Valid) : db.exported.states = db.tables := by
  have hself : ∀ t ∈ db.tables, (⟨t.store.table.name, t.store⟩ : TableState) = t := by
    intro t ht
    rw [← h.named t ht]
  rw [DatabaseSnapshot.states, exported, map_map]
  exact (map_congr_left hself).trans (map_id' _)

/-- **What reopening gives, and when**: the tables as they were. -/
theorem reopen_eq_ok (h : db.Valid) :
    db.reopen frontend = .ok db' ↔
      db.Rebuilds ∧ (∃ bytes, Persistence.encodeSnapshot db.exported = .ok bytes) ∧
        ∃ views procedures, List.Forall₂ (RestoresView frontend) db.catalog.views views ∧
          List.Forall₂ (RestoresProcedure frontend) db.catalog.procedures procedures ∧
          db' = { catalog := db.catalog, tables := db.tables, views := views
                  procedures := procedures } := by
  have hsound : db.Rebuilds → db.exported.Sound := fun hrebuild =>
    ⟨h.wellFormed_exported, fun table htable =>
      ⟨table, TableDef.cloneTableDef_eq_ok.2 ⟨h.rebuilds_iff.1 hrebuild table htable, rfl⟩⟩⟩
  simp only [reopen, bind_eq_ok, exportSnapshot_eq_ok h]
  constructor
  · rintro ⟨_, ⟨hrebuild, rfl⟩, bytes, hbytes, decoded, hdecoded, hinit⟩
    rw [(hsound hrebuild).decodesBack bytes hbytes] at hdecoded
    obtain rfl := Except.ok.inj hdecoded
    obtain ⟨-, views, procedures, hviews, hprocedures, rfl⟩ :=
      (initFromSnapshot_eq_ok h.wellFormed_exported).1 hinit
    rw [h.states_exported]
    exact ⟨hrebuild, ⟨bytes, hbytes⟩, views, procedures, hviews, hprocedures, rfl⟩
  · rintro ⟨hrebuild, ⟨bytes, hbytes⟩, views, procedures, hviews, hprocedures, rfl⟩
    refine ⟨_, ⟨hrebuild, rfl⟩, bytes, hbytes, _, (hsound hrebuild).decodesBack bytes hbytes, ?_⟩
    refine (initFromSnapshot_eq_ok h.wellFormed_exported).2
      ⟨h.rebuilds_iff.1 hrebuild, views, procedures, hviews, hprocedures, ?_⟩
    rw [h.states_exported]
    rfl

end Database

end Shoveler
