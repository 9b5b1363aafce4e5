import Mathlib.Data.List.InsertIdx
import Shoveler.Model.Statement
import Shoveler.Storage.Publish

/-!
# The schema in step

The catalog and the runtime lists are changed one after the other by each
DDL statement. `Database.Valid` says that they agree: each table state
stands at the place of its definition in the catalog and its store points
at that definition, the stored views and procedures are those the catalog
names, no name is used twice, and every store is in good order. Every
statement keeps it, also one that fails (`System.coherent_step`), so
refreshing the table pointers never has anything to do.
-/

namespace Shoveler

open Outcome List

/-- **The catalog and the runtime lists agree.** -/
structure Database.Valid (db : Database) : Prop where
  defined : db.tables.map (fun t => t.store.table) = db.catalog.tables
  named : ∀ t ∈ db.tables, t.name = t.store.table.name
  distinct : db.catalog.keys.Nodup
  views : db.views.map StoredView.name = db.catalog.views.map ViewDef.name
  procedures : db.procedures.map StoredProcedure.name = db.catalog.procedures.map ProcedureDef.name
  stores : ∀ t ∈ db.tables, t.store.Valid

namespace Database

variable {db db' : Database}

theorem Valid.empty : Database.Valid {} where
  defined := rfl
  named := fun _ h => by cases h
  distinct := nodup_nil
  views := rfl
  procedures := rfl
  stores := fun _ h => by cases h

theorem Valid.tableKeys_nodup (h : db.Valid) : (db.catalog.tables.map TableDef.key).Nodup :=
  h.distinct.sublist ((sublist_append_left _ _).trans (sublist_append_left _ _))

/-- The table states stand under the names of the catalog. -/
theorem Valid.tableKeys (h : db.Valid) :
    db.tables.map TableState.key = db.catalog.tables.map TableDef.key := by
  rw [← h.defined, map_map]
  refine map_congr_left fun t ht => ?_
  rw [TableState.key, h.named t ht]
  rfl

theorem Valid.stateKeys_nodup (h : db.Valid) : (db.tables.map TableState.key).Nodup :=
  h.tableKeys ▸ h.tableKeys_nodup

/-- A table state and its definition are found at the same place. -/
theorem Valid.findTableIndex (h : db.Valid) (name : Bytes) :
    db.catalog.findTableIndex name = db.findTableStateIndex name := by
  have hstate : (db.tables.map TableState.key).findIdx? (fun k => decide (k = foldCase name)) =
      db.findTableStateIndex name := by
    rw [findIdx?_map]
    rfl
  rw [← hstate, h.tableKeys, findIdx?_map]
  rfl

/-- **The catalog's definition of a table is the one its store points
at.** -/
theorem Valid.getTable (h : db.Valid) {t : TableState} (ht : t ∈ db.tables) :
    db.catalog.getTable t.name = some t.store.table := by
  have hmem : t.store.table ∈ db.catalog.tables := by
    rw [← h.defined]
    exact mem_map_of_mem ht
  have hfind := Keyed.find?_eq_some_of_mem h.tableKeys_nodup hmem
  rw [h.named t ht]
  exact hfind

/-- **Refreshing the pointers changes nothing.** -/
theorem Valid.refreshTablePointers (h : db.Valid) : db.refreshTablePointers = .ok db := by
  have hmap : db.tables.mapM (refreshTable db.catalog) = .ok (db.tables.map id) := by
    refine mapM_eq_ok_map fun t ht => ?_
    rw [refreshTable, h.getTable ht]
    rfl
  rw [Database.refreshTablePointers, hmap, map_id]
  rfl

/-! ## Tables that follow others -/

/-- A table state that may follow another in its slot. -/
def Follows (t t' : TableState) : Prop :=
  t'.name = t.name ∧ Transaction.Publishes t.store t'.store

theorem Follows.refl (t : TableState) : Follows t t := ⟨rfl, .refl _⟩

theorem Follows.trans {t₁ t₂ t₃ : TableState} (h₁ : Follows t₁ t₂) (h₂ : Follows t₂ t₃) :
    Follows t₁ t₃ :=
  ⟨h₂.1.trans h₁.1, h₁.2.trans h₂.2⟩

theorem follows_refl (tables : List TableState) : List.Forall₂ Follows tables tables :=
  forall₂_same.2 fun t _ => .refl t

/-- Following, slot by slot, is following all along. -/
theorem follows_trans {l₁ l₂ l₃ : List TableState} (h₁ : List.Forall₂ Follows l₁ l₂)
    (h₂ : List.Forall₂ Follows l₂ l₃) : List.Forall₂ Follows l₁ l₃ := by
  induction h₁ generalizing l₃ with
  | nil => exact h₂
  | cons h _ ih =>
    cases h₂ with
    | cons h' hrest => exact .cons (h.trans h') (ih hrest)

theorem storeAt_eq_ok {tables : List TableState} {slot : ℕ} {s : RowStore} :
    storeAt tables slot = .ok s ↔ ∃ t, tables[slot]? = some t ∧ t.store = s := by
  rw [storeAt]
  cases tables[slot]? with
  | none => simp
  | some t => simp

/-- Publishing into a slot gives tables that follow. -/
theorem follows_setStore {tables : List TableState} {slot : ℕ} {s s' : RowStore}
    (hs : storeAt tables slot = .ok s) (h : Transaction.Publishes s s') :
    List.Forall₂ Follows tables (setStore tables slot s') := by
  obtain ⟨t, ht, rfl⟩ := storeAt_eq_ok.1 hs
  clear hs
  rw [setStore]
  induction tables generalizing slot with
  | nil => simp at ht
  | cons t₀ rest ih =>
    cases slot with
    | zero =>
      rw [getElem?_cons_zero, Option.some.injEq] at ht
      subst ht
      rw [modify_zero_cons]
      exact .cons ⟨rfl, h⟩ (follows_refl rest)
    | succ slot =>
      rw [getElem?_cons_succ] at ht
      rw [modify_succ_cons]
      exact .cons (.refl t₀) (ih ht)

/-- A table transaction that commits puts a store in place that may follow
the one it found. -/
theorem commit_eq_ok {tx tx' : Transaction} {store : Result RowStore} {next : RowStore} :
    tx.commit store = .ok (next, tx') ↔
      tx.state = .active ∧ ∃ s, store = .ok s ∧ tx.publish s = .ok next ∧
        tx' = { tx.clearLocalRows with state := .committed } := by
  simp only [Transaction.commit, bind_eq_ok, pure_eq_ok, Except.ok.injEq,
    Prod.mk.injEq]
  constructor
  · rintro ⟨⟨⟩, ha, s, hs, n, hn, rfl, rfl⟩
    exact ⟨Transaction.ensureActive_eq_ok.1 ha, s, hs, hn, rfl⟩
  · rintro ⟨ha, s, hs, hn, rfl⟩
    exact ⟨(), Transaction.ensureActive_eq_ok.2 ha, s, hs, next, hn, rfl, rfl⟩

/-- **Publishing, as far as it goes, gives tables that follow.** -/
theorem follows_publishAll (entries : List TableTransaction) (tables : List TableState) :
    List.Forall₂ Follows tables (Session.publishAll entries tables).1 := by
  induction entries generalizing tables with
  | nil => exact follows_refl tables
  | cons entry rest ih =>
    rw [Session.publishAll]
    cases hc : entry.tx.commit (storeAt tables entry.tx.slot) with
    | error e => exact follows_refl tables
    | ok result =>
      obtain ⟨next, tx⟩ := result
      obtain ⟨-, s, hs, hn, -⟩ := commit_eq_ok.1 hc
      exact follows_trans (follows_setStore hs (Transaction.publishes hn)) (ih _)

/-- Tables that follow have the same definitions. -/
theorem map_table_of_follows {tables tables' : List TableState}
    (h : List.Forall₂ Follows tables tables') :
    tables'.map (fun t => t.store.table) = tables.map (fun t => t.store.table) := by
  induction h with
  | nil => rfl
  | cons hab _ ih => rw [map_cons, map_cons, ih, hab.2.table]

/-- A database whose tables follow those of one whose lists agree has
lists that agree. -/
theorem Valid.follow (h : db.Valid) (hcat : db'.catalog = db.catalog) (hviews : db'.views = db.views)
    (hprocs : db'.procedures = db.procedures)
    (hf : List.Forall₂ Follows db.tables db'.tables) : db'.Valid := by
  refine ⟨?_, fun t' ht' => ?_, hcat ▸ h.distinct, ?_, ?_, fun t' ht' => ?_⟩
  · rw [map_table_of_follows hf, h.defined, hcat]
  · obtain ⟨t, ht, hfo⟩ := exists_left_of_forall₂ hf ht'
    rw [hfo.1, hfo.2.table]
    exact h.named t ht
  · rw [hviews, hcat]
    exact h.views
  · rw [hprocs, hcat]
    exact h.procedures
  · obtain ⟨t, ht, hfo⟩ := exists_left_of_forall₂ hf ht'
    exact hfo.2.valid (h.stores t ht)

/-! ## What the DDL does -/

/-- A free name can be given to one more table. -/
theorem Valid.addTable (h : db.Valid) {table : TableDef} (hkey : table.key ∉ db.catalog.keys) :
    Database.Valid { db with
      catalog := { db.catalog with tables := db.catalog.tables ++ [table] }
      tables := db.tables ++ [⟨table.name, RowStore.init table⟩] } := by
  refine ⟨?_, ?_, ?_, h.views, h.procedures, ?_⟩
  · rw [map_append, h.defined]
    rfl
  · exact forall_mem_append.2 ⟨h.named, by simp [RowStore.init]⟩
  · exact DatabaseCatalog.nodup_keys_table h.distinct hkey
  · exact forall_mem_append.2 ⟨h.stores, by simpa using RowStore.Valid.init table⟩

/-- The specification a `CREATE TABLE` gives to the catalog. -/
def tableSpec (statement : Ast.CreateTableStatement) : Result TableSpec := do
  let columns ← columnSpecs statement.columns
  return { name := statement.name, columns := columns, indexes := indexSpecs statement }

/-- **What `CREATE TABLE` does**: nothing, or one more definition and one
more empty table at the same place, under a free name. -/
theorem createTable_eq_ok (h : db.Valid) {statement : Ast.CreateTableStatement}
    (hc : db.createTable statement = .ok db') :
    db' = db ∨ ∃ spec table, tableSpec statement = .ok spec ∧ TableDef.init spec = .ok table ∧
      table.name = statement.name ∧ table.key ∉ db.catalog.keys ∧
      db' = { db with
        catalog := { db.catalog with tables := db.catalog.tables ++ [table] }
        tables := db.tables ++ [⟨table.name, RowStore.init table⟩] } := by
  rw [createTable] at hc
  split at hc
  · exact Or.inl (Except.ok.inj hc).symm
  · simp only [bind_eq_ok] at hc
    obtain ⟨columns, hcolumns, c, hcat, hc⟩ := hc
    obtain ⟨hkey, table, htable, rfl⟩ := DatabaseCatalog.createTable_eq_ok.1 hcat
    have hname : table.name = statement.name := (TableDef.init_eq_ok.1 htable).2
    rw [← hname] at hkey
    rw [← hname, DatabaseCatalog.getTable_new hkey] at hc
    simp only at hc
    rw [(h.addTable hkey).refreshTablePointers] at hc
    refine Or.inr ⟨_, table, ?_, htable, hname, hkey, (Except.ok.inj hc).symm⟩
    rw [tableSpec, hcolumns]
    rfl

/-- A table can go, with its definition. -/
theorem Valid.removeTable (h : db.Valid) (i : ℕ) :
    Database.Valid { db with
      catalog := { db.catalog with tables := db.catalog.tables.eraseIdx i }
      tables := db.tables.eraseIdx i } := by
  have hsub : (db.tables.eraseIdx i).Sublist db.tables := eraseIdx_sublist _ _
  refine ⟨?_, fun t ht => h.named t (hsub.subset ht), ?_, h.views, h.procedures,
    fun t ht => h.stores t (hsub.subset ht)⟩
  · rw [← eraseIdx_map, h.defined]
  · refine h.distinct.sublist (List.Sublist.append (List.Sublist.append ?_ (.refl _)) (.refl _))
    exact (eraseIdx_sublist _ _).map _

/-- **What `DROP TABLE` does**: nothing, or the definition and the table
state at the table's place go. -/
theorem dropTable_eq_ok (h : db.Valid) {statement : Ast.NamedStatement}
    (hd : db.dropTable statement = .ok db') :
    db' = db ∨ ∃ i, db.findTableStateIndex statement.name = some i ∧
      db' = { db with
        catalog := { db.catalog with tables := db.catalog.tables.eraseIdx i }
        tables := db.tables.eraseIdx i } := by
  rw [dropTable] at hd
  cases hi : db.findTableStateIndex statement.name with
  | none =>
    rw [hi] at hd
    simp only at hd
    split at hd
    · exact Or.inl (Except.ok.inj hd).symm
    · cases hd
  | some i =>
    rw [hi] at hd
    simp only [DatabaseCatalog.dropTable, h.findTableIndex, hi, ok_bind] at hd
    rw [(h.removeTable i).refreshTablePointers] at hd
    exact Or.inr ⟨i, rfl, (Except.ok.inj hd).symm⟩

/-- **What `CREATE VIEW` does**: nothing, or one more definition and one
more stored query at the same place, under a free name. -/
theorem createView_cases (statement : Ast.CreateViewStatement) :
    (∃ e, db.createView statement = (db, .error e)) ∨
      foldCase statement.name ∉ db.catalog.keys ∧
        createStoredView db.views statement.name statement.query =
          .ok (db.views ++ [⟨statement.name, statement.query⟩]) ∧
        db.createView statement =
          ({ db with
              catalog := { db.catalog with
                views := db.catalog.views ++ [⟨statement.name, statement.bodySql⟩] }
              views := db.views ++ [⟨statement.name, statement.query⟩] }, .ok ()) := by
  cases hreg : db.catalog.registerView statement.name statement.bodySql with
  | error e => exact Or.inl ⟨e, by rw [createView, hreg]⟩
  | ok c =>
    obtain ⟨hkey, rfl⟩ := DatabaseCatalog.registerView_eq_ok.1 hreg
    cases hstore : createStoredView db.views statement.name statement.query with
    | ok views =>
      have hviews := hstore
      rw [createStoredView, ite_error_eq_ok, ite_error_eq_ok] at hviews
      obtain rfl := Except.ok.inj hviews.2.2
      exact Or.inr ⟨hkey, rfl, by rw [createView, hreg]; simp only [hstore]⟩
    | error e =>
      -- the definition just registered is the one found under the name
      have hfind : DatabaseCatalog.findViewIndex { db.catalog with
          views := db.catalog.views ++ [⟨statement.name, statement.bodySql⟩] } statement.name =
          some db.catalog.views.length := by
        have hnew : foldCase statement.name ∉ db.catalog.views.map ViewDef.key :=
          fun hmem => hkey (mem_append_left _ (mem_append_right _ hmem))
        exact Keyed.findIdx?_append_new hnew rfl
      refine Or.inl ⟨e, ?_⟩
      rw [createView, hreg]
      simp only [hstore, DatabaseCatalog.dropView, hfind, eraseIdx_append_of_length_le (Nat.le_refl _),
        Nat.sub_self, eraseIdx_cons_zero, append_nil]

/-- **What `CREATE PROCEDURE` does**: nothing, or one more definition and
one more stored procedure at the same place, under a free name. -/
theorem createProcedure_cases (parseBody : Bytes → Option ProcedureBody.Body)
    (statement : Ast.ProcedureStatement) :
    (∃ e, db.createProcedure parseBody statement = (db, .error e)) ∨
      foldCase statement.name ∉ db.catalog.keys ∧ ∃ body, parseBody statement.bodySql = some body ∧
        db.createProcedure parseBody statement =
          ({ db with
              catalog := { db.catalog with
                procedures := db.catalog.procedures ++ [⟨statement.name, statement.bodySql⟩] }
              procedures := db.procedures ++ [⟨statement.name, statement.params, body⟩] },
            .ok ()) := by
  cases hreg : db.catalog.registerProcedure statement.name statement.bodySql with
  | error e => exact Or.inl ⟨e, by rw [createProcedure, hreg]⟩
  | ok c =>
    obtain ⟨hkey, rfl⟩ := DatabaseCatalog.registerProcedure_eq_ok.1 hreg
    cases hstore : createStoredProcedure parseBody db.procedures statement.name statement.params
        statement.bodySql with
    | ok procedures =>
      have hprocs := hstore
      rw [createStoredProcedure, ite_error_eq_ok] at hprocs
      cases hbody : parseBody statement.bodySql with
      | none =>
        rw [hbody] at hprocs
        cases hprocs.2
      | some body =>
        rw [hbody] at hprocs
        obtain rfl := Except.ok.inj hprocs.2
        exact Or.inr ⟨hkey, body, rfl, by rw [createProcedure, hreg]; simp only [hstore]⟩
    | error e =>
      have hfind : DatabaseCatalog.findProcedureIndex { db.catalog with
          procedures := db.catalog.procedures ++ [⟨statement.name, statement.bodySql⟩] }
          statement.name = some db.catalog.procedures.length := by
        have hnew : foldCase statement.name ∉ db.catalog.procedures.map ProcedureDef.key :=
          fun hmem => hkey (mem_append_right _ hmem)
        exact Keyed.findIdx?_append_new hnew rfl
      refine Or.inl ⟨e, ?_⟩
      rw [createProcedure, hreg]
      simp only [hstore, DatabaseCatalog.dropProcedure, hfind,
        eraseIdx_append_of_length_le (Nat.le_refl _), Nat.sub_self, eraseIdx_cons_zero,
        append_nil]

/-- Two lists with the same names find a name at the same place. -/
theorem findIdx?_namesEqual {α β : Type} {f : α → Bytes} {g : β → Bytes} {l : List α} {m : List β}
    (h : l.map f = m.map g) (name : Bytes) :
    (l.findIdx? fun x => namesEqual (f x) name) = m.findIdx? fun y => namesEqual (g y) name := by
  have hl : (l.map f).findIdx? (fun n => namesEqual n name) =
      l.findIdx? fun x => namesEqual (f x) name := by
    rw [findIdx?_map]
    rfl
  rw [← hl, h, findIdx?_map]
  rfl

/-- **What `DROP VIEW` does**: nothing, or the definition and the stored
query at the view's place go. -/
theorem dropView_cases (h : db.Valid) (statement : Ast.NamedStatement) :
    (∃ e, db.dropView statement = (db, .error e)) ∨
      ∃ i, db.dropView statement =
        ({ db with
            views := db.views.eraseIdx i
            catalog := { db.catalog with views := db.catalog.views.eraseIdx i } }, .ok ()) := by
  have hsame := findIdx?_namesEqual h.views statement.name
  rw [dropView, dropStoredView]
  cases hi : db.views.findIdx? fun stored => namesEqual stored.name statement.name with
  | none => exact Or.inl ⟨_, rfl⟩
  | some i =>
    refine Or.inr ⟨i, ?_⟩
    have hcat : db.catalog.findViewIndex statement.name = some i := hsame.symm.trans hi
    simp only [DatabaseCatalog.dropView, hcat]

/-- **What `DROP PROCEDURE` does**, likewise. -/
theorem dropProcedure_cases (h : db.Valid) (statement : Ast.NamedStatement) :
    (∃ e, db.dropProcedure statement = (db, .error e)) ∨
      ∃ i, db.dropProcedure statement =
        ({ db with
            procedures := db.procedures.eraseIdx i
            catalog := { db.catalog with procedures := db.catalog.procedures.eraseIdx i } },
          .ok ()) := by
  have hsame := findIdx?_namesEqual h.procedures statement.name
  rw [dropProcedure, dropStoredProcedure]
  cases hi : db.procedures.findIdx? fun stored => namesEqual stored.name statement.name with
  | none => exact Or.inl ⟨_, rfl⟩
  | some i =>
    refine Or.inr ⟨i, ?_⟩
    have hcat : db.catalog.findProcedureIndex statement.name = some i := hsame.symm.trans hi
    simp only [DatabaseCatalog.dropProcedure, hcat]

/-! ## The lists stay in step -/

theorem Valid.createTable (h : db.Valid) {statement : Ast.CreateTableStatement}
    (hc : db.createTable statement = .ok db') : db'.Valid := by
  rcases createTable_eq_ok h hc with rfl | ⟨spec, table, -, -, -, hkey, rfl⟩
  · exact h
  · exact h.addTable hkey

theorem Valid.dropTable (h : db.Valid) {statement : Ast.NamedStatement}
    (hd : db.dropTable statement = .ok db') : db'.Valid := by
  rcases dropTable_eq_ok h hd with rfl | ⟨i, -, rfl⟩
  · exact h
  · exact h.removeTable i

theorem Valid.createView (h : db.Valid) (statement : Ast.CreateViewStatement) :
    (db.createView statement).1.Valid := by
  rcases @createView_cases db statement with ⟨e, he⟩ | ⟨hkey, -, hc⟩
  · rw [he]
    exact h
  · rw [hc]
    refine ⟨h.defined, h.named, ?_, ?_, h.procedures, h.stores⟩
    · exact DatabaseCatalog.nodup_keys_view h.distinct hkey
    · rw [map_append, map_append, h.views]
      rfl

theorem Valid.createProcedure (h : db.Valid) (parseBody : Bytes → Option ProcedureBody.Body)
    (statement : Ast.ProcedureStatement) : (db.createProcedure parseBody statement).1.Valid := by
  rcases @createProcedure_cases db parseBody statement with ⟨e, he⟩ | ⟨hkey, body, -, hc⟩
  · rw [he]
    exact h
  · rw [hc]
    refine ⟨h.defined, h.named, ?_, h.views, ?_, h.stores⟩
    · exact DatabaseCatalog.nodup_keys_procedure h.distinct hkey
    · rw [map_append, map_append, h.procedures]
      rfl

theorem Valid.dropView (h : db.Valid) (statement : Ast.NamedStatement) :
    (db.dropView statement).1.Valid := by
  rcases dropView_cases h statement with ⟨e, he⟩ | ⟨i, hd⟩
  · rw [he]
    exact h
  · rw [hd]
    refine ⟨h.defined, h.named, ?_, ?_, h.procedures, h.stores⟩
    · refine h.distinct.sublist (List.Sublist.append (List.Sublist.append (.refl _) ?_) (.refl _))
      exact (eraseIdx_sublist _ _).map _
    · rw [← eraseIdx_map, ← eraseIdx_map, h.views]

theorem Valid.dropProcedure (h : db.Valid) (statement : Ast.NamedStatement) :
    (db.dropProcedure statement).1.Valid := by
  rcases dropProcedure_cases h statement with ⟨e, he⟩ | ⟨i, hd⟩
  · rw [he]
    exact h
  · rw [hd]
    refine ⟨h.defined, h.named, ?_, h.views, ?_, h.stores⟩
    · refine h.distinct.sublist (List.Sublist.append (.refl _) ?_)
      exact (eraseIdx_sublist _ _).map _
    · rw [← eraseIdx_map, ← eraseIdx_map, h.procedures]

end Database

end Shoveler
