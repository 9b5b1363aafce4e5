import Shoveler.Invariant.Retention
import Shoveler.Invariant.Steady

/-!
# Accepted tables built again

A definition that `TableDef.init` has accepted is built again from its own
columns and indexes whenever a generation is retained or a snapshot is
exported. The checks are then made on what the first pass has normalised:
an index without a name has got one, which may be another's, and a column
with `DEFAULT NULL` may have become part of the primary key. Which
specifications come through is said by `TableSpec.Rebuilds`. It is exact
(`accepted_tables_rebuild`), and tables that do not come through stop
every commit that has to retain them, and every export
(`rebuild_refused`).
-/

namespace Shoveler

open Outcome Script

/-! ## Specifications that come through -/

/-- The name an index goes by in the end. -/
def IndexSpec.givenName (self : IndexSpec) : Bytes :=
  self.name.getD (if self.kind = .primary then primaryIndexName else self.columns.headD [])

/-- **A specification whose definition can be built again**: the names of
its indexes are distinct with the default names among them, and no column
of the primary index has `NULL` for its default. -/
structure TableSpec.Rebuilds (spec : TableSpec) : Prop where
  indexNames : (spec.indexes.map fun i => foldCase i.givenName).Nodup
  nullDefaults : ∀ c ∈ spec.columns, c.defaultValue = some .null →
    c.key ∉ primaryNames spec.indexes

instance (spec : TableSpec) : Decidable spec.Rebuilds :=
  decidable_of_iff ((spec.indexes.map fun i => foldCase i.givenName).Nodup ∧
      ∀ c ∈ spec.columns, c.defaultValue = some .null →
        (primaryNames spec.indexes).contains c.key = false)
    ⟨fun h => ⟨h.1, fun c hc hnull hmem => by simpa [hmem] using h.2 c hc hnull⟩,
      fun h => ⟨h.1, fun c hc hnull => by simpa using h.2 c hc hnull⟩⟩

namespace TableSpec

variable {spec : TableSpec} {t : TableDef}

theorem name_of_init {index : IndexSpec} {d : IndexDef} (h : IndexDef.init index = .ok d) :
    d.name = index.givenName := by
  unfold IndexDef.init at h
  split at h
  · cases h
  · rename_i first rest hcols
    obtain rfl := Except.ok.inj h
    rw [IndexSpec.givenName, hcols]
    rfl

/-- The indexes of the definition have the names given. -/
theorem indexNames_iff (h : TableDef.init spec = .ok t) :
    (t.indexes.map fun i => foldCase i.name).Nodup ↔
      (spec.indexes.map fun i => foldCase i.givenName).Nodup := by
  obtain ⟨-, -, initial, -, hindexes, -⟩ := TableDef.build_eq_ok.1 (TableDef.init_eq_ok.1 h).1
  have hsame := map_eq_of_forall₂ (f := fun i : IndexSpec => foldCase i.givenName)
    (g := fun i : IndexDef => foldCase i.name)
    (fun index d hd => congrArg foldCase (name_of_init hd)) hindexes
  rw [hsame]

/-- A column keeps its name and its default, and was made nullable where that
is null. -/
theorem column_of_init {s : ColumnSpec} {c : ColumnDef} (h : ColumnDef.init s = .ok c) :
    c.key = s.key ∧ c.defaultValue = s.defaultValue ∧
      (s.defaultValue = some .null → c.nullable = true) := by
  obtain ⟨-, hdefault, rfl⟩ := ColumnDef.init_eq_ok.1 h
  exact ⟨rfl, rfl, (checkDefault_eq_ok.1 hdefault).1⟩

theorem defaultValue_markIn (names : List Bytes) (c : ColumnDef) :
    (c.markIn names).defaultValue = c.defaultValue := by
  rw [ColumnDef.markIn]
  split <;> rfl

/-- It is still nullable where the primary index does not name it. -/
theorem nullDefaults_iff (h : TableDef.init spec = .ok t) :
    (∀ c ∈ t.columns, c.defaultValue = some .null → c.nullable = true) ↔
      ∀ c ∈ spec.columns, c.defaultValue = some .null → c.key ∉ primaryNames spec.indexes := by
  obtain ⟨-, -, initial, hinit, -, hcolumns⟩ := TableDef.build_eq_ok.1 (TableDef.init_eq_ok.1 h).1
  rw [hcolumns, List.forall_mem_map]
  constructor
  · intro hall s hs hnull hmem
    obtain ⟨c, hc, hsc⟩ := exists_left_of_forall₂ hinit.flip hs
    obtain ⟨hkey, hdefault, -⟩ := column_of_init hsc
    have hnullable := hall c hc
    rw [defaultValue_markIn, hdefault, ColumnDef.markIn, if_pos (hkey ▸ hmem)] at hnullable
    exact Bool.false_ne_true (hnullable hnull)
  · intro hall c hc hnull
    obtain ⟨s, hs, hsc⟩ := exists_left_of_forall₂ hinit hc
    obtain ⟨hkey, hdefault, hnullable⟩ := column_of_init hsc
    rw [defaultValue_markIn, hdefault] at hnull
    rw [ColumnDef.markIn, if_neg (hkey ▸ hall s hs hnull)]
    exact hnullable hnull

/-- **The condition on the specification is the one on the definition.** -/
theorem rebuilds_iff (h : TableDef.init spec = .ok t) : t.Rebuildable ↔ spec.Rebuilds :=
  ⟨fun ht => ⟨(indexNames_iff h).1 ht.indexNames, (nullDefaults_iff h).1 ht.nullDefaults⟩,
    fun hs => ⟨(indexNames_iff h).2 hs.indexNames, (nullDefaults_iff h).2 hs.nullDefaults⟩⟩

end TableSpec

/-! ## Over whole runs -/

/-- **A `CREATE TABLE` whose specification comes through.** -/
def CreatesRebuildable : Event → Prop
  | .statement _ (.createTable statement) =>
    ∀ spec, Database.tableSpec statement = .ok spec → spec.Rebuilds
  | _ => True

namespace System

variable {sys : System}

/-- A new table is rebuilt where its specification comes through. -/
theorem rebuilds_createTable {db : Database} (hvalid : db.Valid) (h : db.Rebuilds)
    {statement : Ast.CreateTableStatement}
    (hspec : ∀ spec, Database.tableSpec statement = .ok spec → spec.Rebuilds) :
    (orKeep db (db.createTable statement)).1.Rebuilds := by
  cases hc : db.createTable statement with
  | error e => exact h
  | ok db' =>
    rcases Database.createTable_eq_ok hvalid hc with rfl | ⟨spec, table, hs, hinit, -, -, rfl⟩
    · exact h
    · refine List.forall_mem_append.2 ⟨h, fun t ht => ?_⟩
      rw [List.mem_singleton] at ht
      rw [ht]
      exact (TableSpec.rebuilds_iff hinit).2 (hspec spec hs)

theorem rebuilds_dropTable {db : Database} (hvalid : db.Valid) (h : db.Rebuilds)
    (statement : Ast.NamedStatement) : (orKeep db (db.dropTable statement)).1.Rebuilds := by
  cases hd : db.dropTable statement with
  | error e => exact h
  | ok db' =>
    rcases Database.dropTable_eq_ok hvalid hd with rfl | ⟨index, -, rfl⟩
    · exact h
    · exact fun t ht => h t ((List.eraseIdx_sublist _ _).subset ht)

/-- Every event keeps the tables such that they can be rebuilt. -/
theorem rebuilds_step (frontend : Frontend) (h : sys.Coherent) (hr : sys.db.Rebuilds) {event : Event}
    (hc : CreatesRebuildable event) : (sys.step frontend event).db.Rebuilds := by
  by_cases hddl : event.Reshapes
  · unfold Event.Reshapes at hddl
    split at hddl
    · exact rebuilds_createTable h.valid hr hc
    · exact rebuilds_dropTable h.valid hr _
    · exact hddl.elim
  · exact rebuilds_of_follows hr (follows_step frontend h hddl)

theorem rebuilds_run (frontend : Frontend) (h : sys.Coherent) (hr : sys.db.Rebuilds) {events : List Event}
    (hc : ∀ event ∈ events, CreatesRebuildable event) :
    (sys.run frontend events).Coherent ∧ (sys.run frontend events).db.Rebuilds := by
  refine Run.run_invariant (I := fun sys : System => sys.Coherent ∧ sys.db.Rebuilds)
    (C := fun _ event => CreatesRebuildable event) (fun sys event hsys hcond => ?_) ⟨h, hr⟩
    (Run.along_of_mem fun event hmem _ => hc event hmem)
  exact ⟨coherent_step frontend hsys.1 event, rebuilds_step frontend hsys.1 hsys.2 hcond⟩

end System

/-- **Accepted tables built again.** A definition that was accepted is given
back by `cloneTableDef` exactly when the names of its indexes are distinct,
default names included, and no column of its primary index has `NULL` for
its default. So in a run whose `CREATE TABLE`s all meet this, the tables
can be exported in every state, and a commit is refused retention at the
limit only. -/
theorem accepted_tables_rebuild (frontend : Frontend) :
    (∀ spec t, TableDef.init spec = .ok t → (cloneTableDef t = .ok t ↔ spec.Rebuilds)) ∧
      ∀ db events, System.Opened db → db.Rebuilds →
        (∀ event ∈ events, CreatesRebuildable event) →
        (∃ s, ((System.start db).run frontend events).db.exportSnapshot = .ok s) ∧
          ∀ i registry e,
            ((System.start db).run frontend events).db.retainCurrentGenerationForActiveSnapshots
                (((System.start db).run frontend events).sessions i).snapshotHandle =
              (registry, .error e) → e = .snapshotRetentionExceeded := by
  refine ⟨fun spec t h => ?_, fun db events hopened hr hc => ?_⟩
  · rw [TableDef.cloneTableDef_eq_ok, TableSpec.rebuilds_iff h]
    exact and_iff_left rfl
  · have hreach : (System.start db).Reachable frontend := ⟨db, [], hopened, rfl⟩
    obtain ⟨hco, hrebuilds⟩ := System.rebuilds_run frontend hreach.coherent hr hc
    exact ⟨⟨_, (Database.exportSnapshot_eq_ok hco.valid).2 ⟨hrebuilds, rfl⟩⟩,
      fun i registry e hret => hco.retention_error hrebuilds hret⟩

/-- `CREATE TABLE T (a INTEGER DEFAULT .., INDEX .., ..)`. -/
def createIndexed (default : Option Ast.Expression) (indexes : List Ast.IndexDef) :
    Ast.CreateTableStatement where
  name := ascii "T"
  columns := [{ name := ascii "a", columnType := .integer, defaultValue := default }]
  indexes := indexes

/-- The table is created, session 1 reads, and session 0 inserts a row; what
comes next is its commit. -/
def insertBesideReader (statement : Ast.CreateTableStatement) : List Event :=
  [.statement 0 (.createTable statement), begin 1, begin 0,
    insert 0 "T" [some 1]]

/-- A named and a nameless index, beside a column with a null default that
is in no primary index. -/
def namedIndex : List Ast.IndexDef :=
  [{ name := some (ascii "i"), columns := [ascii "a"] }, { columns := [ascii "a"] }]

/-- Such a table is built again as it is, and exported. -/
theorem accepted_tables_rebuild_named :
    (∃ spec t, Database.tableSpec (createIndexed (some (.literal .null)) namedIndex) = .ok spec ∧
        TableDef.init spec = .ok t ∧ cloneTableDef t = .ok t) ∧
      ∃ s, ((System.start {}).run Script.frontend (insertBesideReader
        (createIndexed (some (.literal .null)) namedIndex))).db.exportSnapshot = .ok s := by
  have hspec : ∃ spec,
      Database.tableSpec (createIndexed (some (.literal .null)) namedIndex) = .ok spec ∧
        (TableDef.init spec).isOk = true ∧ spec.Rebuilds :=
    ⟨_, rfl, by decide +kernel, by decide⟩
  obtain ⟨spec, hs, hok, hrebuilds⟩ := hspec
  obtain ⟨t, ht⟩ := exists_ok hok
  refine ⟨⟨spec, t, hs, ht, ((accepted_tables_rebuild frontend).1 spec t ht).2 hrebuilds⟩,
    ((accepted_tables_rebuild frontend).2 {} _ .empty (by decide) fun event hevent => ?_).1⟩
  simp only [insertBesideReader, List.mem_cons, List.not_mem_nil, or_false] at hevent
  rcases hevent with rfl | rfl | rfl | rfl
  · intro spec' hspec'
    obtain rfl := Except.ok.inj (hs.symm.trans hspec')
    exact hrebuilds
  all_goals exact trivial

/-- **Two nameless indexes over one column**, and a nullable column with
`DEFAULT NULL` in the primary index: both are accepted, and then neither
the commit beside a reader nor the export goes through. -/
theorem rebuild_refused :
    (let statement := createIndexed none [{ columns := [ascii "a"] }, { columns := [ascii "a"] }]
     let sys := (System.start {}).run frontend (insertBesideReader statement)
     sys.db.tables.length = 1 ∧
       (sys.perform frontend (commit 0)).2 = .error .duplicateObject ∧
       sys.db.exportSnapshot = .error .duplicateObject) ∧
      let statement := createIndexed (some (.literal .null))
        [{ columns := [ascii "a"], primary := true }]
      let sys := (System.start {}).run frontend (insertBesideReader statement)
      sys.db.tables.length = 1 ∧
        (sys.perform frontend (commit 0)).2 = .error .typeMismatch ∧
        sys.db.exportSnapshot = .error .typeMismatch := by
  decide +kernel

end Shoveler
