import Shoveler.Invariant.Holding
import Shoveler.Properties.VisibleRows

/-!
# AUTO_INCREMENT

A column declared `AUTO_INCREMENT` that an `INSERT` gives no value takes
the id the row is staged under, once and for all. The id is only reserved:
a commit that finds it taken gives the row another, and the value stays.
So the column repeats a value as soon as a commit finds an id of one of
its inserts on a committed row, and only then
(`autoIncrement_distinct_iff`). Two sessions that insert at the same time
are enough.
-/

namespace Shoveler

open Outcome List

/-! ## The column -/

/-- The place of the `AUTO_INCREMENT` column of a name. -/
def TableDef.autoColumn (table : TableDef) (column : Bytes) : Option ℕ :=
  table.columns.findIdx? fun c => c.autoIncrement && decide (c.key = column)

/-- **The values of the column in the committed rows.** -/
def System.autoValues (sys : System) (table column : Bytes) : List (Option Value) :=
  match sys.db.tables.find? (fun t => decide (t.key = table)) with
  | none => []
  | some t =>
    match t.store.table.autoColumn column with
    | none => []
    | some index => t.store.rows.map fun r => r.values[index]?

/-- The value a row takes from its id. -/
def RowId.counter (id : RowId) : Value := .integer (Int64.ofInt id.toNat)

/-- **The column holds the id of the row.** -/
def Numbered (table column : Bytes) : RowProperty := fun key definition row =>
  key = table → ∀ index, definition.autoColumn column = some index →
    row.id.toNat < 2 ^ 63 ∧ row.values[index]? = some (RowId.counter row.id)

/-- **A statement that says nothing of the column**: an `INSERT` into the
table lists other columns, and an `UPDATE` of it assigns others. -/
def Ast.Statement.Spares (table column : Bytes) : Ast.Statement → Prop
  | .insert statement => foldCase statement.tableName = table →
    statement.columns ≠ [] ∧ column ∉ statement.columns.map foldCase
  | .update statement => foldCase statement.tableName = table →
    column ∉ statement.assignments.map fun a => foldCase a.column
  | _ => True

/-- **A commit whose inserts find their ids free**, if it changes the
table. -/
def System.CommitsUnclaimed (table column : Bytes) (sys : System) : Event → Prop
  | .statement i .commit => ∀ e ∈ (sys.sessions i).transactions, ∀ t ∈ sys.db.tables[e.slot]?,
    t.key = table → t.store.table.autoColumn column ≠ none →
    ((sys.sessions i).commit sys.db).1.tables[e.slot]? ≠ some t → e.tx.Unclaimed t.store
  | _ => True

instance (table column : Bytes) (sys : System) :
    DecidablePred (System.CommitsUnclaimed table column sys) := by
  rintro (⟨i, ⟨⟩⟩ | _ | _)
  case statement.commit => exact inferInstanceAs (Decidable (∀ e ∈ _, ∀ t ∈ _, _ → _ → _ → _))
  all_goals exact instDecidableTrue

section Columns

variable {table : TableDef} {column : Bytes} {index : ℕ}

theorem TableDef.autoColumn_eq_some (h : table.autoColumn column = some index) :
    ∃ c, table.columns[index]? = some c ∧ c.autoIncrement = true ∧ c.key = column := by
  obtain ⟨hlt, hc, -⟩ := findIdx?_eq_some_iff_getElem.1 h
  rw [Bool.and_eq_true, decide_eq_true_iff] at hc
  exact ⟨table.columns[index], getElem?_eq_getElem hlt, hc.1, hc.2⟩

/-- A name that finds the column is its name. -/
theorem TableDef.key_of_columnIndex {name : Bytes} (h : table.autoColumn column = some index)
    (hname : table.columnIndex name = some index) : foldCase name = column := by
  obtain ⟨c, hc, -, hkey⟩ := autoColumn_eq_some h
  obtain ⟨hlt, hfound, -⟩ := findIdx?_eq_some_iff_getElem.1 hname
  rw [getElem?_eq_getElem hlt, Option.some.injEq] at hc
  rw [hc, namesEqual_iff] at hfound
  exact hfound.symm.trans hkey

/-! ## What `INSERT` and `UPDATE` put in it -/

/-- The values given by name leave a column that is not named as it was. -/
theorem assignInsertColumns_getElem? {names : List Bytes} {expressions : List Ast.Expression}
    {values values' : List (Option Value)}
    (h : assignInsertColumns table names expressions values = .ok values')
    (hnames : ∀ name ∈ names, table.columnIndex name ≠ some index) :
    values'[index]? = values[index]? := by
  induction names generalizing expressions values with
  | nil =>
    obtain rfl := Except.ok.inj h
    rfl
  | cons name names ih =>
    rw [forall_mem_cons] at hnames
    cases expressions with
    | nil =>
      obtain rfl := Except.ok.inj h
      rfl
    | cons expression expressions =>
      rw [assignInsertColumns] at h
      cases hplace : table.columnIndex name with
      | none =>
        rw [hplace] at h
        cases h
      | some place =>
        simp only [hplace] at h
        obtain ⟨-, h⟩ := ite_error_eq_ok.1 h
        obtain ⟨value, -, h⟩ := bind_eq_ok.1 h
        have hne : place ≠ index := by
          rintro rfl
          exact hnames.1 hplace
        rw [ih h hnames.2, getElem?_set_ne hne]

/-- A column that was given nothing is filled. -/
theorem completeRow_getElem? {id : RowId} {columns : List ColumnDef} {given : List (Option Value)}
    {values : List Value} (h : completeRow id columns given = .ok values) {c : ColumnDef}
    (hc : columns[index]? = some c) (hnone : given[index]? = some none) :
    ∃ value, fillColumn c id = .ok value ∧ values[index]? = some value := by
  induction columns generalizing given values index with
  | nil => cases hc
  | cons first columns ih =>
    cases given with
    | nil => cases hnone
    | cons value given =>
      cases index with
      | zero =>
        obtain rfl := Option.some.inj hc
        obtain rfl := Option.some.inj hnone
        simp only [completeRow, bind_eq_ok] at h
        obtain ⟨filled, hfilled, -, -, rest, -, h⟩ := h
        obtain rfl := Except.ok.inj h
        exact ⟨filled, hfilled, rfl⟩
      | succ index =>
        obtain ⟨head, rest, hrest, rfl⟩ : ∃ head rest, completeRow id columns given = .ok rest ∧
            values = head :: rest := by
          cases value with
          | none =>
            simp only [completeRow, bind_eq_ok] at h
            obtain ⟨filled, -, -, -, rest, hrest, h⟩ := h
            exact ⟨filled, rest, hrest, (Except.ok.inj h).symm⟩
          | some value =>
            simp only [completeRow, ok_bind, bind_eq_ok] at h
            obtain ⟨-, -, rest, hrest, h⟩ := h
            exact ⟨value, rest, hrest, (Except.ok.inj h).symm⟩
        obtain ⟨filled, hfilled, hat⟩ := ih hrest hc hnone
        exact ⟨filled, hfilled, hat⟩

/-- **An `INSERT` that lists other columns puts the id into the column.** -/
theorem numbered_insert {statement : Ast.InsertStatement} {id : RowId} {values : List Value}
    (hindex : table.autoColumn column = some index) (hlisted : statement.columns ≠ [])
    (hother : column ∉ statement.columns.map foldCase)
    (h : rowValuesForInsert table statement id = .ok values) :
    id.toNat < 2 ^ 63 ∧ values[index]? = some (RowId.counter id) := by
  obtain ⟨given, hgiven, h⟩ := bind_eq_ok.1 h
  obtain ⟨c, hc, hauto, hkey⟩ := TableDef.autoColumn_eq_some hindex
  obtain ⟨hlt, -⟩ := List.getElem?_eq_some_iff.1 hc
  have hnone : given[index]? = some none := by
    rw [insertedValues, if_neg (by simpa using hlisted)] at hgiven
    obtain ⟨-, hgiven⟩ := ite_error_eq_ok.1 hgiven
    rw [assignInsertColumns_getElem? hgiven fun name hname hplace => ?_, getElem?_replicate,
      if_pos hlt]
    refine hother ?_
    rw [← TableDef.key_of_columnIndex hindex hplace]
    exact mem_map_of_mem hname
  obtain ⟨value, hfill, hvalue⟩ := completeRow_getElem? h hc hnone
  rw [fillColumn, if_pos hauto, rowIdAsInteger] at hfill
  split at hfill
  · rename_i hsmall
    obtain rfl := Except.ok.inj hfill
    exact ⟨hsmall, hvalue⟩
  · cases hfill

end Columns

/-- **Statements that spare the column keep it at the ids.** -/
theorem keepsRows_numbered (table column : Bytes) :
    KeepsRows (Ast.Statement.Spares table column) (Numbered table column) where
  inserts := by
    intro definition statement id values hspares hvalues hkey index hindex
    obtain ⟨hlisted, hother⟩ := hspares hkey
    exact numbered_insert hindex hlisted hother hvalues
  updates := by
    intro definition statement row values hspares hrow hvalues hkey index hindex
    obtain ⟨hsmall, hold⟩ := hrow hkey index hindex
    rcases applyAssignments_getElem? hvalues index with hsame | ⟨a, ha, hplace⟩
    · exact ⟨hsmall, hsame.trans hold⟩
    · refine absurd ?_ (hspares hkey)
      rw [← TableDef.key_of_columnIndex hindex hplace]
      exact mem_map_of_mem ha

/-- The values a procedure works with change nothing about the columns. -/
theorem materializes_spares (table column : Bytes) :
    Materializes (Ast.Statement.Spares table column) := by
  intro env statement materialized h hspares
  cases statement with
  | insert statement =>
    obtain ⟨values, -, h⟩ := bind_eq_ok.1 h
    obtain rfl := Except.ok.inj h
    exact hspares
  | update statement =>
    simp only [materializeProcedureStatement, bind_eq_ok] at h
    obtain ⟨assignments, hassignments, whereClause, -, h⟩ := h
    obtain rfl := Except.ok.inj h
    have hcolumns : assignments.map (fun a => foldCase a.column) =
        statement.assignments.map fun a => foldCase a.column := by
      rw [← forall₂_eq_eq_eq, forall₂_map_left_iff, forall₂_map_right_iff]
      refine ((mapM_eq_ok.1 hassignments).imp fun a a' ha => ?_).flip
      obtain ⟨value, -, ha⟩ := bind_eq_ok.1 ha
      obtain rfl := Except.ok.inj ha
      rfl
    intro htable
    show column ∉ assignments.map _
    rw [hcolumns]
    exact hspares htable
  | delete statement =>
    obtain ⟨whereClause, -, h⟩ := bind_eq_ok.1 h
    obtain rfl := Except.ok.inj h
    trivial
  | select statement =>
    obtain ⟨query, -, h⟩ := bind_eq_ok.1 h
    obtain rfl := Except.ok.inj h
    trivial
  | begin | commit | rollback | createTable | dropTable | createView | dropView
  | createProcedure | dropProcedure | call => cases h

/-! ## Distinct values -/

theorem RowId.counter_injective {id id' : RowId} (hid : id.toNat < 2 ^ 63)
    (hid' : id'.toNat < 2 ^ 63) (h : RowId.counter id = RowId.counter id') : id = id' := by
  have hint := congrArg Int64.toInt (Value.integer.inj h)
  rw [Int64.toInt_ofInt_of_le (by omega) (by omega),
    Int64.toInt_ofInt_of_le (by omega) (by omega)] at hint
  exact UInt64.toNat_inj.1 (by omega)

section Stores

variable {definition : TableDef} {table column : Bytes} {index : ℕ} {s next : RowStore}
variable {tx : Transaction}

/-- **Rows that hold their ids hold different values.** -/
theorem nodup_of_numbered (hs : s.Valid) (hindex : definition.autoColumn column = some index)
    (h : ∀ r ∈ s.rows, Numbered table column table definition r) :
    (s.rows.map fun r => r.values[index]?).Nodup := by
  refine List.Nodup.map_on (fun r hr r' hr' heq => ?_) (List.Nodup.of_map Row.id hs.distinct)
  obtain ⟨hsmall, hvalue⟩ := h r hr rfl index hindex
  obtain ⟨hsmall', hvalue'⟩ := h r' hr' rfl index hindex
  rw [hvalue, hvalue'] at heq
  exact Transaction.row_unique hs hr hr'
    (RowId.counter_injective hsmall hsmall' (Option.some.inj heq))

/-- **A publication that leaves different values has found the ids of its
inserts free.** Where one was taken, the row that has it and the row that
was staged under it both hold it. -/
theorem unclaimed_of_nodup (hs : s.Valid) (hord : tx.Ordered)
    (hindex : definition.autoColumn column = some index)
    (hbase : ∀ r ∈ s.rows, Numbered table column table definition r)
    (hstaged : tx.AllStaged (Numbered table column table definition))
    (hpub : tx.publish s = .ok next)
    (hnodup : (next.rows.map fun r => r.values[index]?).Nodup) : tx.Unclaimed s := by
  intro r hr htaken
  by_contra hkept
  obtain ⟨-, placed, hplaced, hrows⟩ := Transaction.publish_eq_ok hs hord hpub
  obtain ⟨r', hr', hplace⟩ := exists_left_of_forall₂ hplaced.flip hr
  obtain ⟨r₀, hr₀, hid⟩ := mem_map.1 htaken
  have hpatched : (Keyed.patch Row.id tx.updates r₀).id = r.id := by
    rw [← hid]
    exact Keyed.key_patch _ _
  have hfirst : (Keyed.patch Row.id tx.updates r₀).values[index]? = some (RowId.counter r.id) := by
    rw [← hpatched]
    exact (hstaged.patch (hbase r₀ hr₀) rfl index hindex).2
  have hsecond : r'.values[index]? = some (RowId.counter r.id) := by
    rw [hplace.values]
    exact (hstaged.inserts r hr rfl index hindex).2
  rw [hrows, Keyed.overlay, map_append, nodup_append] at hnodup
  refine hnodup.2.2 _ (mem_map_of_mem (mem_map_of_mem (mem_filter.2 ⟨hr₀, ?_⟩))) _
    (mem_map_of_mem hr') (hfirst.trans hsecond.symm)
  rw [hid]
  exact decide_eq_true hkept

end Stores

/-! ## Steps -/

namespace System

variable {sys : System} {i : ℕ} {table column : Bytes}

/-- The values of the column are those of the one table of the name. -/
theorem autoValues_eq (hkeys : (sys.db.tables.map TableState.key).Nodup) {t : TableState}
    (ht : t ∈ sys.db.tables) (hkey : t.key = table) {index : ℕ}
    (hindex : t.store.table.autoColumn column = some index) :
    sys.autoValues table column = t.store.rows.map fun r => r.values[index]? := by
  subst hkey
  have hfind := Keyed.find?_eq_some_of_mem hkeys ht
  unfold autoValues
  rw [hfind]
  simp only [hindex]

theorem Holding.nodup_autoValues (h : sys.Holding (Numbered table column)) (hvalid : sys.db.Valid) :
    (sys.autoValues table column).Nodup := by
  unfold autoValues
  split
  · exact nodup_nil
  · rename_i t hfind
    obtain ⟨ht, hkey⟩ := Keyed.of_find?_eq_some hfind
    split
    · exact nodup_nil
    · rename_i index hindex
      have hrows : ∀ r ∈ t.store.rows, Numbered table column table t.store.table r :=
        fun r hr _ => h.committed t ht r hr hkey
      exact nodup_of_numbered (hvalid.stores t ht) hindex hrows

/-- What a table transaction has staged for the table. -/
theorem Holding.allStaged (h : sys.Holding (Numbered table column)) {e : TableTransaction}
    (he : e ∈ (sys.sessions i).transactions) {t : TableState} (ht : t ∈ sys.db.tables)
    (htkey : t.key = e.key) (hkey : t.key = table) :
    e.tx.AllStaged (Numbered table column table t.store.table) := by
  have hstaged := h.staged i e he t ht htkey
  rw [hkey] at hstaged
  exact hstaged

/-- **A commit that finds the ids free leaves rows that hold their ids.** -/
theorem Holding.committed_commit (h : sys.Holding (Numbered table column)) (hsteady : sys.Steady)
    (hfree : sys.CommitsUnclaimed table column (.statement i .commit)) :
    ∀ t ∈ ((sys.sessions i).commit sys.db).1.tables, ∀ r ∈ t.store.rows,
      Numbered table column t.key t.store.table r := by
  intro t' ht' r hr hkey index hindex
  obtain ⟨k, hk'⟩ := mem_iff_getElem?.1 ht'
  obtain ⟨t, hk, hf⟩ := getElem?_of_forall₂
    (follows_commit (hsteady.toCoherent.commit_outcome i)).flip hk'
  have ht := mem_of_getElem? hk
  by_cases hsame : t' = t
  · subst hsame
    exact h.committed t' ht r hr hkey index hindex
  rcases hsteady.commit_slot hk hk' with heq | ⟨e, he, rfl, -, hpub⟩
  · exact absurd heq hsame
  · have hname : t.key = table := by
      rw [← hkey, TableState.key, TableState.key, hf.1]
    rw [hf.2.table] at hindex
    obtain ⟨t₀, hin⟩ := hsteady.entries i e he
    obtain rfl := Option.some.inj (hk.symm.trans hin.slot)
    have hun : e.tx.Unclaimed t.store := by
      refine hfree e he t hk hname (by rw [hindex]; exact Option.some_ne_none index) ?_
      rw [hk']
      exact fun heq => hsame (Option.some.inj heq)
    have hvalid := hsteady.valid.stores t ht
    rw [hun.publish hvalid hin.staged.toOrdered hpub] at hr
    refine (h.allStaged he ht hin.key hname).view (fun r hr _ => ?_) r hr rfl index hindex
    exact h.committed t ht r hr hname

/-- **A commit that leaves different values has found the ids free.** -/
theorem Holding.commitsUnclaimed (frontend : Frontend) (h : sys.Holding (Numbered table column))
    (hsteady : sys.Steady)
    (hnodup : ((sys.step frontend (.statement i .commit)).autoValues table column).Nodup) :
    sys.CommitsUnclaimed table column (.statement i .commit) := by
  intro e he t hk hkey hauto hchanged
  have hnext := coherent_step frontend hsteady.toCoherent (.statement i .commit)
  rw [hsteady.toCoherent.step_commit frontend i] at hnodup hnext
  have ht := mem_of_getElem? hk
  obtain ⟨index, hindex⟩ := Option.ne_none_iff_exists'.1 hauto
  obtain ⟨t', hk', hf⟩ := getElem?_of_forall₂
    (follows_commit (hsteady.toCoherent.commit_outcome i)) hk
  have hname : t'.key = table := by
    rw [← hkey, TableState.key, TableState.key, hf.1]
  rw [autoValues_eq hnext.valid.stateKeys_nodup (mem_of_getElem? hk') hname
    (by rw [hf.2.table]; exact hindex)] at hnodup
  rcases hsteady.commit_slot hk hk' with rfl | ⟨e', he', hslot, -, hpub⟩
  · exact absurd hk' hchanged
  · -- only one transaction of the session points at the table
    obtain rfl : e' = e := inj_on_of_nodup_map (hsteady.slots_nodup i) he' he hslot
    obtain ⟨t₀, hin⟩ := hsteady.entries i e' he
    obtain rfl := Option.some.inj (hk.symm.trans hin.slot)
    exact unclaimed_of_nodup (hsteady.valid.stores t ht) hin.staged.toOrdered hindex
      (fun r hr _ => h.committed t ht r hr hkey) (h.allStaged he ht hin.key hkey) hpub hnodup

/-- Tables are created and dropped while no session is active. -/
def ReshapesAtRest (sys : System) (event : Event) : Prop :=
  event.Reshapes → ∀ j, (sys.sessions j).active = false

/-- **An event keeps the column at the ids** if it spares the column and, as
a commit, finds the ids free. -/
theorem Steady.numbered_step (frontend : Frontend) (hsteady : sys.Steady)
    (h : sys.Holding (Numbered table column)) {event : Event}
    (hspares : sys.Performs (Ast.Statement.Spares table column) event)
    (hrest : sys.ReshapesAtRest event) (hfree : sys.CommitsUnclaimed table column event) :
    (sys.step frontend event).Steady ∧
      (sys.step frontend event).Holding (Numbered table column) := by
  by_cases hddl : event.Reshapes
  · have hco := coherent_step frontend hsteady.toCoherent event
    have hidle : ∀ j, ((sys.step frontend event).sessions j).active = false := by
      rw [sessions_reshape frontend hddl]
      exact hrest hddl
    exact ⟨hco.steady hidle,
      hco.holding hidle (h.committed_reshape frontend hsteady.valid hddl)⟩
  · refine ⟨steady_step frontend hsteady hddl, ?_⟩
    refine hsteady.holding_step frontend h (keepsRows_numbered table column)
      (materializes_spares table column) hspares hddl ?_
    rintro i rfl
    exact h.committed_commit hsteady hfree

end System

/-- **The values of an `AUTO_INCREMENT` column stay pairwise distinct
exactly as long as no commit finds an id its inserts have reserved on a
committed row.** For every table and column, any sessions and any
interleaving of statements that give the column no value, with tables
created and dropped only between transactions. -/
theorem autoIncrement_distinct_iff (frontend : Frontend) {start : System}
    (hreach : start.Reachable frontend) (hrest : ∀ j, (start.sessions j).active = false)
    (table column : Bytes)
    (hrows : ∀ t ∈ start.db.tables, ∀ r ∈ t.store.rows, Numbered table column t.key t.store.table r)
    {events : List Event}
    (hspares : start.Along frontend (System.Performs (Ast.Statement.Spares table column)) events)
    (hddl : start.Along frontend System.ReshapesAtRest events) :
    (∀ first, first <+: events →
        ((start.run frontend first).autoValues table column).Nodup) ↔
      start.Along frontend (System.CommitsUnclaimed table column) events := by
  have hco := hreach.coherent
  refine Run.along_iff_target
    (I := fun sys => System.Steady sys ∧ sys.Holding (Numbered table column))
    (fun sys h => h.2.nodup_autoValues h.1.valid)
    (fun sys event h hd hc => h.1.numbered_step frontend h.2 hd.1 hd.2 hc)
    (fun sys event h _ hnodup => ?_) ⟨hco.steady hrest, hco.holding hrest hrows⟩
    (hspares.and hddl)
  unfold System.CommitsUnclaimed
  split
  · exact h.2.commitsUnclaimed frontend h.1 hnodup
  · trivial

/-! ### Two sessions -/

namespace Script

/-- `CREATE TABLE A (id INTEGER AUTO_INCREMENT, v INTEGER)`. -/
def counted : Event :=
  .statement 0 (.createTable
    { name := ascii "A"
      columns := [{ name := ascii "id", columnType := .integer, autoIncrement := true },
        { name := ascii "v", columnType := .integer }] })

/-- `INSERT INTO A (v) VALUES (n)`. -/
def insertCounted (i : ℕ) (n : Int64) : Event :=
  .statement i (.insert
    { tableName := ascii "A", columns := [ascii "v"], values := [literal (some n)] })

/-- One session after the other, and a row updated in between. -/
def countedInTurn : List Event :=
  [counted, begin 1, insertCounted 1 7, commit 1, begin 2, insertCounted 2 8,
    update 2 "A" "v" 9, commit 2]

/-- The same statements, both sessions at once. -/
def countedAtOnce : List Event :=
  [counted, begin 1, insertCounted 1 7, begin 2, insertCounted 2 8, commit 1, commit 2]

end Script

/-- In turn the column counts on. -/
theorem autoIncrement_distinct_in_turn :
    ((System.start {}).run Script.frontend Script.countedInTurn).autoValues (ascii "a")
        (ascii "id") = [some (.integer 1), some (.integer 2)] ∧
      ∀ first, first <+: Script.countedInTurn →
        (((System.start {}).run Script.frontend first).autoValues (ascii "a")
          (ascii "id")).Nodup := by
  have hspares : ∀ event ∈ Script.countedInTurn, ∀ sys : System,
      sys.Performs (Ast.Statement.Spares (ascii "a") (ascii "id")) event := by
    simp only [Script.countedInTurn, forall_mem_cons]
    exact ⟨fun _ => trivial, fun _ => trivial, fun _ _ => by decide, fun _ => trivial,
      fun _ => trivial, fun _ _ => by decide, fun _ _ => by decide, fun _ => trivial,
      forall_mem_nil _⟩
  have hlater : ∀ event ∈ Script.countedInTurn.tail, ¬event.Reshapes := by decide
  refine ⟨by decide +kernel, (autoIncrement_distinct_iff Script.frontend ⟨{}, [], .empty, rfl⟩
    (fun _ => rfl) (ascii "a") (ascii "id") (forall_mem_nil _) (Run.along_of_mem hspares)
    ⟨fun _ _ => rfl, Run.along_of_mem fun event hevent _ hddl => ?_⟩).2 (by decide +kernel)⟩
  exact absurd hddl (hlater event hevent)

/-- **At once both rows are numbered 1**: the second commit finds the id
taken, gives its row the id 2 and leaves the value. -/
theorem autoIncrement_repeats :
    ((System.start {}).run Script.frontend Script.countedAtOnce).autoValues (ascii "a")
        (ascii "id") = [some (.integer 1), some (.integer 1)] ∧
      ((System.start {}).run Script.frontend Script.countedAtOnce).db.tables.map
        (fun t => t.store.ids) = [[1, 2]] := by
  decide +kernel

end Shoveler
