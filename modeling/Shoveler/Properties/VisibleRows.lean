import Shoveler.Properties.StatementAtomicity

/-!
# Visible rows

The rows a session sees of a table are laid together from three staged
lists and a base that is the live store or a retained one. To the session
they behave like one plain list: `INSERT` appends to it, `UPDATE` maps over
it, `DELETE` filters it, the count is the number of rows concerned, and no
two rows of it share an id (`visible_rows_as_list`). The loops of `UPDATE`
and `DELETE` go over the very list they change, so both are instances of
`Sweep.rewrites`.
-/

namespace Shoveler

open Outcome Script List

variable {statement : Ast.UpdateStatement} {result : ExecutionResult} {frontend : Frontend}
  {values : List Value}

/-- The rows a session sees of a table. -/
def System.visibleRows (sys : System) (i : ℕ) (table : TableState) : Result (List Row) :=
  scanRowsForTable sys.db (sys.sessions i) table

/-- `WHERE` holds of the row. -/
def holdsFor (table : TableDef) (whereClause : Option Ast.Expression) (row : Row) : Bool :=
  decide (matchesWhere table row whereClause = .ok true)

/-! ## What an `UPDATE` makes of a row -/

/-- The assignment that decides a column: the last one that names it. -/
def lastAssignment (table : TableDef) (assignments : List Ast.Assignment) (c : ℕ) :
    Option Ast.Assignment :=
  assignments.reverse.find? fun a => decide (table.columnIndex a.column = some c)

/-- **The row with its assigned columns replaced**: they hold the
expressions evaluated on the old row, and the rest is the old row. -/
structure AssignedRow (table : TableDef) (assignments : List Ast.Assignment) (old new : Row) :
    Prop where
  id : new.id = old.id
  width : new.values.length = old.values.length
  assigned : ∀ c a, lastAssignment table assignments c = some a →
    ∃ value, evalExpression table old a.value = .ok value ∧ new.values[c]? = some value
  others : ∀ c, lastAssignment table assignments c = none → new.values[c]? = old.values[c]?

/-- The row an `UPDATE` leaves in the place of another. -/
def updatedRow (table : TableDef) (statement : Ast.UpdateStatement) (row : Row) : Row :=
  match updatedValues table statement row with
  | .ok (some values) => ⟨row.id, values⟩
  | _ => row

section Assignments

variable {table : TableDef} {row : Row}

theorem lastAssignment_cons (a : Ast.Assignment) (rest : List Ast.Assignment) (c : ℕ) :
    lastAssignment table (a :: rest) c =
      (lastAssignment table rest c).or (if table.columnIndex a.column = some c then some a else none) := by
  rw [lastAssignment, reverse_cons, find?_append, find?_singleton]
  simp only [decide_eq_true_eq]
  rfl

/-- It is one of the assignments, and names the column. -/
theorem lastAssignment_eq_some {assignments : List Ast.Assignment} {c : ℕ} {a : Ast.Assignment}
    (h : lastAssignment table assignments c = some a) :
    a ∈ assignments ∧ table.columnIndex a.column = some c :=
  ⟨mem_reverse.1 (mem_of_find?_eq_some h), by simpa using find?_some h⟩

/-- **The assignment loop, column by column.** A later assignment to the
same column wins. -/
theorem applyAssignments_column {assignments : List Ast.Assignment} {values' : List Value}
    (h : applyAssignments table row assignments values = .ok values') :
    values'.length = values.length ∧ ∀ c,
      (∀ a, lastAssignment table assignments c = some a →
        ∃ value, evalExpression table row a.value = .ok value ∧ values'[c]? = some value) ∧
      (lastAssignment table assignments c = none → values'[c]? = values[c]?) := by
  induction assignments generalizing values with
  | nil =>
    obtain rfl := Except.ok.inj h
    exact ⟨rfl, fun c => ⟨fun a ha => (by cases ha), fun _ => rfl⟩⟩
  | cons assignment rest ih =>
    rw [applyAssignments] at h
    cases hindex : table.columnIndex assignment.column with
    | none =>
      rw [hindex] at h
      cases h
    | some index =>
      simp only [hindex] at h
      by_cases hlt : index < values.length
      · rw [if_pos hlt] at h
        obtain ⟨value, hvalue, h⟩ := bind_eq_ok.1 h
        obtain ⟨hlength, hcolumns⟩ := ih h
        refine ⟨by rw [hlength, length_set], fun c => ?_⟩
        rw [lastAssignment_cons, hindex]
        cases hlast : lastAssignment table rest c with
        | some later =>
          -- a later assignment decides
          refine ⟨fun a ha => (hcolumns c).1 a ?_, fun hnone => by cases hnone⟩
          rw [hlast]
          exact ha
        | none =>
          have hsame := (hcolumns c).2 hlast
          by_cases hc : index = c
          · subst hc
            refine ⟨fun a ha => ?_, fun hnone => ?_⟩
            · rw [if_pos rfl] at ha
              obtain rfl := Option.some.inj ha
              exact ⟨value, hvalue, by rw [hsame, getElem?_set_self hlt]⟩
            · rw [if_pos rfl] at hnone
              cases hnone
          · have hne : ¬some index = some c := fun he => hc (Option.some.inj he)
            refine ⟨fun a ha => ?_, fun _ => by rw [hsame, getElem?_set_ne hc]⟩
            rw [if_neg hne] at ha
            cases ha
      · rw [if_neg hlt] at h
        cases h

/-- The assignments change the columns they name and no other. -/
theorem applyAssignments_getElem? {assignments : List Ast.Assignment} {values' : List Value}
    (h : applyAssignments table row assignments values = .ok values') (c : ℕ) :
    values'[c]? = values[c]? ∨ ∃ a ∈ assignments, table.columnIndex a.column = some c := by
  cases hlast : lastAssignment table assignments c with
  | none => exact Or.inl (((applyAssignments_column h).2 c).2 hlast)
  | some a => exact Or.inr ⟨a, lastAssignment_eq_some hlast⟩

theorem updatedRow_id (row : Row) :
    (updatedRow table statement row).id = row.id := by
  unfold updatedRow
  split <;> rfl

/-- What an `UPDATE` that does not fail on a row makes of it. -/
theorem updatedRow_spec {new : Option (List Value)}
    (h : updatedValues table statement row = .ok new) :
    (holdsFor table statement.whereClause row = true →
        AssignedRow table statement.assignments row (updatedRow table statement row)) ∧
      (holdsFor table statement.whereClause row = false → updatedRow table statement row = row) := by
  have hrow := h
  unfold updatedValues at hrow
  obtain ⟨holds, hwhere, hrow⟩ := bind_eq_ok.1 hrow
  unfold holdsFor updatedRow
  rw [hwhere]
  cases holds with
  | false =>
    obtain rfl := Except.ok.inj hrow
    rw [h]
    exact ⟨fun hf => (by cases hf), fun _ => rfl⟩
  | true =>
    obtain ⟨values, hvalues, hsome⟩ := bind_eq_ok.1 hrow
    obtain rfl := Except.ok.inj hsome
    obtain ⟨hwidth, hcolumns⟩ := applyAssignments_column hvalues
    rw [h]
    exact ⟨fun _ => ⟨rfl, hwidth, fun c a => (hcolumns c).1 a, fun c => (hcolumns c).2⟩,
      fun hf => by cases hf⟩

end Assignments

/-! ## The loops -/

namespace Transaction

variable {tx tx' : Transaction} {store : Result RowStore} {id : RowId} {base : List Row}

/-- Local inserts stay apart from the base. -/
theorem Apart.update (h : tx.Apart base) (hord : tx.Ordered)
    (hu : tx.update store id values = .ok tx') : tx'.Apart base := by
  obtain ⟨-, s, -, -, ⟨hid, rfl⟩ | ⟨-, -, -, rfl⟩⟩ :=
    (update_eq_ok hord.inserts_nodup hord.updates_nodup).1 hu
  · intro i hi
    rw [insertIds, insertIds_upsert hid] at hi
    exact h i hi
  · exact h

theorem Apart.delete (h : tx.Apart base) (hord : tx.Ordered)
    (hd : tx.delete store id = .ok tx') : tx'.Apart base := by
  obtain ⟨-, ⟨-, rfl⟩ | ⟨-, s, -, -, -, rfl⟩⟩ :=
    (delete_eq_ok hord.inserts_nodup hord.updates_nodup).1 hd
  · exact fun i hi => h i ((filter_sublist.map _).subset hi)
  · exact h

/-- What the loops keep of the transaction they work on. -/
structure Working (base : List Row) (slot : ℕ) (tx : Transaction) : Prop where
  active : tx.state = .active
  slot : tx.slot = slot
  ordered : tx.Ordered
  apart : tx.Apart base

variable {slot : ℕ}

theorem Working.update (h : tx.Working base slot) (hu : tx.update store id values = .ok tx') :
    tx'.Working base slot := by
  obtain ⟨hslot, hstate⟩ := update_frame hu
  exact ⟨hstate.trans h.active, hslot.trans h.slot, h.ordered.update hu, h.apart.update h.ordered hu⟩

theorem Working.delete (h : tx.Working base slot) (hd : tx.delete store id = .ok tx') :
    tx'.Working base slot := by
  obtain ⟨hslot, hstate⟩ := delete_frame hd
  exact ⟨hstate.trans h.active, hslot.trans h.slot, h.ordered.delete hd, h.apart.delete h.ordered hd⟩

end Transaction

section Loops

variable {store : Result RowStore} {table : TableDef} {base rows : List Row} {slot n : ℕ}
variable {tx : Transaction}

/-- Whether a row is rewritten is whether `WHERE` holds of it. -/
theorem holdsFor_of_updatedValues {row : Row} {new : Option (List Value)}
    (h : updatedValues table statement row = .ok new) :
    holdsFor table statement.whereClause row = new.isSome := by
  unfold updatedValues at h
  obtain ⟨holds, hwhere, h⟩ := bind_eq_ok.1 h
  rw [holdsFor, hwhere]
  cases holds with
  | false =>
    obtain rfl := Except.ok.inj h
    rfl
  | true =>
    obtain ⟨values, -, hsome⟩ := bind_eq_ok.1 h
    obtain rfl := Except.ok.inj hsome
    rfl

/-- A step of `DELETE` takes the row out, or does nothing. -/
theorem deleteStep_eq_ok {whereClause : Option Ast.Expression} {row : Row}
    {next : Option Transaction} (h : deleteStep store table whereClause row tx = .ok next) :
    holdsFor table whereClause row = false ∧ next = none ∨
      holdsFor table whereClause row = true ∧ ∃ tx', next = some tx' ∧
        tx.delete store row.id = .ok tx' := by
  unfold deleteStep at h
  obtain ⟨holds, hwhere, h⟩ := bind_eq_ok.1 h
  rw [holdsFor, hwhere]
  cases holds with
  | false => exact Or.inl ⟨rfl, (Except.ok.inj h).symm⟩
  | true =>
    obtain ⟨tx', htx, h⟩ := bind_eq_ok.1 h
    exact Or.inr ⟨rfl, tx', (Except.ok.inj h).symm, htx⟩

/-- **The loop of `UPDATE` maps over the rows in view.** -/
theorem stageUpdates_view (htx : tx.Working base slot) (hview : tx.view base = rows)
    (hnodup : (rows.map Row.id).Nodup)
    (hok : (stageUpdates store table statement rows tx).2 = .ok n) :
    (stageUpdates store table statement rows tx).1.Working base slot ∧
      (stageUpdates store table statement rows tx).1.view base =
        rows.map (updatedRow table statement) ∧
      n = rows.countP (holdsFor table statement.whereClause) := by
  rw [stageUpdates_eq_sweep] at hok ⊢
  rw [← filterMap_eq_map]
  refine Sweep.rewrites (I := Transaction.Working base slot) (fun tx => tx.view base) Row.id
    ?_ ?_ ?_ htx hview hnodup hok
  · intro row row' he
    obtain rfl := Option.some.inj he
    exact updatedRow_id row
  · intro row tx hstep
    obtain ⟨new, hnew, ⟨rfl, -⟩ | ⟨values, tx', -, hnext, -⟩⟩ := updateStep_eq_ok hstep
    · exact ⟨congrArg some (by rw [updatedRow, hnew]), holdsFor_of_updatedValues hnew⟩
    · cases hnext
  · intro row tx tx' hwork hstep
    obtain ⟨new, hnew, ⟨-, hnext⟩ | ⟨values, tx₁, rfl, hnext, hupdate⟩⟩ := updateStep_eq_ok hstep
    · cases hnext
    · obtain rfl := Option.some.inj hnext
      refine ⟨hwork.update hupdate, holdsFor_of_updatedValues hnew, ?_⟩
      rw [Transaction.view_update hwork.ordered hwork.apart hupdate, ← filterMap_eq_map]
      refine filterMap_congr fun r _ => ?_
      simp only [Function.comp_apply, updatedRow, hnew]
      split <;> rfl

/-- **The loop of `DELETE` filters them.** -/
theorem stageDeletes_view {whereClause : Option Ast.Expression} (htx : tx.Working base slot)
    (hview : tx.view base = rows) (hnodup : (rows.map Row.id).Nodup)
    (hok : (stageDeletes store table whereClause rows tx).2 = .ok n) :
    (stageDeletes store table whereClause rows tx).1.Working base slot ∧
      (stageDeletes store table whereClause rows tx).1.view base =
        rows.filter (fun row => !holdsFor table whereClause row) ∧
      n = rows.countP (holdsFor table whereClause) := by
  rw [stageDeletes_eq_sweep] at hok ⊢
  rw [← filterMap_eq_filter]
  refine Sweep.rewrites (I := Transaction.Working base slot) (fun tx => tx.view base) Row.id
    ?_ ?_ ?_ htx hview hnodup hok
  · intro row row' he
    rw [(Option.guard_eq_some_iff.1 he).1]
  · intro row tx hstep
    obtain ⟨hfalse, -⟩ | ⟨-, tx', hnext, -⟩ := deleteStep_eq_ok hstep
    · exact ⟨Option.guard_eq_some_iff.2 ⟨rfl, by rw [hfalse]; rfl⟩, hfalse⟩
    · cases hnext
  · intro row tx tx' hwork hstep
    obtain ⟨-, hnext⟩ | ⟨htrue, tx₁, hnext, hdelete⟩ := deleteStep_eq_ok hstep
    · cases hnext
    · obtain rfl := Option.some.inj hnext
      refine ⟨hwork.delete hdelete, htrue, ?_⟩
      rw [Transaction.view_delete hwork.ordered hwork.apart hdelete, ← filterMap_eq_filter]
      refine filterMap_congr fun r _ => ?_
      by_cases hr : r.id = row.id
      · simp [Option.guard, hr, htrue]
      · simp [Option.guard, hr]

end Loops

/-! ## Statements -/

/-- Changing the transaction of one table changes what is seen of no
other. -/
theorem Session.scan_setTransaction_of_ne (db : Database) {s : Session} {index : ℕ}
    {e : TableTransaction} (he : s.transactions[index]? = some e) (tx : Transaction)
    {t : TableState} (hne : e.key ≠ t.key) :
    scanRowsForTable db (s.setTransaction index tx) t = scanRowsForTable db s t := by
  have hread : (s.setTransaction index tx).transactionForRead t.name =
      s.transactionForRead t.name := by
    have hskip : namesEqual e.tableName t.name = false := by
      rw [Bool.eq_false_iff, ne_eq, namesEqual_iff]
      exact hne
    unfold Session.transactionForRead Session.setTransaction
    exact congrArg (Option.map TableTransaction.tx) (Keyed.find?_modify_of_not he hskip hskip)
  unfold scanRowsForTable
  rw [hread]
  rfl

namespace System

variable {sys : System} {i : ℕ}

/-- **An event changes what a session sees of one table**, and of no
other. -/
structure ChangesRows (frontend : Frontend) (sys : System) (i : ℕ) (event : Event)
    (table : TableState) (rows rows' : List Row) : Prop where
  before : sys.visibleRows i table = .ok rows
  after : (sys.step frontend event).visibleRows i table = .ok rows'
  others : ∀ t ∈ sys.db.tables, t.key ≠ table.key →
    (sys.step frontend event).visibleRows i t = sys.visibleRows i t

/-- **The transaction a statement works on.** Opening it changes nothing
that is seen, and it shows the rows the session sees. -/
theorem Steady.opened (h : sys.Steady) (ha : (sys.sessions i).active = true) {name : Bytes}
    {slot : ℕ} {table : TableState} (ht : sys.db.getTableState name = some (slot, table)) :
    ∃ s index e base, (sys.sessions i).transactionFor slot table = (s, index, e.tx) ∧
      sys.StagesInPlace i s ∧ s.transactions[index]? = some e ∧ e.key = table.key ∧
      (∀ t, Shoveler.scanRowsForTable sys.db s t = sys.visibleRows i t) ∧
      (sys.db.baseStores (sys.sessions i).reading)[e.slot]? = some base ∧
      (e.tx.state = .active → e.tx.Working base.rows e.slot ∧
        ((e.tx.view base.rows).map Row.id).Nodup) ∧
      sys.visibleRows i table = e.tx.ensureActive.map fun _ => e.tx.view base.rows := by
  obtain ⟨s, index, e, heq, hs, -, he, hkey⟩ :=
    ((h.stagingRule i).guarded fun _ => True).transactionFor (h.stagesInPlace i) ha ht
  obtain ⟨s', index', e', heq', hopened, -⟩ :=
    Session.opened_transactionFor sys.db (sys.sessions i) slot table
  obtain rfl : s = s' := congrArg Prod.fst (heq.symm.trans heq')
  obtain ⟨-, hslot, -⟩ := Database.getTableState_eq_some ht
  have hmem := mem_of_getElem? he
  obtain ⟨base, hbase, hvalid, hscan⟩ := h.scan_eq hs hslot hmem hkey
  refine ⟨s, index, e, base, heq, hs, he, hkey, hopened.scan, hbase, fun hactive => ?_,
    (hopened.scan table).symm.trans hscan⟩
  obtain ⟨t, hin⟩ := hs.2 e hmem
  have hparted := hin.parted hactive base hbase
  have hord := hin.staged.toOrdered
  exact ⟨⟨hactive, rfl, hord, hparted.apart hvalid⟩, (Transaction.view_ids hvalid hord hparted).1⟩

/-- **What a statement shows** that has left its transaction in place. -/
theorem Steady.changesRows (h : sys.Steady) {frontend : Frontend} {event : Event} {slot index : ℕ}
    {table : TableState} {s : Session} {e : TableTransaction} {base : RowStore} {tx : Transaction}
    {rows : List Row} (hslot : sys.db.tables[slot]? = some table)
    (hseen : ∀ t, Shoveler.scanRowsForTable sys.db s t = sys.visibleRows i t)
    (he : s.transactions[index]? = some e) (hkey : e.key = table.key)
    (hbase : (sys.db.baseStores (sys.sessions i).reading)[e.slot]? = some base)
    (hbefore : sys.visibleRows i table = .ok rows) (hactive : tx.state = .active)
    (hsame : tx.slot = e.slot)
    (hplace : sys.StagesInPlace i (s.setTransaction index tx))
    (hstep : sys.step frontend event =
      { sys with sessions := Function.update sys.sessions i (s.setTransaction index tx) }) :
    sys.ChangesRows frontend i event table rows (tx.view base.rows) := by
  have hvisible : ∀ t, (sys.step frontend event).visibleRows i t =
      Shoveler.scanRowsForTable sys.db (s.setTransaction index tx) t := by
    intro t
    rw [hstep, visibleRows]
    simp only [Function.update_self]
  refine ⟨hbefore, ?_, fun t _ hne => ?_⟩
  · have hmem := mem_of_getElem? (Session.getElem?_setTransaction he tx)
    obtain ⟨base', hbase', -, hscan⟩ := h.scan_eq hplace hslot hmem hkey
    have hread : base' = base := by
      rw [TableTransaction.slot, hsame, hbase] at hbase'
      exact (Option.some.inj hbase').symm
    rw [hvisible, hscan, Transaction.ensureActive_eq_ok.2 hactive, hread]
    rfl
  · rw [hvisible, Session.scan_setTransaction_of_ne _ he tx (fun heq => hne (heq ▸ hkey)), hseen]

/-- **`UPDATE` and `DELETE`**, for a loop that turns the rows in view into
others and counts. -/
theorem Steady.stageRows_changes (h : sys.Steady) (ha : (sys.sessions i).active = true)
    (frontend : Frontend) (event : Event) (name : Bytes) {n : ℕ}
    (loop : Result RowStore → TableDef → List Row → Transaction → Transaction × Result ℕ)
    (turned : TableDef → List Row → List Row) (count : TableDef → List Row → ℕ)
    (hloop : ∀ {store table base slot tx rows n}, tx.Working base slot → tx.view base = rows →
      (rows.map Row.id).Nodup → (loop store table rows tx).2 = .ok n →
      (loop store table rows tx).1.Working base slot ∧
        (loop store table rows tx).1.view base = turned table rows ∧ n = count table rows)
    (hplace : sys.StagesInPlace i (stageRows sys.db (sys.sessions i) name loop).1)
    (hok : (stageRows sys.db (sys.sessions i) name loop).2 = .ok n)
    (hstep : sys.step frontend event = { sys with
      sessions := Function.update sys.sessions i (stageRows sys.db (sys.sessions i) name loop).1 }) :
    ∃ slot table rows store tx, sys.db.getTableState name = some (slot, table) ∧
      sys.ChangesRows frontend i event table rows (turned table.store.table rows) ∧
      n = count table.store.table rows ∧ (loop store table.store.table rows tx).2 = .ok n := by
  have hactive : ¬(!(sys.sessions i).active) = true := by simp [ha]
  unfold stageRows at hplace hok hstep
  rw [if_neg hactive] at hplace hok hstep
  cases ht : sys.db.getTableState name with
  | none =>
    rw [ht] at hok
    cases hok
  | some found =>
    obtain ⟨slot, table⟩ := found
    obtain ⟨-, hslot, -⟩ := Database.getTableState_eq_some ht
    obtain ⟨s, index, e, base, heq, hs, he, hkey, hseen, hbase, hready, hscan⟩ := h.opened ha ht
    simp only [ht, heq, hseen] at hplace hok hstep
    rw [hscan] at hplace hok hstep
    cases hensure : e.tx.ensureActive with
    | error err =>
      rw [hensure] at hok
      cases hok
    | ok =>
      rw [hensure] at hplace hok hstep hscan
      obtain ⟨hwork, hnodup⟩ := hready (Transaction.ensureActive_eq_ok.1 hensure)
      obtain ⟨hwork', hview, hcount⟩ := hloop hwork rfl hnodup hok
      refine ⟨slot, table, e.tx.view base.rows, _, _, rfl, ?_, hcount, hok⟩
      rw [← hview]
      exact h.changesRows hslot hseen he hkey hbase hscan hwork'.active hwork'.slot hplace hstep

/-- What a successful `INSERT` does to the rows of its session: the row
built from the statement comes last. -/
def Appends (frontend : Frontend) (sys : System) (i : ℕ) (statement : Ast.InsertStatement)
    (result : ExecutionResult) : Prop :=
  ∃ slot table rows row, sys.db.getTableState statement.tableName = some (slot, table) ∧
    rowValuesForInsert table.store.table statement row.id = .ok row.values ∧
    sys.ChangesRows frontend i (.statement i (.insert statement)) table rows (rows ++ [row]) ∧
    result = .mutationCount 1

/-- What a successful `UPDATE` does: the rows `WHERE` holds of are replaced
where they stand. -/
def Replaces (frontend : Frontend) (sys : System) (i : ℕ) (statement : Ast.UpdateStatement)
    (result : ExecutionResult) : Prop :=
  ∃ slot table rows, sys.db.getTableState statement.tableName = some (slot, table) ∧
    sys.ChangesRows frontend i (.statement i (.update statement)) table rows
      (rows.map (updatedRow table.store.table statement)) ∧
    (∀ row ∈ rows,
      (holdsFor table.store.table statement.whereClause row = true →
        AssignedRow table.store.table statement.assignments row
          (updatedRow table.store.table statement row)) ∧
      (holdsFor table.store.table statement.whereClause row = false →
        updatedRow table.store.table statement row = row)) ∧
    result = .mutationCount (rows.countP (holdsFor table.store.table statement.whereClause))

/-- What a successful `DELETE` does: the rows `WHERE` holds of are gone. -/
def Removes (frontend : Frontend) (sys : System) (i : ℕ) (statement : Ast.DeleteStatement)
    (result : ExecutionResult) : Prop :=
  ∃ slot table rows, sys.db.getTableState statement.tableName = some (slot, table) ∧
    sys.ChangesRows frontend i (.statement i (.delete statement)) table rows
      (rows.filter fun row => !holdsFor table.store.table statement.whereClause row) ∧
    result = .mutationCount (rows.countP (holdsFor table.store.table statement.whereClause))

/-- The rows in sight have ids of their own. -/
theorem Steady.visible_ids (h : sys.Steady) (ha : (sys.sessions i).active = true)
    {table : TableState} (ht : table ∈ sys.db.tables) {rows : List Row}
    (hrows : sys.visibleRows i table = .ok rows) : (rows.map Row.id).Nodup := by
  obtain ⟨k, hk⟩ := mem_iff_getElem?.1 ht
  obtain ⟨s, index, e, base, -, -, -, -, -, -, hready, hscan⟩ :=
    h.opened ha (getTableState_of_getElem? h.valid.stateKeys_nodup hk)
  rw [hscan] at hrows
  cases hensure : e.tx.ensureActive with
  | error err =>
    rw [hensure] at hrows
    cases hrows
  | ok =>
    rw [hensure] at hrows
    obtain rfl := Except.ok.inj hrows
    exact (hready (Transaction.ensureActive_eq_ok.1 hensure)).2

/-- A count that is passed on. -/
theorem map_mutationCount_eq_ok {outcome : Result ℕ} (h : outcome.map .mutationCount = .ok result) :
    ∃ n, outcome = .ok n ∧ result = .mutationCount n := by
  cases outcome with
  | error err => cases h
  | ok n => exact ⟨n, rfl, (Except.ok.inj h).symm⟩

theorem Steady.insert_appends (h : sys.Steady) (ha : (sys.sessions i).active = true)
    {statement : Ast.InsertStatement}
    (hok : (sys.perform frontend (.statement i (.insert statement))).2 = .ok result) :
    sys.Appends frontend i statement result := by
  have hplace : sys.StagesInPlace i (executeInsert sys.db (sys.sessions i) statement).1 :=
    (h.stagingRule i).executeDml frontend (h.stagesInPlace i) (.insert statement)
  have hmap : (executeInsert sys.db (sys.sessions i) statement).2.map .mutationCount = .ok result :=
    hok
  obtain ⟨n, hn, rfl⟩ := map_mutationCount_eq_ok hmap
  have hstep : sys.step frontend (.statement i (.insert statement)) = { sys with
    sessions := Function.update sys.sessions i
      (executeInsert sys.db (sys.sessions i) statement).1 } := rfl
  have hactive : ¬(!(sys.sessions i).active) = true := by simp [ha]
  unfold executeInsert at hplace hn hstep
  rw [if_neg hactive] at hplace hn hstep
  cases ht : sys.db.getTableState statement.tableName with
  | none =>
    rw [ht] at hn
    cases hn
  | some found =>
    obtain ⟨slot, table⟩ := found
    obtain ⟨-, hslot, -⟩ := Database.getTableState_eq_some ht
    obtain ⟨s, index, e, base, heq, hs, he, hkey, hseen, hbase, hready, hscan⟩ := h.opened ha ht
    simp only [ht, heq] at hplace hn hstep
    cases hvalues : rowValuesForInsert table.store.table statement e.tx.nextId with
    | error err =>
      rw [hvalues] at hn
      cases hn
    | ok values =>
      simp only [hvalues] at hplace hn hstep
      cases hins : e.tx.insert (storeAt sys.db.tables e.tx.slot) values with
      | error err =>
        rw [hins] at hn
        cases hn
      | ok staged =>
        obtain ⟨id, tx⟩ := staged
        simp only [hins] at hplace hn hstep
        obtain ⟨hactive, -, -, -, hid, -⟩ := Transaction.insert_eq_ok.1 hins
        obtain ⟨hsame, hstate⟩ := Transaction.insert_frame hins
        rw [Transaction.ensureActive_eq_ok.2 hactive] at hscan
        refine ⟨slot, table, e.tx.view base.rows, ⟨id, values⟩, ht, hid ▸ hvalues, ?_,
          congrArg _ (Except.ok.inj hn).symm⟩
        rw [← Transaction.view_insert base.rows hins]
        exact h.changesRows hslot hseen he hkey hbase hscan (hstate.trans hactive) hsame hplace hstep

theorem Steady.update_replaces (h : sys.Steady) (ha : (sys.sessions i).active = true)
    (hok : (sys.perform frontend (.statement i (.update statement))).2 = .ok result) :
    sys.Replaces frontend i statement result := by
  obtain ⟨n, hn, rfl⟩ := map_mutationCount_eq_ok hok
  obtain ⟨slot, table, rows, store, tx, ht, hchange, hcount, hloop⟩ :=
    h.stageRows_changes ha frontend (.statement i (.update statement)) statement.tableName
      (fun store table => stageUpdates store table statement)
      (fun table rows => rows.map (updatedRow table statement))
      (fun table rows => rows.countP (holdsFor table statement.whereClause))
      stageUpdates_view ((h.stagingRule i).executeDml frontend (h.stagesInPlace i) (.update statement))
      hn rfl
  refine ⟨slot, table, rows, ht, hchange, fun row hrow => ?_, congrArg _ hcount⟩
  rw [stageUpdates_eq_sweep] at hloop
  obtain ⟨tx', next, hstep⟩ := Sweep.exists_step hloop row hrow
  obtain ⟨new, hnew, -⟩ := updateStep_eq_ok hstep
  exact updatedRow_spec hnew

theorem Steady.delete_removes (h : sys.Steady) (ha : (sys.sessions i).active = true)
    {statement : Ast.DeleteStatement}
    (hok : (sys.perform frontend (.statement i (.delete statement))).2 = .ok result) :
    sys.Removes frontend i statement result := by
  obtain ⟨n, hn, rfl⟩ := map_mutationCount_eq_ok hok
  obtain ⟨slot, table, rows, store, tx, ht, hchange, hcount, -⟩ :=
    h.stageRows_changes ha frontend (.statement i (.delete statement)) statement.tableName
      (fun store table => stageDeletes store table statement.whereClause)
      (fun table rows => rows.filter fun row => !holdsFor table statement.whereClause row)
      (fun table rows => rows.countP (holdsFor table statement.whereClause))
      stageDeletes_view ((h.stagingRule i).executeDml frontend (h.stagesInPlace i) (.delete statement))
      hn rfl
  exact ⟨slot, table, rows, ht, hchange, congrArg _ hcount⟩

end System

/-- **To an active session a table is a plain list of rows**, in every state
that any interleaving of statements that create and drop no table leads to
from a system at rest: an `INSERT` appends the row built from it, an
`UPDATE` replaces rows where they stand, a `DELETE` takes rows out, each
answers with the number of rows concerned, and ids stay distinct. -/
theorem visible_rows_as_list (frontend : Frontend) {start : System}
    (hreach : start.Reachable frontend) (hrest : ∀ j, (start.sessions j).active = false)
    {events : List Event} (hddl : ∀ event ∈ events, ¬event.Reshapes) {i : ℕ}
    (ha : ((start.run frontend events).sessions i).active = true) :
    (∀ statement result,
      ((start.run frontend events).perform frontend (.statement i (.insert statement))).2 =
          .ok result →
        (start.run frontend events).Appends frontend i statement result) ∧
    (∀ statement result,
      ((start.run frontend events).perform frontend (.statement i (.update statement))).2 =
          .ok result →
        (start.run frontend events).Replaces frontend i statement result) ∧
    (∀ statement result,
      ((start.run frontend events).perform frontend (.statement i (.delete statement))).2 =
          .ok result →
        (start.run frontend events).Removes frontend i statement result) ∧
    ∀ table ∈ (start.run frontend events).db.tables, ∀ rows,
      (start.run frontend events).visibleRows i table = .ok rows → (rows.map Row.id).Nodup := by
  have h := System.steady_run frontend (hreach.coherent.steady hrest) hddl
  exact ⟨fun statement result => h.insert_appends ha, fun statement result => h.update_replaces ha,
    fun statement result => h.delete_removes ha, fun table ht rows => h.visible_ids ha ht⟩

/-- Session 1 reads two rows that session 2 has changed since, and has
inserted a third. -/
def staleRun : List Event :=
  [begin 0, insert 0 "A" [some 1], insert 0 "A" [some 12], commit 0,
    begin 1, begin 2, update 2 "A" "v" 20, commit 2,
    insert 1 "A" [some 3]]

/-- Two of the three rows are below ten. -/
theorem visible_rows_as_list_stale :
    ((Script.twoTables.run Script.frontend staleRun).perform Script.frontend
        (.statement 1 (.update raiseBelowTen))).2 = .ok (.mutationCount 2) ∧
      (Script.twoTables.run Script.frontend staleRun).Replaces Script.frontend 1 raiseBelowTen
        (.mutationCount 2) := by
  have hok : ((twoTables.run frontend staleRun).perform frontend
      (.statement 1 (.update raiseBelowTen))).2 = .ok (.mutationCount 2) := by
    decide +kernel
  have hlist := visible_rows_as_list frontend twoTables_reachable
    twoTables_atRest (by decide : ∀ event ∈ staleRun, ¬event.Reshapes)
    (by decide +kernel : ((twoTables.run frontend staleRun).sessions 1).active = true)
  exact ⟨hok, hlist.2.1 raiseBelowTen _ hok⟩

end Shoveler
