import Shoveler.Storage.Publish
import Shoveler.Storage.Rebuild

/-!
# How the storage layer fails

The errors each part can come back with, one list for each, so that a
caller that never sees some error is a matter of looking into the lists.
Building a definition fails for what its columns and indexes say
(`definitionErrors`), checking a row for its values (`rowErrors`), and
publishing into a store in good order for its rows, for a row that is gone
or for the end of the id space (`publishErrors`): never because a row id
is taken, since a taken id is exchanged for the next one beforehand.
-/

namespace Shoveler

open Outcome

open Outcome (FailsWith)

/-! ## Definitions -/

/-- What a table definition is refused with. -/
def definitionErrors : List Error :=
  [.typeMismatch, .vectorDimensionMismatch, .invalidVectorDimension, .duplicateColumn,
    .duplicateObject, .unknownObject]

/-- A value is refused for its type or its dimension. -/
theorem ColumnType.acceptsValue_failsWith (t : ColumnType) (v : Value) :
    FailsWith (fun e => e = .typeMismatch ∨ e = .vectorDimensionMismatch) (t.acceptsValue v) := by
  unfold ColumnType.acceptsValue
  split
  case h_6 => exact .guard (Or.inr rfl) fun _ => .ok ()
  case h_7 => exact .error (Or.inl rfl)
  all_goals exact .ok ()

/-- A vector for its dimension. -/
theorem Value.initVector_failsWith {Q : Error → Prop} (hpos : Q .invalidVectorDimension)
    (hlen : Q .vectorDimensionMismatch) (elementType : VectorElementType) (dimension : ℕ)
    (values : List UInt32) : FailsWith Q (Value.initVector elementType dimension values) := by
  refine .bind ?_ fun _ _ => .ok _
  unfold Vector.init
  split
  · exact .error hpos
  · split
    · exact .error hlen
    · exact .ok _

theorem ColumnType.validate_failsWith (t : ColumnType) :
    FailsWith (· ∈ definitionErrors) t.validate := by
  unfold ColumnType.validate VectorType.validate
  split
  · split
    · exact .error (by decide)
    · exact .ok ()
  · exact .ok ()

theorem ColumnDef.init_failsWith (spec : ColumnSpec) :
    FailsWith (· ∈ definitionErrors) (ColumnDef.init spec) := by
  refine spec.columnType.validate_failsWith.bind fun _ _ => .bind ?_ fun _ _ => .ok _
  unfold checkDefault
  split
  · exact .ok ()
  · split
    · exact .ok ()
    · exact .error (by decide)
  · refine (spec.columnType.acceptsValue_failsWith _).mono fun e he => ?_
    rcases he with rfl | rfl <;> decide

theorem validateColumns_failsWith (previous columns : List ColumnSpec) :
    FailsWith (· ∈ definitionErrors) (validateColumns previous columns) := by
  induction columns generalizing previous with
  | nil => exact .ok ()
  | cons column rest ih =>
    refine column.columnType.validate_failsWith.bind fun _ _ => ?_
    exact .guard (by decide) fun _ => .guard (by decide) fun _ => ih _

theorem validateIndexes_failsWith (columns : List ColumnSpec) (previous indexes : List IndexSpec)
    (primaryCount : ℕ) :
    FailsWith (· ∈ definitionErrors) (validateIndexes columns previous primaryCount indexes) := by
  induction indexes generalizing previous primaryCount with
  | nil => exact .ok ()
  | cons index rest ih =>
    exact .guard (by decide) fun _ => .guard (by decide) fun _ => .guard (by decide) fun _ => ih _ _

theorem markPrimaryColumns_failsWith (specs : List ColumnSpec) (names : List Bytes)
    (columns : List ColumnDef) :
    FailsWith (· ∈ definitionErrors) (markPrimaryColumns specs names columns) := by
  induction names generalizing columns with
  | nil => exact .ok columns
  | cons name rest ih =>
    unfold markPrimaryColumns
    split
    · exact .error (by decide)
    · exact ih _

theorem buildIndexes_failsWith (specs : List ColumnSpec) (indexes : List IndexSpec)
    (columns : List ColumnDef) :
    FailsWith (· ∈ definitionErrors) (buildIndexes specs indexes columns) := by
  induction indexes generalizing columns with
  | nil => exact .ok _
  | cons spec rest ih =>
    refine .bind ?_ fun _ _ => (markPrimaryColumns_failsWith specs _ columns).bind fun columns' _ =>
      (ih columns').bind fun _ _ => .ok _
    unfold IndexDef.init
    split
    · exact .error (by decide)
    · exact .ok _

/-- **What `TableDef.init` fails with.** -/
theorem TableDef.init_failsWith (spec : TableSpec) :
    FailsWith (· ∈ definitionErrors) (TableDef.init spec) := by
  have hbuild : FailsWith (· ∈ definitionErrors) (TableDef.build spec) := by
    refine (validateColumns_failsWith [] _).bind fun _ _ =>
      (validateIndexes_failsWith _ [] _ 0).bind fun _ _ => .bind ?_ fun columns _ =>
        buildIndexes_failsWith _ _ columns
    exact .mapM fun column _ => ColumnDef.init_failsWith column
  unfold TableDef.init
  split
  · rename_i e he
    exact .error (hbuild e he)
  · exact .ok _

/-- Capturing a store in good order fails for its definition only. -/
theorem RetainedTable.init_failsWith {source : TableSource} (hvalid : source.store.Valid)
    (htable : source.store.table = source.table) :
    FailsWith (· ∈ definitionErrors) (RetainedTable.init source) := by
  refine (TableDef.init_failsWith _).bind fun table hclone => ?_
  obtain ⟨-, rfl⟩ := TableDef.cloneTableDef_eq_ok.1 hclone
  rw [← htable, hvalid.copyRowsIntoStore]
  exact .ok _

/-! ## Rows -/

/-- What the values of a row are refused with. -/
def rowErrors : List Error := [.columnCountMismatch, .typeMismatch, .vectorDimensionMismatch]

theorem validateValues_failsWith (table : TableDef) (values : List Value) :
    FailsWith (· ∈ rowErrors) (validateValues table values) := by
  have hvalue : ∀ (column : ColumnDef) (value : Value),
      FailsWith (· ∈ rowErrors) (column.validateValue value) := by
    intro column value
    unfold ColumnDef.validateValue
    split
    · split
      · exact .ok ()
      · exact .error (by decide)
    · refine (column.columnType.acceptsValue_failsWith _).mono fun e he => ?_
      rcases he with rfl | rfl <;> decide
  have heach : ∀ (columns : List ColumnDef) (values : List Value),
      FailsWith (· ∈ rowErrors) (validateEach columns values) := by
    intro columns
    induction columns with
    | nil =>
      intro values
      exact .ok ()
    | cons column columns ih =>
      intro values
      cases values with
      | nil => exact .ok ()
      | cons value values => exact (hvalue column value).bind fun _ _ => ih values
  exact .guard (by decide) fun _ => heach _ _

theorem Row.init_failsWith (table : TableDef) (id : RowId) (values : List Value) :
    FailsWith (· ∈ rowErrors) (Row.init table id values) :=
  (validateValues_failsWith table values).bind fun _ _ => .ok _

/-! ## Publishing -/

/-- What publishing into a store in good order fails with. -/
def publishErrors : List Error := .unknownRow :: .panic .integerOverflow :: rowErrors

theorem mem_publishErrors_of_row {e : Error} (h : e ∈ rowErrors) : e ∈ publishErrors :=
  List.mem_cons_of_mem _ (List.mem_cons_of_mem _ h)

namespace Transaction

variable {s : RowStore}

/-- A row goes in under a free id. -/
theorem insertWithId_failsWith {id : RowId} (hid : id ∉ s.ids) (values : List Value) :
    FailsWith (· ∈ publishErrors) (s.insertWithId id values) := by
  rw [RowStore.insertWithId, if_neg fun hf => hid (RowStore.findRowIndex_isSome.1 hf)]
  refine ((Row.init_failsWith _ _ _).mono fun _ => mem_publishErrors_of_row).bind fun _ _ =>
    .bind ?_ fun _ _ => .ok _
  unfold RowStore.nextIdAfter nextAfter
  split
  · split
    · exact .ok _
    · exact .error (by decide)
  · exact .ok _

theorem update_failsWith (id : RowId) (values : List Value) :
    FailsWith (· ∈ publishErrors) (s.update id values) := by
  unfold RowStore.update
  split
  · exact .error (by decide)
  · exact ((Row.init_failsWith _ _ _).mono fun _ => mem_publishErrors_of_row).bind fun _ _ => .ok _

theorem delete_failsWith (id : RowId) : FailsWith (· ∈ publishErrors) (s.delete id) := by
  unfold RowStore.delete
  split
  · exact .error (by decide)
  · exact .ok _

/-- **What publishing fails with**, whatever is staged. -/
theorem publish_failsWith (tx : Transaction) (hs : s.Valid) :
    FailsWith (· ∈ publishErrors) (tx.publish s) := by
  rw [Transaction.publish, hs.clone, ok_bind]
  refine .bind ?_ fun s₁ h₁ => .bind ?_ fun s₂ h₂ => ?_
  · exact .foldlM (P := fun _ => True) (fun _ _ _ _ _ _ => trivial)
      (fun _ _ _ _ => delete_failsWith _) trivial
  · exact .foldlM (P := fun _ => True) (fun _ _ _ _ _ _ => trivial)
      (fun _ _ _ _ => update_failsWith _ _) trivial
  · -- the inserts go into a store in good order, where no id is handed out twice
    have hv₁ : s₁.Valid :=
      foldlM_invariant (fun _ _ _ _ hb hc => RowStore.Valid.delete hb hc) hs h₁
    have hv₂ : s₂.Valid :=
      foldlM_invariant (fun _ _ _ _ hb hc => RowStore.Valid.update hb hc) hv₁ h₂
    exact .foldlM (fun _ _ _ _ hb hc => RowStore.Valid.insertWithId hb hc)
      (fun _ r _ hb => insertWithId_failsWith (commitId_not_mem hb r) _) hv₂

end Transaction

end Shoveler
