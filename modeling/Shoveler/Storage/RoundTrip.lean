import Shoveler.Model.Persistence
import Shoveler.Storage.Rebuild

/-!
# Snapshots read back

What `encodeSnapshot` writes, `decodeSnapshot` reads back, field by field
from the bottom of the format to its top. Decoding builds everything
again through the catalog and the row store, so a snapshot comes back
only where these accept it (`DatabaseSnapshot.Sound`), and then it comes
back as it was.
-/

namespace Shoveler

open List

namespace Persistence

/-! ## Numbers -/

theorem u32OfBytes_bytesOfU32 (v : UInt32) : u32OfBytes (bytesOfU32 v) = some v := by
  have hlow : v.toNat &&& 255 = v.toNat % 2 ^ 8 := Nat.and_two_pow_sub_one_eq_mod _ 8
  rw [bytesOfU32, u32OfBytes, Option.some.injEq, ← UInt32.toNat_inj]
  simp only [UInt32.toNat_or, UInt32.toNat_shiftLeft, UInt8.toNat_toUInt32,
    UInt32.toNat_toUInt8, UInt32.toNat_and, UInt32.toNat_shiftRight, UInt32.reduceToNat,
    Nat.reduceMod, hlow, Nat.mod_mod]
  -- byte by byte the number grows to its full width
  rw [mod_or_byte (by decide), mod_or_byte (by decide), mod_or_byte (by decide)]
  exact Nat.mod_eq_of_lt v.toNat_lt

theorem u64OfBytes_bytesOfU64 (v : UInt64) : u64OfBytes (bytesOfU64 v) = some v := by
  have hlow : v.toNat &&& 255 = v.toNat % 2 ^ 8 := Nat.and_two_pow_sub_one_eq_mod _ 8
  rw [bytesOfU64, u64OfBytes, Option.some.injEq, ← UInt64.toNat_inj]
  simp only [UInt64.toNat_or, UInt64.toNat_shiftLeft, UInt8.toNat_toUInt64,
    UInt64.toNat_toUInt8, UInt64.toNat_and, UInt64.toNat_shiftRight, UInt64.reduceToNat,
    Nat.reduceMod, hlow, Nat.mod_mod]
  rw [mod_or_byte (by decide), mod_or_byte (by decide), mod_or_byte (by decide),
    mod_or_byte (by decide), mod_or_byte (by decide), mod_or_byte (by decide),
    mod_or_byte (by decide)]
  exact Nat.mod_eq_of_lt v.toNat_lt

theorem reads_bytes {data : Bytes} {n : ℕ} (h : data.length = n) :
    Reads (readBytes n) data data := .take h

theorem reads_u8 (v : UInt8) : Reads readU8 [v] v := (reads_bytes rfl).finish (.pure v)

theorem reads_u32 (v : UInt32) : Reads readU32 (bytesOfU32 v) v := by
  refine (reads_bytes rfl).finish ?_
  rw [u32OfBytes_bytesOfU32]
  exact .pure v

theorem reads_u64 (v : UInt64) : Reads readU64 (bytesOfU64 v) v := by
  refine (reads_bytes rfl).finish ?_
  rw [u64OfBytes_bytesOfU64]
  exact .pure v

theorem roundTrips_u8 (v : UInt8) : RoundTrips (fun out => appendU8 out v) readU8 v :=
  .of_reads (reads_u8 v)

theorem roundTrips_u32 (v : UInt32) : RoundTrips (fun out => appendU32 out v) readU32 v :=
  .of_reads (reads_u32 v)

theorem roundTrips_u64 (v : UInt64) : RoundTrips (fun out => appendU64 out v) readU64 v :=
  .of_reads (reads_u64 v)

/-- A count comes back where it fits into 32 bits, which `appendCount`
checks. -/
theorem roundTrips_count (n : ℕ) : RoundTrips (fun out => appendCount out n) readCount n := by
  refine .guarded fun hfits => (roundTrips_u32 (UInt32.ofNat n)).finish ?_
  have hn : (UInt32.ofNat n).toNat = n := UInt32.toNat_ofNat_of_lt' (by
    have : UInt32.size = 4294967296 := rfl
    omega)
  have hpure : Reads (pure (UInt32.ofNat n).toNat : Decoder ℕ) [] n := by
    rw [hn]
    exact .pure n
  exact hpure

theorem roundTrips_bool (v : Bool) : RoundTrips (fun out => appendBool out v) readBool v := by
  cases v with
  | false => exact (roundTrips_u8 0).finish (.pure false)
  | true => exact (roundTrips_u8 1).finish (.pure true)

theorem roundTrips_slice (data : Bytes) :
    RoundTrips (fun out => appendSlice out data) (readBytes data.length) data :=
  .of_reads (reads_bytes rfl)

theorem roundTrips_bytes (data : Bytes) :
    RoundTrips (fun out => appendBytes out data) readLengthPrefixedBytes data :=
  (roundTrips_count data.length).bind (roundTrips_slice data)

/-! ## Values and types -/

theorem roundTrips_elementType (t : VectorElementType) :
    RoundTrips (fun out => appendVectorElementType out t) decodeVectorElementType t := by
  cases t with
  | float32 => exact (roundTrips_u8 1).finish (.pure _)

theorem roundTrips_columnType (t : ColumnType) :
    RoundTrips (fun out => appendColumnType out t) decodeColumnType t := by
  cases t with
  | integer => exact (roundTrips_u8 1).finish (.pure _)
  | float => exact (roundTrips_u8 2).finish (.pure _)
  | boolean => exact (roundTrips_u8 3).finish (.pure _)
  | text => exact (roundTrips_u8 4).finish (.pure _)
  | blob => exact (roundTrips_u8 5).finish (.pure _)
  | vector t =>
    exact (roundTrips_u8 6).bind ((roundTrips_elementType t.elementType).bind
      ((roundTrips_count t.dimension).finish (.pure _)))

/-- **Values come back**, floats as the bits they are. -/
theorem roundTrips_value (v : Value) : RoundTrips (fun out => appendValue out v) decodeValue v := by
  cases v with
  | null => exact (roundTrips_u8 0).finish (.pure _)
  | integer n =>
    refine (roundTrips_u8 1).bind ((roundTrips_u64 n.toUInt64).finish ?_)
    have hn : n.toUInt64.toInt64 = n := Int64.toInt64_toUInt64 n
    exact hn ▸ .pure (Value.integer n.toUInt64.toInt64)
  | float bits => exact (roundTrips_u8 2).bind ((roundTrips_u64 bits).finish (.pure _))
  | boolean b => exact (roundTrips_u8 3).bind ((roundTrips_bool b).finish (.pure _))
  | text bytes => exact (roundTrips_u8 4).bind ((roundTrips_bytes bytes).finish (.pure _))
  | blob bytes => exact (roundTrips_u8 5).bind ((roundTrips_bytes bytes).finish (.pure _))
  | vector v =>
    -- the dimension that is written is the number of elements
    have helements : RoundTrips (fun out => v.values.foldlM appendU32 out)
        (Reader.times v.dimension readU32) v.values := by
      have htimes := RoundTrips.times (g := id) fun element (_ : element ∈ v.values) =>
        roundTrips_u32 element
      rwa [map_id, v.sized] at htimes
    have hinit : Value.initVector v.elementType v.dimension v.values = .ok (.vector v) := by
      rw [Value.initVector, Vector.init_self]
      rfl
    exact (roundTrips_u8 6).bind ((roundTrips_elementType v.elementType).bind
      ((roundTrips_count v.dimension).bind (helements.finish (.lift hinit))))

/-! ## Rows -/

theorem roundTrips_values (values : List Value) :
    RoundTrips (fun out => values.foldlM appendValue out)
      (Reader.times values.length decodeValue) values := by
  have htimes := RoundTrips.times (g := id) fun v (_ : v ∈ values) => roundTrips_value v
  rwa [map_id] at htimes

/-- A row comes back into a store that has room for it. -/
theorem roundTrips_row {store store' : RowStore} {row : Row}
    (h : store.insertWithId row.id row.values = .ok store') :
    RoundTrips (fun out => appendRow out row) (decodeRow store) store' :=
  (roundTrips_u64 row.id).bind ((roundTrips_count row.values.length).bind
    ((roundTrips_values row.values).finish (.lift h)))

/-- The rows of a store come back in their order and under their ids. -/
theorem roundTrips_rows {store : RowStore} (h : store.Valid) :
    RoundTrips (fun out => store.rows.foldlM appendRow out)
      (Reader.loop store.rows.length decodeRow
        { RowStore.init store.table with nextId := store.nextId }) store := by
  refine RoundTrips.loop (fun before => { store with rows := before })
    fun before row after hsplit => roundTrips_row (RowStore.insertWithId_eq_ok.2 ?_)
  have hmem : row ∈ store.rows := by
    rw [hsplit]
    exact mem_append_right _ mem_cons_self
  have hnew : row.id ∉ before.map Row.id := by
    have hdistinct := h.distinct
    rw [hsplit, map_append, map_cons, nodup_middle, nodup_cons] at hdistinct
    exact fun hbefore => hdistinct.1 (mem_append_left _ hbefore)
  refine ⟨hnew, h.conform row hmem, store.nextId, ?_, rfl⟩
  have hbelow : ¬row.id ≥ store.nextId := UInt64.not_le.2 (h.below row hmem)
  rw [RowStore.nextIdAfter, if_neg hbelow]

/-! ## Definitions -/

theorem roundTrips_default (v : Option Value) :
    RoundTrips (fun out => appendDefault out v) decodeDefault v := by
  cases v with
  | none => exact (roundTrips_bool false).finish (.pure none)
  | some v => exact (roundTrips_bool true).bind ((roundTrips_value v).finish (.pure _))

/-- A column comes back as the specification it is rebuilt from. -/
theorem roundTrips_column (c : ColumnDef) :
    RoundTrips (fun out => appendColumn out c) decodeColumnSpec c.toSpec :=
  (roundTrips_bytes c.name).bind ((roundTrips_columnType c.columnType).bind
    ((roundTrips_bool c.nullable).bind ((roundTrips_default c.defaultValue).bind
      ((roundTrips_bool c.primaryKey).bind ((roundTrips_bool c.autoIncrement).finish (.pure _))))))

/-- So does an index. -/
theorem roundTrips_index (i : IndexDef) :
    RoundTrips (fun out => appendIndex out i) decodeIndexSpec i.toSpec := by
  have hcolumns : RoundTrips (fun out => i.columns.foldlM appendBytes out)
      (Reader.times i.columns.length readLengthPrefixedBytes) i.columns := by
    have htimes := RoundTrips.times (g := id) fun name (_ : name ∈ i.columns) =>
      roundTrips_bytes name
    rwa [map_id] at htimes
  have hkind : (if decide (i.kind = .primary) then IndexKind.primary else .secondary) = i.kind := by
    cases i.kind <;> rfl
  have hspec : Reads (pure
      { name := some i.name, columns := i.columns
        kind := if decide (i.kind = .primary) then .primary else .secondary } : Decoder IndexSpec)
      [] i.toSpec := by
    rw [hkind]
    exact .pure _
  exact (roundTrips_bool _).bind ((roundTrips_bytes i.name).bind
    ((roundTrips_count i.columns.length).bind (hcolumns.finish hspec)))

/-! ## Tables -/

/-- A snapshot of tables alone. -/
def ofStores (stores : List RowStore) : DatabaseSnapshot where
  catalog := { tables := stores.map RowStore.table }
  stores := stores

/-- Stores that stand at the places of their tables point at them. -/
theorem refreshStoreTablePointers_eq {s : DatabaseSnapshot} {more : List TableDef}
    (h : s.catalog.tables = s.stores.map RowStore.table ++ more) :
    s.refreshStoreTablePointers = s := by
  have hstores : s.refreshStoreTablePointers.stores = s.stores := by
    refine ext_getElem? fun k => ?_
    rw [DatabaseSnapshot.refreshStoreTablePointers, getElem?_mapIdx]
    cases hk : s.stores[k]? with
    | none => rfl
    | some store =>
      have hlt : k < (s.stores.map RowStore.table).length := by
        rw [length_map]
        exact (List.getElem?_eq_some_iff.1 hk).1
      rw [h, getElem?_append_left hlt, getElem?_map, hk]
      rfl
  exact congrArg (DatabaseSnapshot.mk s.catalog) hstores

/-- The rest of a table, once its definition is there. -/
theorem roundTrips_store {store : RowStore} (h : store.Valid) (catalog : DatabaseCatalog)
    (stores : List RowStore) :
    RoundTrips
      (fun out => do
        let bytes ← appendU64 out store.nextId
        let bytes ← appendCount bytes store.rows.length
        store.rows.foldlM appendRow bytes)
      (do
        let nextId ← readU64
        let rowCount ← readCount
        let read ← Reader.loop rowCount decodeRow
          { RowStore.init store.table with nextId := nextId }
        return { catalog := catalog, stores := stores ++ [read] })
      { catalog := catalog, stores := stores ++ [store] : DatabaseSnapshot } :=
  (roundTrips_u64 store.nextId).bind ((roundTrips_count store.rows.length).bind
    ((roundTrips_rows h).finish (.pure _)))

/-- **A table comes back** behind those that are there, where its
definition passes and its name is free. -/
theorem roundTrips_table {before : List RowStore} {store : RowStore} (hvalid : store.Valid)
    (hrebuild : store.table.Rebuildable)
    (hnew : store.table.key ∉ (ofStores before).catalog.keys) :
    RoundTrips (fun out => appendTable out (store.table, store)) (decodeTable (ofStores before))
      (ofStores (before ++ [store])) := by
  have hcolumns := RoundTrips.times fun c (_ : c ∈ store.table.columns) => roundTrips_column c
  have hindexes := RoundTrips.times fun i (_ : i ∈ store.table.indexes) => roundTrips_index i
  have hinit : TableDef.init store.table.toSpec = .ok store.table :=
    TableDef.cloneTableDef_eq_ok.2 ⟨hrebuild, rfl⟩
  have hcreate := DatabaseCatalog.createTable_eq_ok.2
    ⟨(by exact hnew : foldCase store.table.toSpec.name ∉ _), store.table, hinit, rfl⟩
  refine (roundTrips_bytes store.table.name).bind
    ((roundTrips_count store.table.columns.length).bind (hcolumns.bind
      ((roundTrips_count store.table.indexes.length).bind (hindexes.bind
        (.start (.lift hcreate) ?_)))))
  have hrefresh := @refreshStoreTablePointers_eq
    { catalog := { (ofStores before).catalog with
        tables := (ofStores before).catalog.tables ++ [store.table] }
      stores := (ofStores before).stores } [store.table] rfl
  have hend : ofStores (before ++ [store]) =
      { catalog := { (ofStores before).catalog with
          tables := (ofStores before).catalog.tables ++ [store.table] }
        stores := (ofStores before).stores ++ [store] } := by
    rw [ofStores, map_append]
    rfl
  simp only [hrefresh, DatabaseCatalog.getTable_new hnew, hend]
  exact roundTrips_store hvalid _ _

end Persistence

/-- **A snapshot in good order**: each store stands at the place of its
table and is in good order, and no name is used twice. -/
structure DatabaseSnapshot.WellFormed (s : DatabaseSnapshot) : Prop where
  aligned : s.stores.map RowStore.table = s.catalog.tables
  valid : ∀ store ∈ s.stores, store.Valid
  distinct : s.catalog.keys.Nodup

/-- **A snapshot that decoding can rebuild**: it is in good order, and every
definition passes the checks of `TableDef.init` on its explicit
specification. -/
structure DatabaseSnapshot.Sound (s : DatabaseSnapshot) : Prop extends s.WellFormed where
  rebuilds : ∀ table ∈ s.catalog.tables, ∃ t, TableDef.init table.toSpec = .ok t

namespace Persistence

variable {s : DatabaseSnapshot}

/-- The tables come back. -/
theorem roundTrips_tables (h : s.Sound) :
    RoundTrips (fun out => (s.catalog.tables.zip s.stores).foldlM appendTable out)
      (Reader.loop s.stores.length decodeTable {}) (ofStores s.stores) := by
  have hpairs : (fun store : RowStore => (store.table, store)) = fun store => (store.table, id store) :=
    rfl
  have hzip : s.catalog.tables.zip s.stores = s.stores.map fun store => (store.table, store) := by
    rw [← h.aligned, hpairs, ← zip_map', map_id]
  simp only [hzip, foldlM_map]
  refine RoundTrips.loop ofStores fun before store after hsplit => ?_
  have hmem : store ∈ s.stores := by
    rw [hsplit]
    exact mem_append_right _ mem_cons_self
  have htable : store.table ∈ s.catalog.tables := by
    rw [← h.aligned]
    exact mem_map_of_mem hmem
  obtain ⟨t, ht⟩ := h.rebuilds _ htable
  refine roundTrips_table (h.valid store hmem) (TableDef.cloneTableDef_eq_ok.1 ht).1 ?_
  -- the tables before it have other names
  have hdistinct := h.distinct
  rw [DatabaseCatalog.keys, ← h.aligned, hsplit, map_append, map_append, map_cons,
    map_cons, append_assoc, append_assoc, cons_append, nodup_middle,
    nodup_cons] at hdistinct
  intro hbefore
  simp only [ofStores, DatabaseCatalog.keys, map_nil, append_nil] at hbefore
  exact hdistinct.1 (mem_append_left _ hbefore)

/-! ## The payload -/

/-- Names and bodies come back where the catalog takes them one after the
other. -/
theorem roundTrips_named {α : Type} {name body : α → Bytes} {l : List α} {stores : List RowStore}
    {register : DatabaseCatalog → Bytes → Bytes → Result DatabaseCatalog}
    (state : List α → DatabaseCatalog)
    (h : ∀ before a after, l = before ++ a :: after →
      register (state before) (name a) (body a) = .ok (state (before ++ [a]))) :
    RoundTrips (fun out => l.foldlM (fun out a => appendNamed out (name a) (body a)) out)
      (Reader.loop l.length (decodeNamed register) ⟨state [], stores⟩) ⟨state l, stores⟩ := by
  refine RoundTrips.loop (fun before => (⟨state before, stores⟩ : DatabaseSnapshot))
    fun before a after hsplit => ?_
  exact (roundTrips_bytes (name a)).bind ((roundTrips_bytes (body a)).finish
    (Reads.finish (.lift (h before a after hsplit)) (.pure _)))

theorem roundTrips_views (h : s.Sound) :
    RoundTrips
      (fun out => s.catalog.views.foldlM
        (fun payload view => appendNamed payload view.name view.body) out)
      (Reader.loop s.catalog.views.length decodeView
        ⟨{ s.catalog with views := [], procedures := [] }, s.stores⟩)
      ⟨{ s.catalog with procedures := [] }, s.stores⟩ := by
  refine roundTrips_named (fun before => { s.catalog with views := before, procedures := [] })
    fun before view after hsplit => DatabaseCatalog.registerView_eq_ok.2 ⟨?_, rfl⟩
  exact DatabaseCatalog.fresh_view h.distinct hsplit

theorem roundTrips_procedures (h : s.Sound) :
    RoundTrips
      (fun out => s.catalog.procedures.foldlM
        (fun payload procedure => appendNamed payload procedure.name procedure.body) out)
      (Reader.loop s.catalog.procedures.length decodeProcedure
        ⟨{ s.catalog with procedures := [] }, s.stores⟩) s := by
  refine roundTrips_named (fun before => { s.catalog with procedures := before })
    fun before procedure after hsplit => DatabaseCatalog.registerProcedure_eq_ok.2 ⟨?_, rfl⟩
  exact DatabaseCatalog.fresh_procedure h.distinct hsplit

/-- **The payload comes back.** -/
theorem reads_payload (h : s.Sound) {payload : Bytes} (hencode : encodePayload s = .ok payload) :
    Reads decodePayload payload s := by
  have hlength : s.catalog.tables.length = s.stores.length := by
    rw [← h.aligned, length_map]
  have htables : RoundTrips (fun out => (s.catalog.tables.zip s.stores).foldlM appendTable out)
      (Reader.loop s.catalog.tables.length decodeTable {})
      ⟨{ s.catalog with views := [], procedures := [] }, s.stores⟩ := by
    have htables := roundTrips_tables h
    rw [ofStores, h.aligned, ← hlength] at htables
    exact htables
  have hrefresh : DatabaseSnapshot.refreshStoreTablePointers
      ⟨{ s.catalog with views := [], procedures := [] }, s.stores⟩ =
      ⟨{ s.catalog with views := [], procedures := [] }, s.stores⟩ :=
    @refreshStoreTablePointers_eq ⟨{ s.catalog with views := [], procedures := [] }, s.stores⟩ []
      (by rw [append_nil, h.aligned])
  rw [encodePayload, if_neg (not_not.2 hlength)] at hencode
  obtain ⟨written, rfl, hreads⟩ : ∃ written, payload = [] ++ written ∧
      Reads decodePayload written s := by
    refine ((roundTrips_count _).bind (htables.bind ?_)) [] payload hencode
    simp only [hrefresh]
    exact (roundTrips_count _).bind ((roundTrips_views h).bind
      ((roundTrips_count _).bind (roundTrips_procedures h)))
  exact hreads

end Persistence

end Shoveler
