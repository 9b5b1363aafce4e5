import Shoveler.Model.Snapshot

/-!
# Definitions and stores rebuilt

`cloneTableDef` builds a definition again from its own columns and
indexes, through the checks of `TableDef.init`. Two of these checks can
refuse what passed them before: index names that were left to the kind or
the first column are explicit now, and a null default is held against a
column the primary index has made not null. A definition that passes
(`TableDef.Rebuildable`) comes out as it went in.

A store copied row by row comes out as it went in, so a retained
generation holds the tables as they were (`RetainedTable.init_eq_ok`).
-/

namespace Shoveler

open Outcome List

namespace TableDef

/-- **A definition that passes its own checks again.** -/
structure Rebuildable (t : TableDef) : Prop where
  indexNames : (t.indexes.map fun i => foldCase i.name).Nodup
  nullDefaults : ∀ c ∈ t.columns, c.defaultValue = some .null → c.nullable = true

instance (t : TableDef) : Decidable t.Rebuildable :=
  decidable_of_iff ((t.indexes.map fun i => foldCase i.name).Nodup ∧
      ∀ c ∈ t.columns, c.defaultValue = some .null → c.nullable = true)
    ⟨fun h => ⟨h.1, h.2⟩, fun h => ⟨h.1, h.2⟩⟩

variable {t : TableDef}

theorem map_key_toSpec : t.toSpec.columns.map ColumnSpec.key = t.columns.map ColumnDef.key := by
  rw [toSpec, map_map]
  rfl

theorem explicitNames_toSpec :
    explicitNames t.toSpec.indexes = t.indexes.map fun i => foldCase i.name := by
  rw [explicitNames, toSpec, filterMap_map, ← filterMap_eq_map]
  rfl

/-- The column checks pass again. -/
theorem validateColumns_toSpec (t : TableDef) : validateColumns [] t.toSpec.columns = .ok () := by
  refine validateColumns_eq_ok.2 ⟨fun s hs => ?_, fun s _ => not_mem_nil, ?_⟩
  · obtain ⟨c, hc, rfl⟩ := mem_map.1 hs
    exact ⟨(t.wellFormed.sound c hc).typed, (t.wellFormed.sound c hc).auto⟩
  · rw [map_key_toSpec]
    exact t.wellFormed.names

/-- The index checks pass again exactly when the names, all explicit now,
are distinct. -/
theorem validateIndexes_toSpec :
    validateIndexes t.toSpec.columns [] 0 t.toSpec.indexes = .ok () ↔
      (t.indexes.map fun i => foldCase i.name).Nodup := by
  rw [validateIndexes_eq_ok (Nat.zero_le 1), explicitNames_toSpec, map_key_toSpec]
  have hcount : t.toSpec.indexes.countP (fun i => i.kind = .primary) =
      t.indexes.countP (fun i => i.kind = .primary) := by
    rw [toSpec, countP_map]
    rfl
  constructor
  · exact fun h => h.2.2.1
  · refine fun h => ⟨?_, fun n _ => not_mem_nil, h, fun i hi => ?_⟩
    · rw [hcount]
      have := t.wellFormed.onePrimary
      omega
    · obtain ⟨d, hd, rfl⟩ := mem_map.1 hi
      exact (t.wellFormed.covered d hd).2

/-- A column comes out of `ColumnDef.init` as it went in, where its null
default is allowed. -/
theorem init_toSpec {c c' : ColumnDef} (hc : c.Sound) :
    ColumnDef.init c.toSpec = .ok c' ↔
      (c.defaultValue = some .null → c.nullable = true) ∧ c' = c := by
  have hnull : effectiveNullable c.toSpec = c.nullable := by
    unfold effectiveNullable ColumnDef.toSpec
    cases hn : c.nullable with
    | false => rfl
    | true => simp [hc.nullable hn]
  rw [ColumnDef.init_eq_ok, checkDefault_eq_ok, hnull]
  constructor
  · rintro ⟨-, ⟨hd, -⟩, rfl⟩
    exact ⟨hd, rfl⟩
  · rintro ⟨hd, rfl⟩
    exact ⟨hc.typed, ⟨hd, hc.default⟩, rfl⟩

/-- The columns come out as they went in. -/
theorem forall₂_init_toSpec {columns initial : List ColumnDef} (hsound : ∀ c ∈ columns, c.Sound) :
    List.Forall₂ (fun s c => ColumnDef.init s = .ok c) (columns.map ColumnDef.toSpec) initial ↔
      (∀ c ∈ columns, c.defaultValue = some .null → c.nullable = true) ∧ initial = columns := by
  rw [forall₂_map_left_iff,
    forall₂_iff_map (g := id) fun c hc _ => init_toSpec (hsound c hc), map_id]

/-- The indexes come out as they went in. -/
theorem forall₂_index_toSpec {indexes indexes' : List IndexDef}
    (hcols : ∀ i ∈ indexes, i.columns ≠ []) :
    List.Forall₂ (fun s d => IndexDef.init s = .ok d) (indexes.map IndexDef.toSpec) indexes' ↔
      indexes' = indexes := by
  have hinit : ∀ i ∈ indexes, ∀ d, IndexDef.init i.toSpec = .ok d ↔ True ∧ d = id i := by
    intro i hi d
    obtain ⟨first, rest, hcons⟩ := exists_cons_of_ne_nil (hcols i hi)
    have hself : IndexDef.init i.toSpec = .ok i := by
      unfold IndexDef.init IndexDef.toSpec
      simp only [hcons]
      cases i
      simp_all
    rw [hself, Except.ok.injEq, true_and]
    exact eq_comm
  rw [forall₂_map_left_iff, forall₂_iff_map hinit, map_id]
  exact and_iff_right fun _ _ => trivial

/-- The primary index marks nothing that is not marked. -/
theorem markIn_toSpec (t : TableDef) :
    t.columns.map (ColumnDef.markIn (primaryNames t.toSpec.indexes)) = t.columns := by
  have hself : ∀ c ∈ t.columns, c.markIn (primaryNames t.toSpec.indexes) = c := by
    intro c hc
    unfold ColumnDef.markIn
    split
    · rename_i hmem
      obtain ⟨s, hs, hn⟩ := mem_flatMap.1 hmem
      obtain ⟨i, hi, rfl⟩ := mem_map.1 hs
      obtain ⟨n, hn, hkey⟩ := mem_map.1 hn
      unfold IndexSpec.primaryColumns at hn
      split at hn
      · rename_i hkind
        obtain ⟨hp, hnull⟩ := t.wellFormed.primary i hi hkind n hn c hc hkey.symm
        cases c
        simp_all [ColumnDef.markPrimary]
      · cases hn
    · rfl
  rw [map_congr_left hself, map_id']

/-- **`cloneTableDef` gives the definition back, or refuses it.** -/
theorem cloneTableDef_eq_ok {t' : TableDef} :
    cloneTableDef t = .ok t' ↔ t.Rebuildable ∧ t' = t := by
  rw [cloneTableDef, TableDef.init_eq_ok, build_eq_ok, validateIndexes_toSpec]
  have hsound := t.wellFormed.sound
  have hcols : ∀ i ∈ t.indexes, i.columns ≠ [] := fun i hi => (t.wellFormed.covered i hi).1
  constructor
  · rintro ⟨⟨-, hnames, initial, hinit, hindexes, hcolumns⟩, hname⟩
    obtain ⟨hnull, rfl⟩ := (forall₂_init_toSpec hsound).1 hinit
    rw [markIn_toSpec] at hcolumns
    have hidx : t'.indexes = t.indexes := (forall₂_index_toSpec hcols).1 hindexes
    refine ⟨⟨hnames, hnull⟩, ?_⟩
    cases t
    cases t'
    simp_all [toSpec]
  · rintro ⟨h, rfl⟩
    refine ⟨⟨validateColumns_toSpec _, h.indexNames, t'.columns, ?_, ?_, ?_⟩, rfl⟩
    · exact (forall₂_init_toSpec hsound).2 ⟨h.nullDefaults, rfl⟩
    · exact (forall₂_index_toSpec hcols).2 rfl
    · exact (markIn_toSpec _).symm

end TableDef

/-! ## Stores -/

/-- **Rows put in one by one under ids of their own** stand behind those
that were there. -/
theorem insertRows_eq_ok {rows : List Row} {target : RowStore}
    (hconform : ∀ r ∈ rows, r.Conforms target.table) (hids : (rows.map Row.id).Nodup)
    (hnew : ∀ r ∈ rows, r.id ∉ target.ids) (hlast : ∀ r ∈ rows, r.id.toNat + 1 < UInt64.size) :
    ∃ n, insertRows rows target = .ok { target with rows := target.rows ++ rows, nextId := n } := by
  induction rows generalizing target with
  | nil => exact ⟨target.nextId, by rw [append_nil]; rfl⟩
  | cons r rows ih =>
    rw [forall_mem_cons] at hconform hnew hlast
    rw [map_cons, nodup_cons] at hids
    obtain ⟨n, hn⟩ : ∃ n, target.nextIdAfter r.id = .ok n := by
      unfold RowStore.nextIdAfter nextAfter
      rw [if_pos hlast.1]
      split <;> exact ⟨_, rfl⟩
    have hfirst := RowStore.insertWithId_eq_ok.2 ⟨hnew.1, hconform.1, n, hn, rfl⟩
    have hrest : ∀ r' ∈ rows, r'.id ∉ RowStore.ids
        { target with rows := target.rows ++ [⟨r.id, r.values⟩], nextId := n } := by
      intro r' hr' hmem
      rw [RowStore.ids, map_append, map_singleton, mem_append,
        mem_singleton] at hmem
      rcases hmem with hmem | hmem
      · exact hnew.2 r' hr' hmem
      · exact hids.1 (hmem ▸ mem_map_of_mem hr')
    obtain ⟨m, hm⟩ := @ih { target with rows := target.rows ++ [⟨r.id, r.values⟩], nextId := n }
      hconform.2 hids.2 hrest hlast.2
    refine ⟨m, ?_⟩
    rw [insertRows, foldlM_cons_eq_ok]
    refine ⟨_, hfirst, hm.trans ?_⟩
    simp only [append_assoc, singleton_append]

/-- **A store in good order, copied row by row into an empty one, comes
out as it went in.** -/
theorem RowStore.Valid.copyRowsIntoStore {source : RowStore} (h : source.Valid) :
    copyRowsIntoStore (RowStore.init source.table) source = .ok source := by
  have hlast : ∀ r ∈ source.rows, r.id.toNat + 1 < UInt64.size := by
    intro r hr
    have hlt := UInt64.lt_iff_toNat_lt.1 (h.below r hr)
    have hsize : source.nextId.toNat < UInt64.size := source.nextId.toNat_lt
    omega
  obtain ⟨n, hn⟩ := @insertRows_eq_ok source.rows (RowStore.init source.table) h.conform h.distinct
    (fun _ _ hmem => by cases hmem) hlast
  rw [Shoveler.copyRowsIntoStore, hn, ok_bind]
  cases source
  rfl

/-- **What a retained table is**: the table as it was, where its
definition can be rebuilt. -/
theorem RetainedTable.init_eq_ok {source : TableSource} {rt : RetainedTable}
    (hvalid : source.store.Valid) (htable : source.store.table = source.table) :
    RetainedTable.init source = .ok rt ↔
      source.table.Rebuildable ∧ rt = ⟨source.table, source.store⟩ := by
  simp only [RetainedTable.init, bind_eq_ok, TableDef.cloneTableDef_eq_ok,
    pure_eq_ok, Except.ok.injEq]
  constructor
  · rintro ⟨_, ⟨h, rfl⟩, s, hs, rfl⟩
    rw [← htable, hvalid.copyRowsIntoStore] at hs
    obtain rfl := Except.ok.inj hs
    exact ⟨h, rfl⟩
  · rintro ⟨h, rfl⟩
    exact ⟨_, ⟨h, rfl⟩, _, htable ▸ hvalid.copyRowsIntoStore, rfl⟩

end Shoveler
