import Shoveler.Storage.Frame

/-!
# What the decoder accepts

A snapshot file may hold anything behind a header that fits it. Whatever
the decoder accepts went through `createTable`, `insertWithId`,
`registerView` and `registerProcedure` on its way in, so it is in good
order: `Ensures` carries that from each of these calls up to
`decodeSnapshot`.
-/

namespace Shoveler

namespace Persistence

/-- A row goes into a store in good order and leaves it so. -/
theorem ensures_row {table : TableDef} {store : RowStore}
    (h : store.Valid ∧ store.table = table) :
    Ensures (decodeRow store) fun store' => store'.Valid ∧ store'.table = table := by
  refine .skip fun id => .skip fun valueCount => .skip fun values => .lift fun store' hinsert => ?_
  refine ⟨h.1.insertWithId hinsert, ?_⟩
  obtain ⟨-, -, n, -, rfl⟩ := RowStore.insertWithId_eq_ok.1 hinsert
  exact h.2

/-- **A table goes behind those that are there**, with its store at the
same place. -/
theorem ensures_table {s : DatabaseSnapshot} (h : s.WellFormed) :
    Ensures (decodeTable s) DatabaseSnapshot.WellFormed := by
  refine .skip fun tableName => .skip fun columnCount => .skip fun specs => .skip fun indexCount =>
    .skip fun indexes => .bind (.lift fun catalog hcreate => hcreate) fun catalog hcreate => ?_
  obtain ⟨hnew, table, hinit, rfl⟩ := DatabaseCatalog.createTable_eq_ok.1 hcreate
  have hname : table.name = tableName := (TableDef.init_eq_ok.1 hinit).2
  have hkey : table.key ∉ s.catalog.keys := by
    rw [TableDef.key, hname]
    exact hnew
  have hrefresh := @refreshStoreTablePointers_eq
    { catalog := { s.catalog with tables := s.catalog.tables ++ [table] }, stores := s.stores }
    [table] (by rw [h.aligned])
  have hfind := DatabaseCatalog.getTable_new hkey
  rw [hname] at hfind
  simp only [hrefresh, hfind]
  -- the rows go into a store of the new table
  have hrows : ∀ nextId rowCount, Ensures
      (Reader.loop rowCount decodeRow { RowStore.init table with nextId := nextId })
      fun store => store.Valid ∧ store.table = table := fun nextId rowCount =>
    .loop (fun _ => ensures_row) ⟨⟨nofun, List.nodup_nil, nofun⟩, rfl⟩
  refine .skip fun nextId => .skip fun rowCount => (hrows nextId rowCount).bind
    fun store hstore => .pure ⟨?_, ?_, ?_⟩
  · rw [List.map_append, h.aligned, List.map_singleton, hstore.2]
  · exact List.forall_mem_append.2 ⟨h.valid, List.forall_mem_singleton.2 hstore.1⟩
  · exact DatabaseCatalog.nodup_keys_table h.distinct hkey

/-- A view under a free name. -/
theorem ensures_view {s : DatabaseSnapshot} (h : s.WellFormed) :
    Ensures (decodeView s) DatabaseSnapshot.WellFormed := by
  refine .skip fun name => .skip fun body => .bind (.lift fun catalog hregister => hregister)
    fun catalog hregister => ?_
  obtain ⟨hnew, rfl⟩ := DatabaseCatalog.registerView_eq_ok.1 hregister
  exact .pure ⟨h.aligned, h.valid, DatabaseCatalog.nodup_keys_view h.distinct hnew⟩

/-- A procedure under a free name. -/
theorem ensures_procedure {s : DatabaseSnapshot} (h : s.WellFormed) :
    Ensures (decodeProcedure s) DatabaseSnapshot.WellFormed := by
  refine .skip fun name => .skip fun body => .bind (.lift fun catalog hregister => hregister)
    fun catalog hregister => ?_
  obtain ⟨hnew, rfl⟩ := DatabaseCatalog.registerProcedure_eq_ok.1 hregister
  exact .pure ⟨h.aligned, h.valid, DatabaseCatalog.nodup_keys_procedure h.distinct hnew⟩

/-- **What the payload decoder accepts is in good order.** -/
theorem ensures_payload : Ensures decodePayload DatabaseSnapshot.WellFormed := by
  have hempty : DatabaseSnapshot.WellFormed {} := ⟨rfl, nofun, List.nodup_nil⟩
  refine .skip fun tableCount => .bind (.loop (fun _ => ensures_table) hempty) fun s hs => ?_
  have hrefresh := @refreshStoreTablePointers_eq s [] (by rw [List.append_nil, hs.aligned])
  simp only [hrefresh]
  exact .skip fun viewCount => .bind (.loop (fun _ => ensures_view) hs) fun s hs =>
    .skip fun procedureCount => .loop (fun _ => ensures_procedure) hs

/-- **What the decoder accepts is in good order.** -/
theorem wellFormed_of_decodeSnapshot {bytes : Bytes} {s : DatabaseSnapshot}
    (h : decodeSnapshot bytes = .ok s) : s.WellFormed := by
  obtain ⟨payload, -, -, c, hrun, -⟩ := decodeSnapshot_eq_ok.1 h
  exact ensures_payload _ _ _ hrun

end Persistence

end Shoveler
