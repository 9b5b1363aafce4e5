import Shoveler.Invariant.Moves

/-!
# Candidates

The vector overlay as a map. Its deltas have a key, the table, the column
and the row, and no two of them the same one; so what it says is what it
says under each key (`Overlay.candidate`). The tables say something under
the same keys, the vectors that are committed in them (`vectorAt`). A
commit with a number puts all of these into the overlay, over what is
there (`candidate_record`); a drain takes some away, and nothing else
touches it (`Coherent.candidate_writer`, `Coherent.deltas_silent`).
-/

namespace Shoveler

open List

/-- What a candidate is found by: a table, a column and a row. -/
abbrev CandidateKey := Bytes × Bytes × RowId

namespace Delta

def key (self : Delta) : CandidateKey :=
  (foldCase self.tableName, foldCase self.columnName, self.rowId)

/-- What a delta says of its key. -/
def content (self : Delta) : Generation × List UInt32 := (self.generation, self.vector)

/-- `replaceVector`, with what a new delta says. -/
def replaceVector (new self : Delta) : Delta :=
  { self with vector := new.vector, generation := new.generation }

theorem key_replaceVector (new self : Delta) : (replaceVector new self).key = self.key := rfl

theorem content_replaceVector (new self : Delta) :
    (replaceVector new self).content = new.content := rfl

end Delta

/-! ## The overlay -/

namespace Overlay

/-- `recordVector`, of a delta. -/
def record (self : Overlay) (delta : Delta) : Overlay :=
  self.recordVector delta.generation delta.tableName delta.columnName delta.rowId delta.vector

/-- Recording merges a delta into the one with its key. -/
theorem deltas_record (self : Overlay) (delta : Delta) :
    (self.record delta).deltas = Keyed.record Delta.key Delta.replaceVector delta self.deltas := by
  have hsearch : self.findIndex delta.tableName delta.columnName delta.rowId =
      self.deltas.findIdx? fun d => decide (d.key = delta.key) := by
    refine congrArg (findIdx? · self.deltas) (funext fun d => ?_)
    simp only [Delta.matchesColumn, namesEqual, Delta.key, Prod.mk.injEq, Bool.decide_and]
    rw [Bool.and_comm, Bool.and_assoc]
  unfold record recordVector Keyed.record
  rw [hsearch]
  cases self.deltas.findIdx? fun d => decide (d.key = delta.key) with
  | some i => rfl
  | none => rfl

theorem deltas_foldl_record (self : Overlay) (deltas : List Delta) :
    (deltas.foldl record self).deltas =
      deltas.foldl (fun l d => Keyed.record Delta.key Delta.replaceVector d l) self.deltas := by
  induction deltas generalizing self with
  | nil => rfl
  | cons d deltas ih => rw [foldl_cons, foldl_cons, ih, deltas_record]

/-- **What the overlay says under a key.** -/
def candidate (self : Overlay) (k : CandidateKey) : Option (Generation × List UInt32) :=
  (self.deltas.find? fun d => decide (d.key = k)).map Delta.content

/-- No two deltas have the same key. -/
def Distinct (self : Overlay) : Prop := (self.deltas.map Delta.key).Nodup

theorem Distinct.candidate_of_mem {self : Overlay} (h : self.Distinct) {d : Delta}
    (hd : d ∈ self.deltas) : self.candidate d.key = some d.content := by
  rw [candidate, Keyed.find?_eq_some_of_mem h hd, Option.map_some]

theorem exists_of_candidate {self : Overlay} {k : CandidateKey} {c : Generation × List UInt32}
    (h : self.candidate k = some c) : ∃ d ∈ self.deltas, d.key = k ∧ d.content = c := by
  obtain ⟨d, hd, rfl⟩ := Option.map_eq_some_iff.1 h
  exact ⟨d, (Keyed.of_find?_eq_some hd).1, (Keyed.of_find?_eq_some hd).2, rfl⟩

/-- **Draining takes deltas away**, and leaves the others in order. -/
theorem sublist_drainLoop (g : Generation) (room : ℕ) (deltas : List Delta) :
    (drainLoop g room deltas).2.Sublist deltas := by
  induction deltas generalizing room with
  | nil => cases room <;> exact List.Sublist.refl _
  | cons d deltas ih =>
    cases room with
    | zero => exact List.Sublist.refl _
    | succ room =>
      rw [drainLoop]
      split
      · exact (ih (room + 1)).cons_cons d
      · exact (ih room).cons d

end Overlay

/-! ## The vectors of the tables -/

/-- A cell of a row, as the delta that is recorded for it. -/
def vectorCell (g : Generation) (tableName : Bytes) (table : TableDef) (rowId : RowId)
    (cell : Value × ℕ) : Option Delta :=
  match cell.1, table.columnAt cell.2 with
  | .vector v, some column => some ⟨g, tableName, column.name, rowId, v.values⟩
  | _, _ => none

/-- The vectors in a table. -/
def TableState.vectors (g : Generation) (t : TableState) : List Delta :=
  t.store.rows.flatMap fun row =>
    row.values.zipIdx.filterMap (vectorCell g t.name t.store.table row.id)

/-- **The vectors in all tables**, as deltas of a generation. -/
def vectorCells (g : Generation) (tables : List TableState) : List Delta :=
  tables.flatMap (TableState.vectors g)

/-- **The vector committed under a key.** -/
def vectorAt (tables : List TableState) (k : CandidateKey) : Option (List UInt32) := do
  let t ← tables.find? fun t => decide (t.key = k.1)
  let index ← t.store.table.columns.findIdx? fun column => decide (column.key = k.2.1)
  let row ← t.store.rows.find? fun row => decide (row.id = k.2.2)
  match row.values[index]? with
  | some (.vector v) => some v.values
  | _ => none

theorem recordCell_eq (o : Overlay) (g : Generation) (tableName : Bytes) (table : TableDef)
    (rowId : RowId) (cell : Value × ℕ) :
    o.recordCell g tableName table rowId cell =
      (vectorCell g tableName table rowId cell).elim o o.record := by
  unfold Overlay.recordCell vectorCell
  cases cell.1 with
  | vector v => cases table.columnAt cell.2 <;> rfl
  | _ => rfl

/-- A commit with a number records the vectors of all tables. -/
theorem recordVectorOverlayDeltas_eq (db : Database) (g : Generation) :
    db.recordVectorOverlayDeltas g = (vectorCells g db.tables).foldl Overlay.record db.overlay := by
  rw [Database.recordVectorOverlayDeltas, vectorCells, foldl_flatMap]
  refine congrArg (fun f => foldl f db.overlay db.tables) (funext fun o => funext fun t => ?_)
  rw [Overlay.recordCommittedStore, TableState.vectors, foldl_flatMap]
  refine congrArg (fun f => foldl f o t.store.rows) (funext fun o => funext fun row => ?_)
  rw [foldl_filterMap]
  refine congrArg (fun f => foldl f o _) (funext fun o => funext fun cell => ?_)
  rw [recordCell_eq]
  cases vectorCell g t.name t.store.table row.id cell with
  | none => rfl
  | some d => rfl

/-- A vector in a column of a table. -/
structure StoresVector (t : TableState) (row : Row) (column : ColumnDef) (v : Vector) : Prop where
  committed : row ∈ t.store.rows
  cell : ∃ index : ℕ, t.store.table.columns[index]? = some column ∧
    row.values[index]? = some (.vector v)

theorem mem_vectorCells {g : Generation} {tables : List TableState} {d : Delta} :
    d ∈ vectorCells g tables ↔ ∃ t ∈ tables, ∃ row column v, StoresVector t row column v ∧
      d = ⟨g, t.name, column.name, row.id, v.values⟩ := by
  simp only [vectorCells, TableState.vectors, mem_flatMap, mem_filterMap]
  constructor
  · rintro ⟨t, ht, row, hrow, ⟨value, index⟩, hcell, hd⟩
    unfold vectorCell at hd
    split at hd
    · rename_i v column hvalue hcolumn
      refine ⟨t, ht, row, column, v, ⟨hrow, index, hcolumn, ?_⟩, (Option.some.inj hd).symm⟩
      rw [mem_zipIdx_iff_getElem?.1 hcell]
      exact congrArg some hvalue
    · cases hd
  · rintro ⟨t, ht, row, column, v, ⟨hrow, index, hcolumn, hvalue⟩, rfl⟩
    refine ⟨t, ht, row, hrow, (.vector v, index), mem_zipIdx_iff_getElem?.2 hvalue, ?_⟩
    simp only [vectorCell, TableDef.columnAt, hcolumn]

/-! ### Keys -/

/-- The vectors of a row stand in different columns. -/
theorem nodup_rowCells (g : Generation) (tableName : Bytes) (table : TableDef) (row : Row) :
    ((row.values.zipIdx.filterMap (vectorCell g tableName table row.id)).map Delta.key).Nodup := by
  have hcolumn : ∀ (cell : Value × ℕ) (d : Delta),
      vectorCell g tableName table row.id cell = some d →
      ∃ column, table.columns[cell.2]? = some column ∧ column.key = d.key.2.1 := by
    intro cell d hd
    unfold vectorCell at hd
    split at hd
    · rename_i v column hvalue hat
      obtain rfl := Option.some.inj hd
      exact ⟨column, hat, rfl⟩
    · cases hd
  have hplaces : (row.values.zipIdx.map Prod.snd).Nodup := by
    rw [zipIdx_map_snd]
    exact nodup_range'
  rw [List.Nodup, pairwise_map, pairwise_filterMap]
  refine (pairwise_map.1 hplaces).imp fun {cell cell'} hne d hd d' hd' hkey => hne ?_
  obtain ⟨column, hat, hname⟩ := hcolumn cell d hd
  obtain ⟨column', hat', hname'⟩ := hcolumn cell' d' hd'
  have hsame : column.key = column'.key := by rw [hname, hname', hkey]
  exact Keyed.getElem?_place table.wellFormed.names hat hat' hsame

/-- Those of a table in different rows. -/
theorem nodup_tableCells {t : TableState} (h : t.store.Valid) (g : Generation) :
    ((t.vectors g).map Delta.key).Nodup := by
  have hrow : ∀ row : Row, ∀ k ∈ (row.values.zipIdx.filterMap
      (vectorCell g t.name t.store.table row.id)).map Delta.key, k.2.2 = row.id := by
    intro row k hk
    obtain ⟨d, hd, rfl⟩ := mem_map.1 hk
    obtain ⟨cell, -, hd⟩ := mem_filterMap.1 hd
    unfold vectorCell at hd
    split at hd
    · obtain rfl := Option.some.inj hd
      rfl
    · cases hd
  rw [TableState.vectors, map_flatMap, nodup_flatMap]
  refine ⟨fun row _ => nodup_rowCells g t.name t.store.table row, ?_⟩
  refine (pairwise_map.1 h.distinct).imp fun {row row'} hne k hk hk' => hne ?_
  exact (hrow row k hk).symm.trans (hrow row' k hk')

section Valid

variable {db : Database}

/-- **No two vectors have the same key**: names of tables, names of columns
and row ids are distinct. -/
theorem nodup_vectorCells (h : db.Valid) (g : Generation) :
    ((vectorCells g db.tables).map Delta.key).Nodup := by
  have htable : ∀ t : TableState, ∀ k ∈ (t.vectors g).map Delta.key, k.1 = t.key := by
    intro t k hk
    obtain ⟨d, hd, rfl⟩ := mem_map.1 hk
    obtain ⟨t', ht', row, column, v, -, rfl⟩ :=
      mem_vectorCells.1 (mem_flatMap.2 ⟨t, mem_singleton_self t, hd⟩)
    rw [mem_singleton.1 ht']
    rfl
  rw [vectorCells, map_flatMap, nodup_flatMap]
  refine ⟨fun t ht => nodup_tableCells (h.stores t ht) g, ?_⟩
  refine (pairwise_map.1 h.stateKeys_nodup).imp fun {t t'} hne k hk hk' => hne ?_
  exact (htable t k hk).symm.trans (htable t' k hk')

/-- **What is committed under a key.** -/
theorem vectorAt_eq_some (h : db.Valid) {k : CandidateKey} {w : List UInt32} :
    vectorAt db.tables k = some w ↔ ∃ t ∈ db.tables, ∃ row column v, StoresVector t row column v ∧
      k = (t.key, column.key, row.id) ∧ w = v.values := by
  constructor
  · intro hat
    unfold vectorAt at hat
    obtain ⟨t, ht, hat⟩ := Option.bind_eq_some_iff.1 hat
    obtain ⟨index, hindex, hat⟩ := Option.bind_eq_some_iff.1 hat
    obtain ⟨row, hrow, hat⟩ := Option.bind_eq_some_iff.1 hat
    split at hat
    · rename_i v hvalue
      have hcolumn := Keyed.getElem?_findIdx? hindex
      have hlt := (findIdx?_eq_some_iff_getElem.1 hindex).1
      obtain ⟨column, hfound⟩ : ∃ column, t.store.table.columns[index]? = some column :=
        ⟨_, getElem?_eq_getElem hlt⟩
      rw [hfound] at hcolumn
      refine ⟨t, (Keyed.of_find?_eq_some ht).1, row, column, v,
        ⟨(Keyed.of_find?_eq_some hrow).1, index, hfound, hvalue⟩, ?_, (Option.some.inj hat).symm⟩
      rw [(Keyed.of_find?_eq_some ht).2, (Keyed.of_find?_eq_some hrow).2,
        (Keyed.of_find?_eq_some hcolumn.symm).2]
    · cases hat
  · rintro ⟨t, ht, row, column, v, ⟨hrow, index, hcolumn, hvalue⟩, rfl, rfl⟩
    unfold vectorAt
    rw [Keyed.find?_eq_some_of_mem h.stateKeys_nodup ht]
    simp only [Option.bind_eq_bind, Option.bind_some,
      Keyed.findIdx?_of_getElem? t.store.table.wellFormed.names hcolumn,
      Keyed.find?_eq_some_of_mem (h.stores t ht).distinct hrow, hvalue]

/-- **The vectors of the tables, looked up.** -/
theorem find?_vectorCells (h : db.Valid) (g : Generation) (k : CandidateKey) :
    ((vectorCells g db.tables).find? fun d => decide (d.key = k)).map Delta.content =
      (vectorAt db.tables k).map fun w => (g, w) := by
  cases hat : vectorAt db.tables k with
  | some w =>
    obtain ⟨t, ht, row, column, v, hstored, rfl, rfl⟩ := (vectorAt_eq_some h).1 hat
    have hmem := (mem_vectorCells (g := g)).2 ⟨t, ht, row, column, v, hstored, rfl⟩
    have hfind := Keyed.find?_eq_some_of_mem (nodup_vectorCells h g) hmem
    exact congrArg (Option.map Delta.content) hfind
  | none =>
    rw [Option.map_none, Option.map_eq_none_iff, Keyed.find?_eq_none]
    intro hk
    obtain ⟨d, hd, rfl⟩ := mem_map.1 hk
    obtain ⟨t, ht, row, column, v, hstored, rfl⟩ := mem_vectorCells.1 hd
    have hsome := (vectorAt_eq_some h).2 ⟨t, ht, row, column, v, hstored, rfl, rfl⟩
    exact Option.some_ne_none _ (hsome.symm.trans hat)

/-- **A commit with a number puts the committed vectors over what is
there.** -/
theorem candidate_record (h : db.Valid) (hdistinct : db.overlay.Distinct) (g : Generation)
    (k : CandidateKey) :
    (db.recordVectorOverlayDeltas g).candidate k =
      ((vectorAt db.tables k).map fun w => (g, w)).or (db.overlay.candidate k) := by
  rw [recordVectorOverlayDeltas_eq, Overlay.candidate, Overlay.deltas_foldl_record,
    Keyed.find?_foldl_record Delta.key_replaceVector Delta.content_replaceVector
      (nodup_vectorCells h g) hdistinct, find?_vectorCells h, Overlay.candidate]

theorem distinct_record (hdistinct : db.overlay.Distinct) (g : Generation) :
    (db.recordVectorOverlayDeltas g).Distinct := by
  rw [recordVectorOverlayDeltas_eq, Overlay.Distinct, Overlay.deltas_foldl_record]
  exact Keyed.nodup_foldl_record Delta.key_replaceVector hdistinct _

end Valid

/-! ## Events -/

namespace System

variable {frontend : Frontend} {sys : System} {event : Event} {i : ℕ}

/-- The overlay with the vectors of the tables after an event. -/
def recorded (frontend : Frontend) (sys : System) (event : Event) : Overlay :=
  Database.recordVectorOverlayDeltas { sys.db with tables := (sys.step frontend event).db.tables }
    (sys.step frontend event).db.commitSequence

/-- A commit with a number is a commit. -/
theorem eq_of_writer (hw : sys.writer frontend event = some i) : event = .statement i .commit := by
  unfold writer at hw
  split at hw
  · split at hw
    · rw [Option.some.inj hw]
    · cases hw
  · cases hw

/-- **A commit with a number records the tables it leaves.** -/
theorem Coherent.overlay_writer (h : sys.Coherent) (hw : sys.writer frontend event = some i) :
    (sys.step frontend event).db.overlay = sys.recorded frontend event := by
  obtain rfl := eq_of_writer hw
  rw [recorded, h.step_commit frontend i]
  rw [h.writer_commit frontend i, Option.ite_none_right_eq_some] at hw
  have hout := h.commit_outcome i
  generalize (sys.sessions i).commit sys.db = r at hout hw ⊢
  cases hout with
  | inactive | refused | stopped => cases hw.1.2
  | idle _ ht => exact absurd ht hw.1.1
  | published => rfl

/-- **Every other event but a drain leaves the overlay alone.** -/
theorem Coherent.overlay_silent (h : sys.Coherent) (hw : sys.writer frontend event = none)
    (hdrain : ∀ g n, event ≠ .drain g n) :
    (sys.step frontend event).db.overlay = sys.db.overlay := by
  have heffect := h.effect frontend event
  generalize sys.step frontend event = sys' at heffect ⊢
  cases heffect with
  | drains g n => exact absurd rfl (hdrain g n)
  | published i _ _ _ ht _ _ _ _ hc =>
    rw [h.writer_commit frontend i, hc, if_pos ⟨ht, rfl⟩] at hw
    cases hw
  | createTable _ _ _ _ _ hs | dropTable _ _ _ _ _ hs => exact hs.overlay
  | defines _ _ _ _ hs => exact hs.overlay
  | _ => rfl

/-- So an event without a number leaves deltas of those that were there. -/
theorem Coherent.deltas_silent (h : sys.Coherent) (hw : sys.writer frontend event = none) :
    (sys.step frontend event).db.overlay.deltas.Sublist sys.db.overlay.deltas := by
  by_cases hdrain : ∃ g n, event = .drain g n
  · obtain ⟨g, n, rfl⟩ := hdrain
    exact Overlay.sublist_drainLoop g n sys.db.overlay.deltas
  · rw [h.overlay_silent hw fun g n heq => hdrain ⟨g, n, heq⟩]

/-- **No two deltas ever have the same key.** -/
theorem Coherent.distinct_step (h : sys.Coherent) (hdistinct : sys.db.overlay.Distinct)
    (event : Event) : (sys.step frontend event).db.overlay.Distinct := by
  cases hw : sys.writer frontend event with
  | some i =>
    rw [h.overlay_writer hw]
    refine distinct_record ?_ _
    exact hdistinct
  | none => exact hdistinct.sublist ((h.deltas_silent hw).map _)

theorem Reachable.distinct (h : sys.Reachable frontend) : sys.db.overlay.Distinct := by
  refine h.invariant (I := fun sys => sys.db.overlay.Distinct) (fun db hopened => ?_)
    fun sys event hco hdistinct => hco.distinct_step hdistinct event
  rw [System.start, hopened.overlay]
  exact nodup_nil

/-- **What a commit with a number leaves under a key**: the vector that is
committed there, with the number, or what was there. -/
theorem Coherent.candidate_writer (h : sys.Coherent) (hdistinct : sys.db.overlay.Distinct)
    (hw : sys.writer frontend event = some i) (k : CandidateKey) :
    (sys.step frontend event).db.overlay.candidate k =
      ((vectorAt (sys.step frontend event).db.tables k).map fun w =>
        ((sys.step frontend event).db.commitSequence, w)).or (sys.db.overlay.candidate k) := by
  have hvalid : Database.Valid
      { sys.db with tables := (sys.step frontend event).db.tables } := by
    obtain rfl := eq_of_writer hw
    refine h.valid.follow rfl rfl rfl ?_
    rw [h.step_commit frontend i]
    exact follows_commit (h.commit_outcome i)
  rw [h.overlay_writer hw]
  exact candidate_record hvalid hdistinct _ k

/-- What is not replaced stays. -/
theorem Coherent.candidate_kept (h : sys.Coherent) (hdistinct : sys.db.overlay.Distinct)
    (hw : sys.writer frontend event = some i) {old : Delta} (hold : old ∈ sys.db.overlay.deltas)
    (hnone : vectorAt (sys.step frontend event).db.tables old.key = none) :
    ∃ delta ∈ (sys.step frontend event).db.overlay.deltas, delta.key = old.key ∧
      delta.content = old.content := by
  have hcandidate := h.candidate_writer hdistinct hw old.key
  rw [hnone, hdistinct.candidate_of_mem hold] at hcandidate
  exact Overlay.exists_of_candidate hcandidate

/-- **The candidates behind a commit with a number** are those that are
committed, with the number, and those that are left. -/
theorem Coherent.candidate_cases (h : sys.Coherent) (hdistinct : sys.db.overlay.Distinct)
    (hw : sys.writer frontend event = some i) {delta : Delta}
    (hdelta : delta ∈ (sys.step frontend event).db.overlay.deltas) :
    (vectorAt (sys.step frontend event).db.tables delta.key = some delta.vector ∧
        delta.generation = (sys.step frontend event).db.commitSequence) ∨
      vectorAt (sys.step frontend event).db.tables delta.key = none ∧
        ∃ old ∈ sys.db.overlay.deltas, old.key = delta.key ∧ old.content = delta.content := by
  have hcandidate := h.candidate_writer hdistinct hw delta.key
  rw [(h.distinct_step hdistinct event).candidate_of_mem hdelta] at hcandidate
  cases hat : vectorAt (sys.step frontend event).db.tables delta.key with
  | some w =>
    rw [hat, Option.map_some, Option.some_or] at hcandidate
    obtain ⟨hgeneration, hvector⟩ := Prod.mk.inj (Option.some.inj hcandidate)
    exact .inl ⟨congrArg some hvector.symm, hgeneration⟩
  | none =>
    rw [hat] at hcandidate
    exact .inr ⟨rfl, Overlay.exists_of_candidate hcandidate.symm⟩

end System

end Shoveler
