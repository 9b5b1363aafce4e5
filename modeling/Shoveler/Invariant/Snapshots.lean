import Shoveler.Invariant.Coherent

/-!
# What a session reads under its own changes

Rows are not copied when a session begins. As long as nobody has
committed over its generation the session reads the live stores; after
that it reads the copies the registry keeps. `Database.baseStores` says
which, and `baseStoreForRead_eq` that the executor finds them. The point
of the protocol is then that a commit leaves the base stores of the other
sessions alone (`retained_or_self`): the committing session keeps the
current generation for whoever reads it, itself excepted.
-/

namespace Shoveler

open Transaction (Publishes)

/-- **The stores a session reads under its own changes**, by the
generation it reads. -/
def Database.baseStores (db : Database) (reading : Option Generation) : List RowStore :=
  match reading.bind db.registry.retainedAt with
  | some r => r.tables.map RetainedTable.store
  | none => db.tables.map TableState.store

/-- A table kept of an older generation, and the table that has followed
it. -/
structure Precedes (rt : RetainedTable) (t : TableState) : Prop where
  name : foldCase rt.table.name = t.key
  valid : rt.store.Valid
  publishes : Publishes rt.store t.store

theorem Precedes.follow {rt : RetainedTable} {t t' : TableState} (h : Precedes rt t)
    (hf : Database.Follows t t') : Precedes rt t' := by
  refine ⟨?_, h.valid, h.publishes.trans hf.2⟩
  rw [h.name, TableState.key, TableState.key, hf.1]

theorem precedes_follow {tables : List RetainedTable} {l l' : List TableState}
    (h : List.Forall₂ Precedes tables l) (hf : List.Forall₂ Database.Follows l l') :
    List.Forall₂ Precedes tables l' := by
  induction h generalizing l' with
  | nil =>
    cases hf
    exact .nil
  | cons hp _ ih =>
    cases hf with
    | cons hf hrest => exact .cons (hp.follow hf) (ih hrest)

/-- The tables just captured precede the live ones. -/
theorem precedes_captured {db : Database} (h : db.Valid) :
    List.Forall₂ Precedes db.captured.tables db.tables := by
  rw [Database.captured, List.forall₂_map_left_iff]
  refine List.forall₂_same.2 fun t ht => ⟨?_, h.stores t ht, .refl _⟩
  rw [TableState.key, h.named t ht]

/-- The keys of kept tables are those of the live ones. -/
theorem map_key_of_precedes {tables : List RetainedTable} {l : List TableState}
    (h : List.Forall₂ Precedes tables l) :
    tables.map (fun rt => foldCase rt.table.name) = l.map TableState.key := by
  induction h with
  | nil => rfl
  | cons hp _ ih => rw [List.map_cons, List.map_cons, ih, hp.name]

/-- The kept table at the place of a live one is found by its name. -/
theorem storeForTable_eq {r : RetainedGeneration} {l : List TableState}
    (h : List.Forall₂ Precedes r.tables l) (hkeys : (l.map TableState.key).Nodup) {k : ℕ}
    {t : TableState} (ht : l[k]? = some t) :
    ∃ rt, r.tables[k]? = some rt ∧ Precedes rt t ∧ r.storeForTable t.name = some rt.store := by
  obtain ⟨hlen, hget⟩ := List.forall₂_iff_get.1 h
  obtain ⟨hk, rfl⟩ := List.getElem?_eq_some_iff.1 ht
  have hk' : k < r.tables.length := hlen ▸ hk
  have hp : Precedes r.tables[k] l[k] := hget k hk' hk
  refine ⟨r.tables[k], List.getElem?_eq_getElem hk', hp, ?_⟩
  have hnodup : (r.tables.map fun rt => foldCase rt.table.name).Nodup :=
    map_key_of_precedes h ▸ hkeys
  have hfind := Keyed.find?_eq_some_of_mem hnodup (List.getElem_mem hk')
  have hname : foldCase r.tables[k].table.name = foldCase l[k].name := hp.name
  rw [hname] at hfind
  rw [RetainedGeneration.storeForTable]
  simp only [namesEqual]
  rw [hfind]
  rfl

section Reading

variable {db : Database} {session : Session}

/-- **The executor finds the base stores**: whatever the session reads of a
table is what stands at the table's place among them. -/
theorem snapshotStoreForRead_eq (hvalid : db.Valid) (hs : session.Shaped)
    (ha : session.active = true)
    (hkept : ∀ g, session.reading = some g → g ≠ db.commitSequence →
      (db.registry.retainedAt g).isSome = true)
    (hret : ∀ r ∈ db.registry.retained, List.Forall₂ Precedes r.tables db.tables) {k : ℕ}
    {t : TableState} (ht : db.tables[k]? = some t) :
    ∃ found base, session.snapshotStoreForRead db t.name = .ok found ∧
      found.getD t.store = base ∧ (db.baseStores session.reading)[k]? = some base ∧ base.Valid ∧
      Publishes base t.store := by
  obtain ⟨g, hg, -⟩ := hs.handle ha
  have hreading : session.reading = some g := by
    rw [Session.reading, hg]
    rfl
  cases hr : db.registry.retainedAt g with
  | some r =>
    have hmem : r ∈ db.registry.retained := List.mem_of_find?_eq_some hr
    obtain ⟨rt, hrt, hp, hstore⟩ := storeForTable_eq (hret r hmem) hvalid.stateKeys_nodup ht
    have hfound : db.registry.retainedStoreForTable g t.name = some rt.store := by
      rw [Registry.retainedAt] at hr
      rw [Registry.retainedStoreForTable, hr]
      exact hstore
    refine ⟨some rt.store, rt.store, ?_, rfl, ?_, hp.valid, hp.publishes⟩
    · rw [Session.snapshotStoreForRead, if_neg (by simp [ha]), hg]
      simp only [hfound]
    · simp only [Database.baseStores, hreading, Option.bind_some, hr]
      rw [List.getElem?_map, hrt]
      rfl
  | none =>
    have hcurrent : g = db.commitSequence := by
      by_contra hne
      have hsome := hkept g hreading hne
      rw [hr] at hsome
      cases hsome
    have hfound : db.registry.retainedStoreForTable g t.name = none := by
      rw [Registry.retainedAt] at hr
      rw [Registry.retainedStoreForTable, hr]
    refine ⟨none, t.store, ?_, rfl, ?_, hvalid.stores t (List.mem_of_getElem? ht), .refl _⟩
    · rw [Session.snapshotStoreForRead, if_neg (by simp [ha]), hg]
      simp only [hfound]
      rw [if_pos hcurrent]
    · simp only [Database.baseStores, hreading, Option.bind_some, hr]
      rw [List.getElem?_map, ht]
      rfl

end Reading

/-! ## What changes the base stores -/

section Keeping

variable {sys : System} {i j : ℕ} {g : Generation}

/-- Letting go of one handle leaves what is kept for the other readers
alone. -/
theorem retainedAt_releaseHandle (h : sys.Coherent) {reg : Registry} (hreg : reg.Good)
    (hcounted : Counted reg sys.sessions) (hij : j ≠ i)
    (hj : (sys.sessions j).reading = some g) :
    ((sys.sessions i).releaseHandle reg).retainedAt g = reg.retainedAt g := by
  have hcount := (@System.Coherent.releaseHandle sys i h reg hreg hcounted {} rfl).2
  have hread : (Function.update sys.sessions i {} j).reading = some g := by
    simpa [hij] using hj
  have hne := hcount.activeRefCount_ne_zero hread
  rw [(h.shaped i).releaseHandle reg] at hne ⊢
  cases hr : (sys.sessions i).reading with
  | none => rfl
  | some g' =>
    rw [hr] at hne
    exact Registry.retainedAt_releaseGeneration hne

theorem mem_retained_releaseHandle (h : sys.Coherent) {reg : Registry} {r : RetainedGeneration}
    (hr : r ∈ ((sys.sessions i).releaseHandle reg).retained) : r ∈ reg.retained := by
  rw [(h.shaped i).releaseHandle reg] at hr
  cases hread : (sys.sessions i).reading with
  | none =>
    rw [hread] at hr
    exact hr
  | some g' =>
    rw [hread] at hr
    exact Registry.mem_retained_releaseGeneration hr

/-- What a commit retains is the capture of the current tables. -/
theorem System.Coherent.mem_retained_retain (h : sys.Coherent) {reg : Registry}
    {excluding : Option SnapshotHandle}
    (hr : sys.db.retainCurrentGenerationForActiveSnapshots excluding = (reg, .ok ()))
    {r : RetainedGeneration} (hmem : r ∈ reg.retained) :
    r ∈ sys.db.registry.retained ∨ r = sys.db.captured := by
  rcases retainCurrent_eq_ok h.registry h.valid hr with ⟨-, rfl⟩ | ⟨-, rfl⟩
  · exact Or.inl hmem
  · exact (List.mem_append.1 hmem).imp_right List.mem_singleton.1

/-- **Who reads the current generation has it kept before a commit goes
on**, except the one that commits. -/
theorem retained_or_self (h : sys.Coherent) {reg : Registry}
    (hr : sys.db.retainCurrentGenerationForActiveSnapshots (sys.sessions i).snapshotHandle =
      (reg, .ok ())) (hj : (sys.sessions j).reading = some g)
    (hkept : g ≠ sys.db.commitSequence → (sys.db.registry.retainedAt g).isSome = true) :
    (∃ r, reg.retainedAt g = some r ∧
        r.tables.map RetainedTable.store = sys.db.baseStores (some g)) ∨
      j = i ∧ reg = sys.db.registry ∧ reg.retainedAt g = none := by
  cases hold : sys.db.registry.retainedAt g with
  | some r =>
    -- already kept, and what is kept stays
    refine Or.inl ⟨r, ?_, ?_⟩
    · rcases retainCurrent_eq_ok h.registry h.valid hr with ⟨-, rfl⟩ | ⟨hneeds, rfl⟩
      · exact hold
      · have hnone := (Registry.of_needsRetention hneeds).2
        have hne : g ≠ sys.db.commitSequence := by
          rintro rfl
          rw [hnone] at hold
          cases hold
        exact (Registry.retainedAt_retain hnone _ g).trans ((if_neg hne).trans hold)
    · simp only [Database.baseStores, Option.bind_some, hold]
  | none =>
    have hcurrent : g = sys.db.commitSequence := by
      by_contra hne
      have hsome := hkept hne
      rw [hold] at hsome
      cases hsome
    have hbase : sys.db.captured.tables.map RetainedTable.store = sys.db.baseStores (some g) := by
      simp only [Database.baseStores, Option.bind_some, hold, Database.captured, List.map_map]
      rfl
    rcases retainCurrent_eq_ok h.registry h.valid hr with ⟨hneeds, rfl⟩ | ⟨hneeds, rfl⟩
    · refine Or.inr ⟨?_, rfl, hold⟩
      by_contra hij
      -- another reader would have made the retention necessary
      have hneeded : sys.db.registry.needsRetention sys.db.commitSequence
          (sys.sessions i).snapshotHandle = true := by
        have hidx : sys.db.registry.findRetainedIndex sys.db.commitSequence = none := by
          rw [← Option.not_isSome_iff_eq_none, Registry.findRetainedIndex_isSome, ← hcurrent, hold]
          exact Bool.false_ne_true
        have hpos : sys.db.registry.activeRefCount sys.db.commitSequence ≠ 0 :=
          hcurrent ▸ h.counted.activeRefCount_ne_zero hj
        unfold Registry.needsRetention
        rw [hidx, Bool.and_eq_true, decide_eq_true_iff]
        refine ⟨?_, rfl⟩
        cases hhandle : (sys.sessions i).snapshotHandle with
        | none =>
          show 0 < sys.db.registry.activeRefCount sys.db.commitSequence
          omega
        | some handle =>
          simp only
          split
          · rename_i hcond
            have hi : (sys.sessions i).reading = some g := by
              rw [Session.reading, hhandle, hcurrent, ← hcond.2.1]
              rfl
            have htwo := h.counted.one_lt_activeRefCount hij hj hi
            rw [hcurrent] at htwo
            omega
          · omega
      rw [hneeds] at hneeded
      cases hneeded
    · have hnone := (Registry.of_needsRetention hneeds).2
      refine Or.inl ⟨sys.db.captured, ?_, hbase⟩
      exact (Registry.retainedAt_retain hnone _ g).trans (if_pos hcurrent)

end Keeping

end Shoveler
