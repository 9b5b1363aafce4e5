import Shoveler.Invariant.Steady

/-!
# A property of every row

What is to hold of every committed row has to hold of every row that may
come to be committed: of the rows the sessions have staged, and of the
rows of the generations that are kept, since a session stages what it
makes of a row of its snapshot (`System.Holding`). A property of single
rows that `INSERT` gives and `UPDATE` keeps is kept by every event of a
steady system (`Steady.holding_step`). `COMMIT` is the exception: it may
place a row under another id than the one it was staged with, and what
that does to the property has to be said.
-/

namespace Shoveler

open Outcome List

/-- A property of the rows of a table, by the table's key and
definition. -/
abbrev RowProperty := Bytes → TableDef → Row → Prop

/-! ## Staged rows -/

/-- The rows a transaction has staged have a property. -/
structure Transaction.AllStaged (tx : Transaction) (p : Row → Prop) : Prop where
  inserts : ∀ r ∈ tx.inserts, p r
  updates : ∀ r ∈ tx.updates, p r

namespace Transaction

variable {tx tx' : Transaction} {p : Row → Prop} {store : Result RowStore} {id : RowId}
variable {values : List Value}

theorem AllStaged.of_nil (hi : tx.inserts = []) (hu : tx.updates = []) : tx.AllStaged p where
  inserts := by
    rw [hi]
    exact forall_mem_nil _
  updates := by
    rw [hu]
    exact forall_mem_nil _

theorem AllStaged.insert (h : tx.AllStaged p) (hp : p ⟨tx.nextId, values⟩)
    (hins : tx.insert store values = .ok (id, tx')) : tx'.AllStaged p := by
  obtain ⟨-, s, -, -, -, n, -, rfl⟩ := insert_eq_ok.1 hins
  exact ⟨forall_mem_append.2 ⟨h.inserts, forall_mem_singleton.2 hp⟩, h.updates⟩

/-- Putting in a row that has the property. -/
theorem forall_mem_upsert {row : Row} {rows : List Row} (hp : p row) (h : ∀ r ∈ rows, p r) :
    ∀ r ∈ Keyed.upsert Row.id row rows, p r := by
  intro r hr
  rcases Keyed.mem_upsert hr with rfl | ⟨hold, -⟩
  · exact hp
  · exact h r hold

theorem AllStaged.update (h : tx.AllStaged p) (hord : tx.Ordered) (hp : p ⟨id, values⟩)
    (hupd : tx.update store id values = .ok tx') : tx'.AllStaged p := by
  obtain ⟨-, s, -, -, ⟨-, rfl⟩ | ⟨-, -, -, rfl⟩⟩ :=
    (update_eq_ok hord.inserts_nodup hord.updates_nodup).1 hupd
  · exact ⟨forall_mem_upsert hp h.inserts, h.updates⟩
  · exact ⟨h.inserts, forall_mem_upsert hp h.updates⟩

theorem AllStaged.delete (h : tx.AllStaged p) (hord : tx.Ordered)
    (hdel : tx.delete store id = .ok tx') : tx'.AllStaged p := by
  obtain ⟨-, ⟨-, rfl⟩ | ⟨-, s, -, -, -, rfl⟩⟩ :=
    (delete_eq_ok hord.inserts_nodup hord.updates_nodup).1 hdel
  · exact ⟨fun r hr => h.inserts r (mem_of_mem_filter hr), h.updates⟩
  · exact ⟨h.inserts, fun r hr => h.updates r (mem_of_mem_filter hr)⟩

/-- A row is left as it is or gives way to one that was staged. -/
theorem AllStaged.patch (h : tx.AllStaged p) {row : Row} (hp : p row) :
    p (Keyed.patch Row.id tx.updates row) := by
  unfold Keyed.patch
  cases hfind : tx.updates.find? (fun u => decide (u.id = row.id)) with
  | none => exact hp
  | some u => exact h.updates u (mem_of_find?_eq_some hfind)

/-- **What a session sees has the property** if its base has it. -/
theorem AllStaged.view (h : tx.AllStaged p) {base : List Row} (hbase : ∀ r ∈ base, p r) :
    ∀ r ∈ tx.view base, p r := by
  intro row hrow
  rcases Keyed.mem_overlay.1 hrow with ⟨r, hr, -, rfl⟩ | hins
  · exact h.patch (hbase r hr)
  · exact h.inserts row hins

end Transaction

/-- The rows a session has staged have a property, each with the table it
was staged for. -/
def Session.AllStaged (q : RowProperty) (tables : List TableState) (s : Session) : Prop :=
  ∀ e ∈ s.transactions, ∀ t ∈ tables, t.key = e.key → e.tx.AllStaged (q t.key t.store.table)

namespace Session

variable {q : RowProperty} {tables : List TableState} {s : Session}

theorem AllStaged.of_nil (h : s.transactions = []) : s.AllStaged q tables := by
  intro e he
  rw [h] at he
  cases he

theorem AllStaged.setTransaction (h : s.AllStaged q tables) {index : ℕ} {e : TableTransaction}
    (he : s.transactions[index]? = some e) {tx : Transaction}
    (htx : ∀ t ∈ tables, t.key = e.key → tx.AllStaged (q t.key t.store.table)) :
    (s.setTransaction index tx).AllStaged q tables := by
  intro e' he'
  rcases mem_setTransaction he he' with rfl | he'
  · exact htx
  · exact h e' he'

/-- The tables may be followed by others. -/
theorem AllStaged.follow {tables' : List TableState} (h : s.AllStaged q tables)
    (hfollow : List.Forall₂ Database.Follows tables tables') : s.AllStaged q tables' := by
  intro e he t' ht' hkey
  obtain ⟨t, ht, hf⟩ := exists_left_of_forall₂ hfollow ht'
  have hsame : t'.key = t.key := by rw [TableState.key, TableState.key, hf.1]
  rw [hsame, hf.2.table]
  exact h e he t ht (hsame.symm.trans hkey)

/-- A rollback takes rows away and adds none. -/
theorem allStaged_rollbackAll {entries : List TableTransaction}
    (h : ∀ e ∈ entries, ∀ t ∈ tables, t.key = e.key → e.tx.AllStaged (q t.key t.store.table)) :
    ∀ e ∈ (rollbackAll entries).1, ∀ t ∈ tables, t.key = e.key →
      e.tx.AllStaged (q t.key t.store.table) :=
  (System.rollbackAll_keeps (fun _ _ _ _ _ => .of_nil rfl rfl) entries).2 h

end Session

/-! ## The system -/

/-- **Every row has the property**: the committed ones, those of the
generations that are kept, and those the sessions have staged. -/
structure System.Holding (q : RowProperty) (sys : System) : Prop where
  committed : ∀ t ∈ sys.db.tables, ∀ r ∈ t.store.rows, q t.key t.store.table r
  retained : ∀ g ∈ sys.db.registry.retained, ∀ rt ∈ g.tables, ∀ r ∈ rt.store.rows,
    q (foldCase rt.table.name) rt.store.table r
  staged : ∀ i, (sys.sessions i).AllStaged q sys.db.tables

/-- **A property that `INSERT` gives and `UPDATE` keeps**, where the
statements meet a condition. -/
structure KeepsRows (G : Ast.Statement → Prop) (q : RowProperty) : Prop where
  inserts : ∀ {table statement id values}, G (.insert statement) →
    rowValuesForInsert table statement id = .ok values →
    q (foldCase statement.tableName) table ⟨id, values⟩
  updates : ∀ {table statement row values}, G (.update statement) →
    q (foldCase statement.tableName) table row →
    applyAssignments table row statement.assignments row.values = .ok values →
    q (foldCase statement.tableName) table ⟨row.id, values⟩

/-- The statements an event performs meet a condition; for a call these are
the statements of the procedure. -/
def System.Performs (G : Ast.Statement → Prop) (sys : System) : Event → Prop
  | .statement _ (.call call) => CallMeets sys.db G call
  | .statement _ statement => G statement
  | _ => True

namespace System

variable {sys : System} {i : ℕ} {q : RowProperty} {G : Ast.Statement → Prop}

/-- **The rows of a base have the property.** -/
theorem Holding.base (h : sys.Holding q) (hsteady : sys.Steady) {reading : Option Generation}
    {k : ℕ} {t : TableState} (ht : sys.db.tables[k]? = some t) {base : RowStore}
    (hbase : (sys.db.baseStores reading)[k]? = some base) :
    ∀ r ∈ base.rows, q t.key t.store.table r := by
  unfold Database.baseStores at hbase
  split at hbase
  · rename_i g hg
    rw [getElem?_map, Option.map_eq_some_iff] at hbase
    obtain ⟨rt, hrt, rfl⟩ := hbase
    have hmem : g ∈ sys.db.registry.retained := by
      obtain ⟨_, _, hfind⟩ := Option.bind_eq_some_iff.1 hg
      exact mem_of_find?_eq_some hfind
    obtain ⟨t', ht', hprec⟩ := getElem?_of_forall₂ (hsteady.precede g hmem) hrt
    obtain rfl := Option.some.inj (ht.symm.trans ht')
    rw [← hprec.name, hprec.publishes.table]
    exact h.retained g hmem rt (mem_of_getElem? hrt)
  · rw [getElem?_map, ht, Option.map_some, Option.some.injEq] at hbase
    subst hbase
    exact h.committed t (mem_of_getElem? ht)

/-- What the session of a staging statement keeps. -/
def StagesHolding (q : RowProperty) (sys : System) (i : ℕ) (s : Session) : Prop :=
  sys.StagesInPlace i s ∧ s.AllStaged q sys.db.tables

/-- What its loops carry along: the rows still to visit have the
property. -/
def VisitsHolding (q : RowProperty) (sys : System) (i : ℕ) (table : TableState) (index : ℕ)
    (rows : List Row) (s : Session) : Prop :=
  sys.Visits i table index rows s ∧ s.AllStaged q sys.db.tables ∧ table ∈ sys.db.tables ∧
    (∃ e, s.transactions[index]? = some e ∧ e.key = table.key) ∧
    ∀ r ∈ rows, q table.key table.store.table r

/-- A table of the name of another is the other. -/
theorem Steady.table_unique (h : sys.Steady) {t t' : TableState} (ht : t ∈ sys.db.tables)
    (ht' : t' ∈ sys.db.tables) (hkey : t.key = t'.key) : t = t' := by
  obtain ⟨k, hk⟩ := mem_iff_getElem?.1 ht
  obtain ⟨k', hk'⟩ := mem_iff_getElem?.1 ht'
  exact (slot_unique h.valid.stateKeys_nodup hk hk' hkey).2

/-- A round of a loop that changes the transaction at the row in view. -/
theorem VisitsHolding.next {s : Session} {table : TableState} {index : ℕ} {row : Row}
    {rows : List Row} (h : sys.VisitsHolding q i table index (row :: rows) s)
    (hsteady : sys.Steady) {e : TableTransaction} {tx : Transaction}
    (he : s.transactions[index]? = some e)
    (hvisits : sys.Visits i table index rows (s.setTransaction index tx))
    (htx : e.tx.AllStaged (q table.key table.store.table) →
      tx.AllStaged (q table.key table.store.table)) :
    sys.VisitsHolding q i table index rows (s.setTransaction index tx) := by
  obtain ⟨-, hstaged, hmem, ⟨e', he', hkey⟩, hrows⟩ := h
  obtain rfl := Option.some.inj (he'.symm.trans he)
  refine ⟨hvisits, hstaged.setTransaction he fun t ht htkey => ?_, hmem,
    ⟨_, Session.getElem?_setTransaction he tx, hkey⟩, (forall_mem_cons.1 hrows).2⟩
  obtain rfl := hsteady.table_unique ht hmem (htkey.trans hkey)
  exact htx (hstaged e' (mem_of_getElem? he) t ht htkey)

/-- **The steps of a staging statement keep the property.** -/
theorem Holding.guardedRule (h : sys.Holding q) (hsteady : sys.Steady) (hq : KeepsRows G q)
    (i : ℕ) : GuardedRule sys.db G (sys.StagesHolding q i) (sys.VisitsHolding q i) where
  opens := by
    rintro s slot table name ⟨hs, hstaged⟩ ha ht hnew
    refine ⟨(hsteady.stagingRule i).opens hs ha ht hnew, ?_⟩
    refine forall_mem_append.2 ⟨hstaged, forall_mem_singleton.2 ?_⟩
    exact fun t _ _ => .of_nil rfl rfl
  inserts := by
    rintro s slot table index e statement values id tx' hG ⟨hs, hstaged⟩ ha ht he hkey hv hins
    obtain ⟨-, hslot, hname⟩ := Database.getTableState_eq_some ht
    refine ⟨(hsteady.stagingRule i).inserts hs ha ht he hkey hv hins,
      hstaged.setTransaction he fun t hmem htkey => ?_⟩
    have hold := hstaged e (mem_of_getElem? he) t hmem htkey
    obtain rfl := hsteady.table_unique hmem (mem_of_getElem? hslot) (htkey.trans hkey)
    refine hold.insert ?_ hins
    rw [hname]
    exact hq.inserts hG hv
  scans := by
    rintro s slot table name index e rows ⟨hs, hstaged⟩ ha ht he hkey hscan
    obtain ⟨-, hslot, -⟩ := Database.getTableState_eq_some ht
    have hmem := mem_of_getElem? hslot
    have hentry := mem_of_getElem? he
    refine ⟨(hsteady.stagingRule i).scans hs ha ht he hkey hscan, hstaged, hmem,
      ⟨e, he, hkey⟩, ?_⟩
    -- a scan sees rows of a generation that is kept, with what the session has staged over them
    obtain ⟨-, base, hbase, -, rfl⟩ := hsteady.scanRowsForTable hs hslot hentry hkey hscan
    obtain ⟨t, hin⟩ := hs.2 e hentry
    obtain rfl := hsteady.table_unique hmem (mem_of_getElem? hin.slot)
      (hkey.symm.trans hin.key.symm)
    exact (hstaged e hentry table hmem hkey.symm).view (h.base hsteady hin.slot hbase)
  skips := by
    rintro s table index row rows ⟨hvisits, hstaged, hmem, he, hrows⟩
    exact ⟨(hsteady.stagingRule i).skips hvisits, hstaged, hmem, he,
      (forall_mem_cons.1 hrows).2⟩
  updates := by
    rintro s table index e row rows statement values tx' hG hname hI he hv hupd
    refine hI.next hsteady he ((hsteady.stagingRule i).updates hI.1 he hupd) fun hold => ?_
    obtain ⟨t, hin⟩ := hI.1.1.2 e (mem_of_getElem? he)
    have hrow := (forall_mem_cons.1 hI.2.2.2.2).1
    refine hold.update hin.staged.toOrdered ?_ hupd
    rw [hname] at hrow ⊢
    exact hq.updates hG hrow hv
  deletes := by
    rintro s table index e row rows tx' hI he hdel
    refine hI.next hsteady he ((hsteady.stagingRule i).deletes hI.1 he hdel) fun hold => ?_
    obtain ⟨t, hin⟩ := hI.1.1.2 e (mem_of_getElem? he)
    exact hold.delete hin.staged.toOrdered hdel
  ends := fun hI => ⟨hI.1.1, hI.2.1⟩

/-! ## Events -/

/-- One session changes and the tables follow; what is kept was kept before
or is the current generation. -/
theorem Holding.update (h : sys.Holding q) (hvalid : sys.db.Valid) {db' : Database} {s' : Session}
    (hfollow : List.Forall₂ Database.Follows sys.db.tables db'.tables)
    (hcommitted : ∀ t ∈ db'.tables, ∀ r ∈ t.store.rows, q t.key t.store.table r)
    (hretained : ∀ g ∈ db'.registry.retained,
      g ∈ sys.db.registry.retained ∨ g = sys.db.captured)
    (hself : s'.AllStaged q db'.tables) :
    (sys.put i db' s').Holding q := by
  refine ⟨hcommitted, fun g hg => ?_, fun j => ?_⟩
  · rcases hretained g hg with hold | rfl
    · exact h.retained g hold
    · intro rt hrt
      obtain ⟨t, ht, rfl⟩ := mem_map.1 hrt
      rw [← hvalid.named t ht]
      exact h.committed t ht
  · by_cases hj : j = i
    · subst hj
      simpa using hself
    · simpa [hj] using (h.staged j).follow hfollow

/-- The same where the tables stay as they are and nothing more is kept. -/
theorem Holding.same (h : sys.Holding q) (hvalid : sys.db.Valid) {db' : Database} {s' : Session}
    (htables : db'.tables = sys.db.tables)
    (hretained : ∀ g ∈ db'.registry.retained, g ∈ sys.db.registry.retained)
    (hself : s'.AllStaged q sys.db.tables) :
    (sys.put i db' s').Holding q :=
  h.update hvalid (by rw [htables]; exact Database.follows_refl _) (by rw [htables]; exact h.committed)
    (fun g hg => Or.inl (hretained g hg)) (by rw [htables]; exact hself)

theorem Holding.closes (h : sys.Holding q) (hco : sys.Coherent) {s' : Session}
    (hs : s'.transactions = []) :
    (sys.release i s').Holding q :=
  h.same hco.valid rfl (fun _ hg => mem_retained_releaseHandle hco hg) (.of_nil hs)

/-- Where no session is active nothing is staged and nothing is kept. -/
theorem Coherent.holding (h : sys.Coherent) (hrest : ∀ j, (sys.sessions j).active = false)
    (hcommitted : ∀ t ∈ sys.db.tables, ∀ r ∈ t.store.rows, q t.key t.store.table r) :
    sys.Holding q := by
  refine ⟨hcommitted, fun g hg => ?_, fun j => .of_nil ((h.shaped j).closed (hrest j)).2.2⟩
  rw [h.retained_eq_nil hrest] at hg
  cases hg

/-- Creating or dropping a table leaves the sessions alone. -/
theorem sessions_reshape (frontend : Frontend) {event : Event} (hddl : event.Reshapes) :
    (sys.step frontend event).sessions = sys.sessions := by
  unfold Event.Reshapes at hddl
  split at hddl
  · exact Function.update_eq_self _ _
  · exact Function.update_eq_self _ _
  · exact hddl.elim

/-- Creating or dropping a table adds no row. -/
theorem Holding.committed_reshape (frontend : Frontend) (h : sys.Holding q) (hvalid : sys.db.Valid)
    {event : Event} (hddl : event.Reshapes) :
    ∀ t ∈ (sys.step frontend event).db.tables, ∀ r ∈ t.store.rows, q t.key t.store.table r := by
  unfold Event.Reshapes at hddl
  split at hddl
  · rename_i i statement
    show ∀ t ∈ (orKeep sys.db (sys.db.createTable statement)).1.tables, _
    cases hc : sys.db.createTable statement with
    | error e => exact h.committed
    | ok db' =>
      rcases Database.createTable_eq_ok hvalid hc with rfl | ⟨spec, table, -, -, -, -, rfl⟩
      · exact h.committed
      · refine forall_mem_append.2 ⟨h.committed, forall_mem_singleton.2 ?_⟩
        exact forall_mem_nil _
  · rename_i i statement
    show ∀ t ∈ (orKeep sys.db (sys.db.dropTable statement)).1.tables, _
    cases hd : sys.db.dropTable statement with
    | error e => exact h.committed
    | ok db' =>
      rcases Database.dropTable_eq_ok hvalid hd with rfl | ⟨index, -, rfl⟩
      · exact h.committed
      · exact fun t ht => h.committed t (mem_of_mem_eraseIdx ht)
  · exact hddl.elim

/-- A session that stages. -/
theorem Holding.stages (h : sys.Holding q) (hvalid : sys.db.Valid) {s' : Session}
    (hs : sys.StagesHolding q i s') :
    (sys.put i sys.db s').Holding q :=
  h.same hvalid rfl (fun _ hg => hg) hs.2

/-- **Every event but the creation and the dropping of a table keeps the
property**, if a commit leaves rows that have it. -/
theorem Steady.holding_step (frontend : Frontend) (hsteady : sys.Steady) (h : sys.Holding q)
    (hq : KeepsRows G q) (hmat : Materializes G) {event : Event} (hG : sys.Performs G event)
    (hddl : ¬event.Reshapes)
    (hcommit : ∀ i, event = .statement i .commit →
      ∀ t ∈ ((sys.sessions i).commit sys.db).1.tables, ∀ r ∈ t.store.rows,
        q t.key t.store.table r) :
    (sys.step frontend event).Holding q := by
  have hco := hsteady.toCoherent
  have hrule := h.guardedRule hsteady hq
  have hstart : ∀ i, sys.StagesHolding q i (sys.sessions i) := fun i =>
    ⟨⟨⟨.refl _, hco.shaped i⟩, hsteady.entries i⟩, h.staged i⟩
  have heffect := hco.effect frontend event
  generalize hnext : sys.step frontend event = sys' at heffect ⊢
  cases heffect with
  | refused => exact h
  | begins i => exact h.same hco.valid rfl (fun g hg => hg) (h.staged i)
  | halts i transactions e _ hr =>
    have hkeep := Session.allStaged_rollbackAll (h.staged i)
    rw [hr] at hkeep
    exact h.same hco.valid rfl (fun g hg => hg) hkeep
  | rollsBack | idles | ends => exact h.closes hco rfl
  | stopped i registry tables transactions e _ hr hp hc =>
    have hfollow := follows_commit (hco.commit_outcome i)
    have hrows := hcommit i rfl
    rw [hc] at hfollow hrows
    refine h.update hco.valid hfollow hrows (fun g hg => hco.mem_retained_retain hr hg) ?_
    -- what was published is over, and the rest is as it was
    obtain ⟨done, entry, rest, hsplit, -, -, rfl⟩ := publishAll_eq_error (hsteady.slots_nodup i) hp
    refine forall_mem_append.2 ⟨fun e he t _ _ => ?_, fun e he => ?_⟩
    · obtain ⟨d, -, rfl⟩ := mem_map.1 he
      exact .of_nil rfl rfl
    · refine ((h.staged i).follow hfollow) e ?_
      rw [hsplit]
      exact mem_append_right _ he
  | published i registry tables transactions _ hr hp s' hs hc =>
    have hfollow := follows_commit (hco.commit_outcome i)
    have hrows := hcommit i rfl
    rw [hc] at hfollow hrows
    refine h.update hco.valid hfollow hrows (fun g hg => ?_) (.of_nil (by rw [hs]; rfl))
    exact hco.mem_retained_retain hr (mem_retained_releaseHandle hco hg)
  | createTable | dropTable => exact absurd trivial hddl
  | defines i statement _ db' hs =>
    refine ⟨hs.tables ▸ h.committed, ?_, hs.tables ▸ h.staged⟩
    rw [hs.registry]
    exact h.retained
  | drains => exact ⟨h.committed, h.retained, h.staged⟩
  | stages i statement honly =>
    rw [← hnext]
    cases statement with
    | call call => exact h.stages hco.valid ((hrule i).executeCall hmat frontend (hstart i) hG)
    | insert | update | delete | select =>
      exact h.stages hco.valid ((hrule i).executeDml frontend (hstart i) hG)
    | _ => cases honly

end System

end Shoveler
