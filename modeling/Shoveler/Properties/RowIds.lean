import Shoveler.Invariant.Steady

/-!
# Row ids

A transaction reserves the ids of its inserts when it stages them, from
the next id of the store at its first write, and a commit keeps an id that
is free. Free is not the same as never used: a row that was committed
under the id in between may have been deleted again. An id whose row is
gone comes back exactly when it is reserved like that
(`row_ids_never_reused`).
-/

namespace Shoveler

open Outcome List

/-- The ids of the committed rows of the table in a slot. -/
def System.idsAt (sys : System) (k : ℕ) : List RowId :=
  match sys.db.tables[k]? with
  | some t => t.store.ids
  | none => []

section Histories

variable (frontend : Frontend) (start : System)

/-- **An id whose row is gone**: some state of the run has a committed row
with the id, and its last state has none. -/
def Retired (events : List Event) (k : ℕ) (id : RowId) : Prop :=
  (∃ first, first <+: events ∧ id ∈ (start.run frontend first).idsAt k) ∧
    id ∉ (start.run frontend events).idsAt k

/-- **No id comes back** in a run. -/
def NeverReused (events : List Event) : Prop :=
  ∀ before between after, events = before ++ between ++ after → ∀ k id,
    Retired frontend start before k id → id ∉ (start.run frontend (before ++ between)).idsAt k

/-- **A session has reserved no id whose row is gone.** -/
def ReservesUnretired (events : List Event) (i : ℕ) : Prop :=
  ∀ e ∈ ((start.run frontend events).sessions i).transactions, ∀ r ∈ e.tx.inserts,
    ¬Retired frontend start events e.slot r.id

end Histories

/-! ## Ids below the next one -/

/-- An id that was handed out and that no row has. -/
def System.Spent (sys : System) (k : ℕ) (id : RowId) : Prop :=
  ∃ t, sys.db.tables[k]? = some t ∧ id ∉ t.store.ids ∧ id < t.store.nextId

theorem System.idsAt_eq {sys : System} {k : ℕ} {t : TableState}
    (h : sys.db.tables[k]? = some t) : sys.idsAt k = t.store.ids := by
  rw [System.idsAt, h]

theorem System.Spent.not_mem {sys : System} {k : ℕ} {id : RowId} (h : sys.Spent k id) :
    id ∉ sys.idsAt k := by
  obtain ⟨t, ht, hid, -⟩ := h
  rw [System.idsAt_eq ht]
  exact hid

/-- The ids after a publication: the old ones, those of the inserts, and
new ones. -/
theorem Transaction.mem_ids_of_publish {tx : Transaction} {s next : RowStore} (hs : s.Valid)
    (ht : tx.Ordered) (h : tx.publish s = .ok next) {id : RowId} (hid : id ∈ next.ids) :
    id ∈ s.ids ∨ id ∈ tx.insertIds ∨ s.nextId ≤ id := by
  obtain ⟨-, placed, hplaced, hrows⟩ := Transaction.publish_eq_ok hs ht h
  rw [RowStore.ids, hrows, Keyed.map_key_overlay, mem_append] at hid
  rcases hid with hid | hid
  · exact Or.inl (mem_of_mem_filter hid)
  · obtain ⟨r, hr, rfl⟩ := mem_map.1 hid
    obtain ⟨staged, hstaged, hplace⟩ := exists_left_of_forall₂ hplaced hr
    rcases hplace.fresh with heq | hge
    · rw [heq]
      exact Or.inr (Or.inl (mem_map_of_mem hstaged))
    · exact Or.inr (Or.inr hge)

/-- **A free id that was handed out is kept** by the insert that has
reserved it: the rows placed ahead of it have the ids they have reserved
themselves, or new ones. -/
theorem Transaction.mem_ids_of_insertAll {rs : List Row} {s next : RowStore} {id : RowId}
    (hlt : id < s.nextId) (hfree : id ∉ s.ids) (hmem : id ∈ rs.map Row.id)
    (h : rs.foldlM (fun next r => next.insertWithId (commitId next r) r.values) s = .ok next) :
    id ∈ next.ids := by
  induction rs generalizing s with
  | nil => cases hmem
  | cons r rs ih =>
    obtain ⟨c, hc, hrest⟩ := foldlM_cons_eq_ok.1 h
    obtain ⟨-, -, n, hn, rfl⟩ := RowStore.insertWithId_eq_ok.1 hc
    by_cases hid : r.id = id
    · have hkept : commitId s r = id := by
        rw [commitId, hid, if_pos]
        rw [RowStore.get_eq_none.2 hfree]
        rfl
      obtain ⟨placed, -, hrows⟩ := insertAll_eq_ok hrest
      rw [RowStore.ids, hrows, hkept]
      simp
    · have hne : commitId s r ≠ id := by
        intro heq
        rcases commitId_fresh (s := s) r with hown | hge
        · exact hid (hown.symm.trans heq)
        · rw [heq] at hge
          exact UInt64.lt_irrefl _ (UInt64.lt_of_lt_of_le hlt hge)
      refine ih (UInt64.lt_of_lt_of_le hlt (RowStore.nextIdAfter_eq_ok hn).1) ?_ ?_ hrest
      · rw [RowStore.ids, map_append, mem_append, not_or]
        exact ⟨hfree, fun hmem' => hne (mem_singleton.1 hmem').symm⟩
      · rw [map_cons, mem_cons] at hmem
        exact hmem.resolve_left fun heq => hid heq.symm

/-- So a publication gives the id to a row again. -/
theorem Transaction.mem_ids_of_reserved {tx : Transaction} {s next : RowStore} (hs : s.Valid)
    (ht : tx.Ordered) (h : tx.publish s = .ok next) {id : RowId} (hlt : id < s.nextId)
    (hfree : id ∉ s.ids) (hmem : id ∈ tx.insertIds) : id ∈ next.ids := by
  simp only [Transaction.publish, hs.clone, ok_bind, bind_eq_ok] at h
  obtain ⟨s₁, h₁, s₂, h₂, h⟩ := h
  obtain ⟨-, rfl⟩ := Transaction.publishable_of_loops hs ht h₁ h₂
  refine Transaction.mem_ids_of_insertAll (s := tx.afterUpdates s) hlt (fun hmem' => hfree ?_) hmem h
  obtain ⟨r, hr, rfl⟩ := mem_map.1 hmem'
  obtain ⟨r₀, hr₀, rfl⟩ := mem_map.1 hr
  have hkey : (Keyed.patch Row.id tx.updates r₀).id = r₀.id := Keyed.key_patch _ _
  rw [hkey]
  exact mem_map_of_mem (mem_of_mem_filter hr₀)

/-! ## Steps and runs -/

namespace System

variable {sys : System} {i k : ℕ} {id : RowId}

/-- **A spent id stays spent** through every event, unless a commit has
reserved it. -/
theorem Steady.spent_step (frontend : Frontend) (h : sys.Steady) {event : Event}
    (hddl : ¬event.Reshapes)
    (hcommit : ∀ i, event = .statement i .commit →
      ∀ e ∈ (sys.sessions i).transactions, e.slot = k → id ∉ e.tx.insertIds)
    (hspent : sys.Spent k id) : (sys.step frontend event).Spent k id := by
  obtain ⟨t, ht, hid, hlt⟩ := hspent
  obtain ⟨t', ht', hfollow⟩ :=
    getElem?_of_forall₂ (follows_step frontend h.toCoherent hddl) ht
  refine ⟨t', ht', ?_, UInt64.lt_of_lt_of_le hlt hfollow.2.nextId⟩
  by_cases hc : ∃ i, event = .statement i .commit
  · obtain ⟨i, rfl⟩ := hc
    rw [h.toCoherent.step_commit frontend i] at ht'
    rcases h.commit_slot ht ht' with rfl | ⟨e, he, hslot, -, hpub⟩
    · exact hid
    · intro hmem
      rcases Transaction.mem_ids_of_publish (h.valid.stores t (mem_of_getElem? ht))
        ((h.shaped i).ordered e he) hpub hmem with hold | hreserved | hnew
      · exact hid hold
      · exact hcommit i rfl e he hslot hreserved
      · exact UInt64.lt_irrefl _ (UInt64.lt_of_lt_of_le hlt hnew)
  · rw [tables_step frontend h.toCoherent hddl fun i heq => hc ⟨i, heq⟩, ht] at ht'
    obtain rfl := Option.some.inj ht'
    exact hid

/-- An id whose row is gone is spent. -/
theorem Steady.spent_of_retired (frontend : Frontend) (h : sys.Steady) {events : List Event}
    (hddl : ∀ event ∈ events, ¬event.Reshapes) (hret : Retired frontend sys events k id) :
    (sys.run frontend events).Spent k id := by
  obtain ⟨⟨first, ⟨rest, rfl⟩, hfirst⟩, hgone⟩ := hret
  rw [forall_mem_append] at hddl
  have hthere := steady_run frontend h hddl.1
  unfold idsAt at hfirst
  cases ht : (sys.run frontend first).db.tables[k]? with
  | none =>
    rw [ht] at hfirst
    cases hfirst
  | some t =>
    rw [ht] at hfirst
    have hrun : sys.run frontend (first ++ rest) = (sys.run frontend first).run frontend rest :=
      Run.run_append _ _ _ _
    obtain ⟨t', ht', hfollow⟩ :=
      getElem?_of_forall₂ (follows_run frontend hthere.toCoherent hddl.2) ht
    rw [hrun, idsAt_eq ht'] at hgone
    obtain ⟨r, hr, rfl⟩ := mem_map.1 hfirst
    have hlt := (hthere.valid.stores t (mem_of_getElem? ht)).below r hr
    rw [hrun]
    exact ⟨t', ht', hgone, UInt64.lt_of_lt_of_le hlt hfollow.2.nextId⟩

/-- **It stays so** as long as no commit has reserved an id whose row is
gone. The induction is on the events since, the last one apart. -/
theorem Steady.spent_run (frontend : Frontend) (h : sys.Steady) {before between : List Event}
    (hddl : ∀ event ∈ before ++ between, ¬event.Reshapes)
    (hcommit : ∀ done i rest, before ++ between = done ++ .statement i .commit :: rest →
      ReservesUnretired frontend sys done i)
    (hret : Retired frontend sys before k id) :
    (sys.run frontend (before ++ between)).Spent k id := by
  induction between using reverseRecOn with
  | nil =>
    rw [append_nil] at hddl ⊢
    exact h.spent_of_retired frontend hddl hret
  | append_singleton between event ih =>
    rw [← append_assoc] at hddl hcommit ⊢
    rw [forall_mem_append] at hddl
    have hspent := ih hddl.1 fun done i rest hsplit =>
      hcommit done i (rest ++ [event]) (by rw [hsplit, append_assoc]; rfl)
    have hrun : sys.run frontend (before ++ between ++ [event]) =
        (sys.run frontend (before ++ between)).step frontend event := Run.run_append _ _ _ _
    rw [hrun]
    refine (steady_run frontend h hddl.1).spent_step frontend (hddl.2 event (by simp)) ?_ hspent
    rintro i rfl e he rfl hmem
    obtain ⟨r, hr, rfl⟩ := mem_map.1 hmem
    -- the id was there before and is not there now
    obtain ⟨⟨first, hprefix, hfirst⟩, -⟩ := hret
    exact hcommit _ i [] rfl e he r hr
      ⟨⟨first, hprefix.trans (prefix_append _ _), hfirst⟩, hspent.not_mem⟩

/-- **A commit that goes through brings back what it has reserved.** -/
theorem Steady.mem_idsAt_of_reserved (frontend : Frontend) (h : sys.Steady)
    (hok : ((sys.sessions i).commit sys.db).2.2 = .ok ()) {e : TableTransaction}
    (he : e ∈ (sys.sessions i).transactions) {r : Row} (hr : r ∈ e.tx.inserts)
    (hspent : sys.Spent e.slot r.id) :
    r.id ∈ (sys.step frontend (.statement i .commit)).idsAt e.slot := by
  obtain ⟨t, t', ht, ht', hpub⟩ := h.commit_slot_of_ok hok he
  obtain ⟨t₀, ht₀, hid, hlt⟩ := hspent
  obtain rfl := Option.some.inj (ht.symm.trans ht₀)
  rw [h.toCoherent.step_commit frontend i, idsAt_eq ht']
  exact Transaction.mem_ids_of_reserved (h.valid.stores t (mem_of_getElem? ht))
    ((h.shaped i).ordered e he) hpub hlt hid (mem_map_of_mem hr)

end System

/-- **No id comes back as long as no commit has reserved an id whose row is
gone**, in every run that creates and drops no table; and where every
commit goes through this is needed. -/
theorem row_ids_never_reused (frontend : Frontend) {start : System}
    (hreach : start.Reachable frontend) (hrest : ∀ j, (start.sessions j).active = false)
    {events : List Event} (hddl : ∀ event ∈ events, ¬event.Reshapes) :
    ((∀ before i after, events = before ++ .statement i .commit :: after →
          ReservesUnretired frontend start before i) →
        NeverReused frontend start events) ∧
      ((∀ before i after, events = before ++ .statement i .commit :: after →
          (((start.run frontend before).sessions i).commit
            (start.run frontend before).db).2.2 = .ok ()) →
        NeverReused frontend start events →
        ∀ before i after, events = before ++ .statement i .commit :: after →
          ReservesUnretired frontend start before i) := by
  have hsteady := hreach.coherent.steady hrest
  constructor
  · intro hcommit before between after hsplit k id hret
    rw [hsplit, forall_mem_append] at hddl
    refine (hsteady.spent_run frontend hddl.1 (fun done i rest heq => ?_) hret).not_mem
    refine hcommit done i (rest ++ after) ?_
    rw [hsplit, heq, append_assoc]
    rfl
  · intro hok hnever before i after hsplit e he r hr hret
    have hbefore : ∀ event ∈ before, ¬event.Reshapes := fun event hmem =>
      hddl event (hsplit ▸ mem_append_left _ hmem)
    have hspent := hsteady.spent_of_retired frontend hbefore hret
    have hback := (System.steady_run frontend hsteady hbefore).mem_idsAt_of_reserved frontend
      (hok before i after hsplit) he hr hspent
    refine hnever before [.statement i .commit] after ?_ _ _ hret ?_
    · rw [hsplit, append_assoc]
      rfl
    · rw [show start.run frontend (before ++ [.statement i .commit]) =
        (start.run frontend before).step frontend (.statement i .commit) from
          Run.run_append _ _ _ _]
      exact hback

/-- Sessions 1 and 2 insert and session 3 deletes, one after the other. -/
def sequentialRun : List Event :=
  [Script.begin 2, Script.insert 2 "A" [some 2], Script.commit 2,
    Script.begin 3, Script.delete 3 "A", Script.commit 3,
    Script.begin 1, Script.insert 1 "A" [some 1], Script.commit 1]

/-- The id of the deleted row does not come back. -/
theorem row_ids_never_reused_sequential :
    Retired Script.frontend Script.twoTables (sequentialRun.take 6) 0 1 ∧
      NeverReused Script.frontend Script.twoTables sequentialRun := by
  refine ⟨⟨⟨sequentialRun.take 3, ⟨(sequentialRun.take 6).drop 3, rfl⟩, by decide +kernel⟩,
    by decide +kernel⟩, ?_⟩
  -- no reserved id was on a committed row before
  have hfresh : ∀ before ∈ sequentialRun.inits, ∀ i ∈ [1, 2, 3],
      ∀ e ∈ ((Script.twoTables.run Script.frontend before).sessions i).transactions,
      ∀ r ∈ e.tx.inserts, ∀ first ∈ before.inits,
      r.id ∉ (Script.twoTables.run Script.frontend first).idsAt e.slot := by
    decide +kernel
  refine (row_ids_never_reused Script.frontend Script.twoTables_reachable
    Script.twoTables_atRest (by decide +kernel)).1 fun before i after hsplit e he r hr hret => ?_
  have hi : i ∈ [1, 2, 3] := by
    have hmem : Event.statement i .commit ∈ sequentialRun := by simp [hsplit]
    simp [sequentialRun, Script.begin, Script.insert, Script.commit, Script.delete] at hmem
    simp only [mem_cons]
    omega
  obtain ⟨⟨first, hprefix, hfirst⟩, -⟩ := hret
  exact hfresh before ((mem_inits _ _).2 ⟨_, hsplit.symm⟩) i hi e he r hr first
    ((mem_inits _ _).2 hprefix) hfirst

/-! ### An id that comes back -/

/-- Session 2 commits a row and session 3 deletes it, while session 1 has
the id of that row reserved. -/
def reservedRun : List Event :=
  [Script.begin 1, Script.insert 1 "A" [some 1],
    Script.begin 2, Script.insert 2 "A" [some 2], Script.commit 2,
    Script.begin 3, Script.delete 3 "A", Script.commit 3]

/-- **The id of the deleted row comes back with the commit of session 1.** -/
theorem row_id_reused :
    1 ∈ (Script.twoTables.run Script.frontend (reservedRun.take 5)).idsAt 0 ∧
      (Script.twoTables.run Script.frontend reservedRun).idsAt 0 = [] ∧
      (Script.twoTables.run Script.frontend (reservedRun ++ [Script.commit 1])).idsAt 0 = [1] := by
  decide +kernel

end Shoveler
