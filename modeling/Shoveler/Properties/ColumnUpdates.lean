import Shoveler.Invariant.Isolated
import Shoveler.Properties.VisibleRows

/-!
# Column updates

`UPDATE` stages the whole row, as its session sees it, with the assigned
columns changed, and `COMMIT` puts the image in the place of the live row.
So a commit takes back what others have committed to a row meanwhile, in
columns it never assigned, exactly where it has an image of the row that
is older than their commit (`no_column_update_lost`,
`column_update_lost`).
-/

namespace Shoveler

open List

variable {event : Event} {events : List Event} {k : ℕ} {Q : ℕ → Row → Prop}

/-! ## What an `UPDATE` changes -/

/-- **The rows an `UPDATE` of a session stages**: those the session sees in
the table that match, as far as the loop gets. -/
def System.Rewrites (sys : System) (i : ℕ) (statement : Ast.UpdateStatement) (k : ℕ)
    (id : RowId) : Prop :=
  ∃ table done row rest n, (sys.sessions i).active = true ∧
    sys.db.getTableState statement.tableName = some (k, table) ∧
    scanRowsForTable sys.db (sys.sessions i) table = .ok (done ++ row :: rest) ∧ row.id = id ∧
    matchesWhere table.store.table row statement.whereClause = .ok true ∧
    (stageUpdates (storeAt sys.db.tables ((sys.sessions i).transactionFor k table).2.2.slot)
      table.store.table statement (done ++ [row])
      ((sys.sessions i).transactionFor k table).2.2).2 = .ok n

/-- **The columns it assigns** in such a row. -/
def System.Assigns (sys : System) (i : ℕ) (statement : Ast.UpdateStatement) (k : ℕ) (id : RowId)
    (c : ℕ) : Prop :=
  sys.Rewrites i statement k id ∧ ∃ table a, sys.db.tables[k]? = some table ∧
    a ∈ statement.assignments ∧ table.store.table.columnIndex a.column = some c

/-- A row that some `UPDATE` of the session has staged in a run. -/
def System.Rewritten (frontend : Frontend) (start : System) (events : List Event) (i k : ℕ)
    (id : RowId) : Prop :=
  ∃ before statement after, events = before ++ .statement i (.update statement) :: after ∧
    (start.run frontend before).Rewrites i statement k id

/-- A column of a row that some `UPDATE` of the session has assigned in a
run. -/
def System.Assigned (frontend : Frontend) (start : System) (events : List Event) (i k : ℕ)
    (id : RowId) (c : ℕ) : Prop :=
  ∃ before statement after, events = before ++ .statement i (.update statement) :: after ∧
    (start.run frontend before).Assigns i statement k id c

/-! ## Images -/

/-- **An image of a row of the base**: the row was staged, and it differs
from the row of the base only in columns that were assigned. -/
structure ImageOf (stores : List RowStore) (rewritten : ℕ → RowId → Prop)
    (assigned : ℕ → RowId → ℕ → Prop) (k : ℕ) (u : Row) : Prop where
  rewritten : rewritten k u.id
  base : ∃ store r, stores[k]? = some store ∧ r ∈ store.rows ∧ r.id = u.id ∧
    ∀ c, u.values[c]? = r.values[c]? ∨ assigned k u.id c

/-- Lists that hold images and nothing else. -/
structure Transaction.OnlyImages (tx : Transaction) (Q : Row → Prop) : Prop where
  inserts : tx.inserts = []
  deletes : tx.deletes = []
  updates : ∀ u ∈ tx.updates, Q u

/-- **A session that has only updated.** -/
def Session.Images (Q : ℕ → Row → Prop) (s : Session) : Prop :=
  ∀ e ∈ s.transactions, e.tx.OnlyImages (Q e.slot)

theorem ImageOf.mono {stores : List RowStore} {rewritten rewritten' : ℕ → RowId → Prop}
    {assigned assigned' : ℕ → RowId → ℕ → Prop} {u : Row}
    (h : ImageOf stores rewritten assigned k u) (hr : ∀ k id, rewritten k id → rewritten' k id)
    (ha : ∀ k id c, assigned k id c → assigned' k id c) :
    ImageOf stores rewritten' assigned' k u := by
  obtain ⟨store, r, hstore, hmem, hid, hcols⟩ := h.base
  exact ⟨hr _ _ h.rewritten, store, r, hstore, hmem, hid, fun c => (hcols c).imp_right (ha _ _ _)⟩

theorem Session.Images.mono {Q' : ℕ → Row → Prop} {s : Session} (h : s.Images Q)
    (hQ : ∀ k u, Q k u → Q' k u) : s.Images Q' := by
  intro e he
  have hold := h e he
  exact ⟨hold.inserts, hold.deletes, fun u hu => hQ _ u (hold.updates u hu)⟩

theorem Session.Images.of_nil {s : Session} (h : s.transactions = []) :
    s.Images Q := by
  intro e he
  rw [h] at he
  cases he

/-- An update of a row that is no local insert adds its image. -/
theorem Transaction.OnlyImages.update {tx tx' : Transaction} {Q : Row → Prop}
    {store : Result RowStore} {id : RowId} {values : List Value} (h : tx.OnlyImages Q)
    (hord : tx.Ordered) (hQ : Q ⟨id, values⟩) (hu : tx.update store id values = .ok tx') :
    tx'.OnlyImages Q := by
  have hnone : id ∉ tx.insertIds := by
    rw [Transaction.insertIds, h.inserts]
    exact not_mem_nil
  obtain ⟨-, s, -, -, ⟨hid, -⟩ | ⟨-, -, -, rfl⟩⟩ :=
    (Transaction.update_eq_ok hord.inserts_nodup hord.updates_nodup).1 hu
  · exact absurd hid hnone
  · refine ⟨h.inserts, h.deletes, fun u hmem => ?_⟩
    rcases Keyed.mem_upsert hmem with rfl | ⟨hold, -⟩
    · exact hQ
    · exact h.updates u hold

/-- A row that is seen is one of the base or the image of one. -/
theorem Transaction.OnlyImages.view {tx : Transaction} {Q : Row → Prop} (h : tx.OnlyImages Q)
    {rows : List Row} {row : Row} (hrow : row ∈ tx.view rows) :
    row ∈ rows ∨ ∃ r ∈ rows, r.id = row.id ∧ Q row := by
  rw [Transaction.view, h.inserts, h.deletes] at hrow
  rcases Keyed.mem_overlay.1 hrow with ⟨r, hr, -, rfl⟩ | hnil
  · have hid : (Keyed.patch Row.id tx.updates r).id = r.id := Keyed.key_patch tx.updates r
    by_cases hmem : r.id ∈ tx.updateIds
    · refine Or.inr ⟨r, hr, hid.symm, h.updates _ ?_⟩
      unfold Keyed.patch
      cases hfind : tx.updates.find? (fun u => decide (u.id = r.id)) with
      | none => exact absurd hmem (Keyed.find?_eq_none.1 hfind)
      | some u' => exact mem_of_find?_eq_some hfind
    · rw [Keyed.patch_of_not_mem hmem]
      exact Or.inl hr
  · cases hnil

/-- `BEGIN` and `UPDATE`. -/
def Event.Updates : Event → Prop
  | .statement _ .begin => True
  | .statement _ (.update _) => True
  | _ => False

theorem Event.Updates.cases (h : event.Updates) :
    (∃ j, event = .statement j .begin) ∨ ∃ j statement, event = .statement j (.update statement) := by
  unfold Event.Updates at h
  split at h
  · exact Or.inl ⟨_, rfl⟩
  · exact Or.inr ⟨_, _, rfl⟩
  · exact h.elim

theorem Event.Updates.not_reshapes (h : event.Updates) : ¬event.Reshapes := by
  rcases h.cases with ⟨j, rfl⟩ | ⟨j, statement, rfl⟩ <;> exact id

theorem Event.Updates.ne_commit (h : event.Updates) (i : ℕ) :
    event ≠ .statement i .commit := by
  rintro rfl
  exact h

theorem Event.Updates.commitsClean (h : event.Updates) (sys : System) :
    CommitsClean sys event := by
  rcases h.cases with ⟨j, rfl⟩ | ⟨j, statement, rfl⟩ <;> trivial

namespace System

variable {sys : System} {i : ℕ} {rewritten : ℕ → RowId → Prop} {assigned : ℕ → RowId → ℕ → Prop}

/-- **The rows the session sees** differ from those of its base in columns
it has assigned. -/
theorem Isolated.scan_images (h : sys.Isolated) (ha : (sys.sessions i).active = true)
    (hi : (sys.sessions i).Images
      (ImageOf (sys.db.baseStores (sys.sessions i).reading) rewritten assigned))
    {k : ℕ} {t : TableState} (ht : sys.db.tables[k]? = some t) {rows : List Row}
    (hscan : Shoveler.scanRowsForTable sys.db (sys.sessions i) t = .ok rows) :
    ∃ base, (sys.db.baseStores (sys.sessions i).reading)[k]? = some base ∧
      ∀ row ∈ rows, ∃ r ∈ base.rows, r.id = row.id ∧
        ∀ c, row.values[c]? = r.values[c]? ∨ assigned k row.id c := by
  obtain ⟨base, hbase, hsees⟩ := h.scan_eq ha ht
  obtain rfl := Except.ok.inj (hscan.symm.trans hsees)
  refine ⟨base, hbase, fun row hrow => ?_⟩
  have hself : row ∈ base.rows → ∃ r ∈ base.rows, r.id = row.id ∧
      ∀ c, row.values[c]? = r.values[c]? ∨ assigned k row.id c :=
    fun hmem => ⟨row, hmem, rfl, fun c => Or.inl rfl⟩
  unfold Session.overlayRows at hrow
  cases htx : (sys.sessions i).transactionForRead t.name with
  | none =>
    rw [htx] at hrow
    exact hself hrow
  | some tx =>
    rw [htx] at hrow
    obtain ⟨e, hfind, rfl⟩ := Option.map_eq_some_iff.1 htx
    have he : e ∈ (sys.sessions i).transactions := mem_of_find?_eq_some hfind
    have hkey : e.key = t.key := namesEqual_iff.1 (by have := find?_some hfind; exact this)
    obtain ⟨t', hin⟩ := h.entries i e he
    obtain ⟨hslot, -⟩ :=
      slot_unique h.valid.stateKeys_nodup ht hin.slot (hkey.symm.trans hin.key.symm)
    rcases (hi e he).view hrow with hmem | ⟨-, -, -, himage⟩
    · exact hself hmem
    · obtain ⟨store, r, hstore, hr, hid, hcols⟩ := himage.base
      rw [← hslot, hbase] at hstore
      obtain rfl := Option.some.inj hstore
      rw [← hslot] at hcols
      exact ⟨r, hr, hid, hcols⟩

/-- The transaction an `UPDATE` works on. -/
theorem Isolated.transactionFor_images (h : sys.Isolated) (hi : (sys.sessions i).Images Q)
    {t : TableState} (ht : sys.db.tables[k]? = some t) :
    ∃ s' index e, (sys.sessions i).transactionFor k t = (s', index, e.tx) ∧
      Session.Opened sys.db (sys.sessions i) s' ∧ s'.transactions[index]? = some e ∧
      e.slot = k ∧ e.tx.Ordered ∧ s'.Images Q := by
  rcases (sys.sessions i).transactionFor_cases k t with ⟨index, e, he, hkey, heq⟩ | ⟨hnew, heq⟩
  · have hmem := mem_of_getElem? he
    obtain ⟨t', hin⟩ := h.entries i e hmem
    obtain ⟨hslot, -⟩ :=
      slot_unique h.valid.stateKeys_nodup ht hin.slot (hkey.symm.trans hin.key.symm)
    exact ⟨_, index, e, heq, .same, he, hslot.symm, hin.staged.toOrdered, hi⟩
  · refine ⟨_, _, ⟨t.name, .begin k t.store⟩, heq, .opened k t hnew,
      by rw [getElem?_concat_length], rfl, .of_nil rfl rfl rfl, fun e he => ?_⟩
    rcases mem_append.1 he with he | he
    · exact hi e he
    · rw [mem_singleton] at he
      subst he
      exact ⟨rfl, rfl, fun u hu => by cases hu⟩

/-- **An `UPDATE` stages images of rows of the base.** -/
theorem Isolated.images_update (h : sys.Isolated) (ha : (sys.sessions i).active = true)
    {statement : Ast.UpdateStatement}
    (hr : ∀ k id, sys.Rewrites i statement k id → rewritten k id)
    (hc : ∀ k id c, sys.Assigns i statement k id c → assigned k id c)
    (hi : (sys.sessions i).Images
      (ImageOf (sys.db.baseStores (sys.sessions i).reading) rewritten assigned)) :
    (executeUpdate sys.db (sys.sessions i) statement).1.Images
      (ImageOf (sys.db.baseStores (sys.sessions i).reading) rewritten assigned) := by
  unfold executeUpdate stageRows
  rw [if_neg (by simp [ha])]
  split
  · exact hi
  · rename_i k t hfound
    obtain ⟨-, ht, -⟩ := Database.getTableState_eq_some hfound
    obtain ⟨s', index, e, heq, hopened, he, hslot, hord, hi'⟩ := h.transactionFor_images hi ht
    simp only [heq, hopened.scan]
    split
    · exact hi'
    · rename_i rows hscan
      obtain ⟨base, hbase, hrows⟩ := h.scan_images ha hi ht hscan
      -- the loop keeps the slot, the order of the lists, and that they hold images alone
      have hloop : ∀ tx' : Transaction, tx' = (stageUpdates (storeAt sys.db.tables e.tx.slot)
          t.store.table statement rows e.tx).1 →
          tx'.slot = k ∧ tx'.Ordered ∧ tx'.OnlyImages
            (ImageOf (sys.db.baseStores (sys.sessions i).reading) rewritten assigned k) := by
        rintro tx' rfl
        rw [stageUpdates_eq_sweep]
        refine Sweep.invariant (I := fun tx : Transaction => tx.slot = k ∧ tx.Ordered ∧ tx.OnlyImages
            (ImageOf (sys.db.baseStores (sys.sessions i).reading) rewritten assigned k))
          ⟨hslot, hord, hslot ▸ hi' e (mem_of_getElem? he)⟩ ?_
        rintro done row rest n tx₁ tx₂ rfl hgets ⟨hslot₁, hord₁, himages₁⟩ hstep
        obtain ⟨hwhere, values, hvalues, hupdate⟩ := updateStep_eq_some hstep
        have hrewrites : sys.Rewrites i statement k row.id := by
          refine ⟨t, done, row, rest, n, ha, hfound, hscan, rfl, hwhere, ?_⟩
          rw [heq, stageUpdates_eq_sweep]
          exact hgets
        obtain ⟨r, hmem, hid, hcols⟩ := hrows row (by simp)
        have himage : ImageOf (sys.db.baseStores (sys.sessions i).reading) rewritten assigned k
            ⟨row.id, values⟩ := by
          refine ⟨hr _ _ hrewrites, base, r, hbase, hmem, hid, fun c => ?_⟩
          rcases applyAssignments_getElem? hvalues c with hsame | ⟨a, hassign, hcolumn⟩
          · rw [hsame]
            exact hcols c
          · exact Or.inr (hc _ _ _ ⟨hrewrites, t, a, ht, hassign, hcolumn⟩)
        exact ⟨(Transaction.update_frame hupdate).1.trans hslot₁, hord₁.update hupdate,
          himages₁.update hord₁ himage hupdate⟩
      obtain ⟨hslot', -, himages⟩ := hloop _ rfl
      intro e' he'
      rcases Session.mem_setTransaction he he' with rfl | hold
      · have hk : TableTransaction.slot { e with tx := (stageUpdates
            (storeAt sys.db.tables e.tx.slot) t.store.table statement rows e.tx).1 } = k := hslot'
        rw [hk]
        exact himages
      · exact hi' e' hold

/-! ## Whole runs -/

/-- What the history says of a row goes on to hold. -/
theorem Rewritten.append {frontend : Frontend} {start : System} {id : RowId}
    (h : start.Rewritten frontend events i k id) (later : List Event) :
    start.Rewritten frontend (events ++ later) i k id := by
  obtain ⟨before, statement, after, rfl, hr⟩ := h
  exact ⟨before, statement, after ++ later, by simp, hr⟩

theorem Assigned.append {frontend : Frontend} {start : System} {id : RowId} {c : ℕ}
    (h : start.Assigned frontend events i k id c) (later : List Event) :
    start.Assigned frontend (events ++ later) i k id c := by
  obtain ⟨before, statement, after, rfl, hr⟩ := h
  exact ⟨before, statement, after ++ later, by simp, hr⟩

/-- What `BEGIN` and `UPDATE` do to a session: only its own `UPDATE` changes
what it has staged, none of them closes it, and only its own `BEGIN` makes
it active. -/
theorem Coherent.session_step (frontend : Frontend) (h : sys.Coherent) (i : ℕ)
    (hev : event.Updates) :
    (((sys.step frontend event).sessions i).transactions = (sys.sessions i).transactions ∨
        ∃ statement, event = .statement i (.update statement)) ∧
      (((sys.step frontend event).sessions i).active = (sys.sessions i).active ∨
        event = .statement i .begin ∧
          ((sys.step frontend event).sessions i).active = true) := by
  have hother : ∀ {j : ℕ} {statement : Ast.Statement}, i ≠ j →
      (sys.step frontend (.statement j statement)).sessions i = sys.sessions i :=
    fun hij => Function.update_of_ne hij _ _
  rcases hev.cases with ⟨j, rfl⟩ | ⟨j, statement, rfl⟩
  · by_cases hij : i = j
    · subst hij
      simp only [step, perform, executeStatement, transactional, Function.update_self,
        Session.begin]
      split
      · exact ⟨Or.inl rfl, Or.inl rfl⟩
      · exact ⟨Or.inl rfl, Or.inr ⟨trivial, rfl⟩⟩
    · rw [hother hij]
      exact ⟨Or.inl rfl, Or.inl rfl⟩
  · by_cases hij : i = j
    · subst hij
      have hstages := (Session.stagingRule_stages sys.db (sys.sessions i)).executeDml frontend
        ⟨.refl _, h.shaped i⟩ (.update statement)
      refine ⟨Or.inr ⟨statement, rfl⟩, Or.inl ?_⟩
      simp only [step, perform, executeStatement, staged, Function.update_self]
      exact hstages.1.active
    · rw [hother hij]
      exact ⟨Or.inl rfl, Or.inl rfl⟩

/-- `BEGIN`, `UPDATE`, or a `COMMIT` of another session that goes through. -/
def UpdatesApart (i : ℕ) (sys : System) (event : Event) : Prop :=
  event.Updates ∨ ∃ j, i ≠ j ∧ event = .statement j .commit ∧
    ((sys.sessions j).commit sys.db).2.2 = .ok ()

theorem UpdatesApart.not_reshapes (h : UpdatesApart i sys event) :
    ¬event.Reshapes := by
  rcases h with hev | ⟨j, -, rfl, -⟩
  · exact hev.not_reshapes
  · exact id

theorem UpdatesApart.commitsClean (h : UpdatesApart i sys event) :
    CommitsClean sys event := by
  rcases h with hev | ⟨j, -, rfl, hok⟩
  · exact hev.commitsClean sys
  · exact Or.inl hok

/-- **One event** leaves the session with images of rows of its base. -/
theorem Isolated.images_step (frontend : Frontend) (h : sys.Isolated) {event : Event}
    (hev : UpdatesApart i sys event)
    (hr : ∀ statement, event = .statement i (.update statement) →
      ∀ k id, sys.Rewrites i statement k id → rewritten k id)
    (hc : ∀ statement, event = .statement i (.update statement) →
      ∀ k id c, sys.Assigns i statement k id c → assigned k id c)
    (hi : (sys.sessions i).Images
      (ImageOf (sys.db.baseStores (sys.sessions i).reading) rewritten assigned)) :
    ((sys.step frontend event).sessions i).Images
      (ImageOf ((sys.step frontend event).db.baseStores
        ((sys.step frontend event).sessions i).reading) rewritten assigned) := by
  obtain ⟨htx, hactive⟩ : (((sys.step frontend event).sessions i).transactions =
        (sys.sessions i).transactions ∨ ∃ statement, event = .statement i (.update statement)) ∧
      ((sys.sessions i).active = true → ((sys.step frontend event).sessions i).active = true) := by
    rcases hev with hev | ⟨j, hij, rfl, -⟩
    · obtain ⟨htx, hsame | ⟨-, hopen⟩⟩ := h.toCoherent.session_step frontend i hev
      · exact ⟨htx, fun ha => hsame.trans ha⟩
      · exact ⟨htx, fun _ => hopen⟩
    · have hother : (sys.step frontend (.statement j .commit)).sessions i = sys.sessions i :=
        Function.update_of_ne hij _ _
      rw [hother]
      exact ⟨Or.inl rfl, id⟩
  by_cases ha : (sys.sessions i).active = true
  · rw [baseStores_step frontend h hev.not_reshapes hev.commitsClean ha (hactive ha)]
    rcases htx with hsame | ⟨statement, rfl⟩
    · intro e he
      rw [hsame] at he
      exact hi e he
    · have hnew := h.images_update ha (hr statement rfl) (hc statement rfl) hi
      simp only [step, perform, executeStatement, staged, Function.update_self]
      exact hnew
  · have hclosed := (h.shaped i).closed (Bool.eq_false_iff.2 ha)
    refine .of_nil ?_
    rcases htx with hsame | ⟨statement, rfl⟩
    · rw [hsame]
      exact hclosed.2.2
    · simp only [step, perform, executeStatement, staged, Function.update_self, executeDml,
        executeUpdate, stageRows, ha, Bool.not_false, if_true]
      exact hclosed.2.2

/-- **In every run of such events the session has images of rows of its
base**, changed in the columns it has assigned. -/
theorem Isolated.images_run (frontend : Frontend) {start : System} (h : start.Isolated)
    (hrest : (start.sessions i).active = false)
    (hrun : start.Along frontend (UpdatesApart i) events) :
    (start.run frontend events).Isolated ∧
      ((start.run frontend events).sessions i).Images
        (ImageOf ((start.run frontend events).db.baseStores
            ((start.run frontend events).sessions i).reading)
          (start.Rewritten frontend events i) (start.Assigned frontend events i)) := by
  -- from the end, so that each `UPDATE` has its history before it
  induction events using reverseRecOn with
  | nil => exact ⟨h, .of_nil ((h.shaped i).closed hrest).2.2⟩
  | append_singleton events event ih =>
    obtain ⟨hbefore, hev, -⟩ := Run.along_append.1 hrun
    obtain ⟨hiso, himages⟩ := ih hbefore
    have hold := himages.mono fun k u hu =>
      hu.mono (fun k id hr => hr.append [event]) fun k id c hc => hc.append [event]
    have hlast : start.run frontend (events ++ [event]) =
        (start.run frontend events).step frontend event := Run.run_append _ _ _ _
    rw [hlast]
    refine ⟨isolated_step frontend hiso hev.not_reshapes hev.commitsClean,
      hiso.images_step frontend hev (fun statement heq k id hr => ?_)
        (fun statement heq k id c hc => ?_) hold⟩
    · exact ⟨events, statement, [], by rw [heq], hr⟩
    · exact ⟨events, statement, [], by rw [heq], hc⟩

/-- Updates around the commit of another session. -/
theorem along_around (frontend : Frontend) {a : ℕ} (hia : i ≠ a) {first second : List Event}
    (hfirst : ∀ event ∈ first, event.Updates) (hsecond : ∀ event ∈ second, event.Updates)
    (hcommit : (((sys.run frontend first).sessions a).commit
      (sys.run frontend first).db).2.2 = .ok ()) :
    sys.Along frontend (UpdatesApart i) (first ++ .statement a .commit :: second) := by
  refine Run.along_append.2 ⟨?_, Or.inr ⟨a, hia, rfl, hcommit⟩, ?_⟩
  · exact Run.along_of_mem fun event he _ => Or.inl (hfirst event he)
  · exact Run.along_of_mem fun event he _ => Or.inl (hsecond event he)

/-- **A session that begins while others only update reads the tables as
they stand.** -/
theorem Isolated.base_of_begins (frontend : Frontend) (h : sys.Isolated)
    (hrest : (sys.sessions i).active = false) (hev : ∀ event ∈ events, event.Updates)
    (ha : ((sys.run frontend events).sessions i).active = true) :
    (sys.run frontend events).db.baseStores ((sys.run frontend events).sessions i).reading =
      sys.db.tables.map TableState.store := by
  refine (Run.run_invariant (C := fun _ event => event.Updates)
    (I := fun sys' : System => sys'.Isolated ∧ sys'.db.tables = sys.db.tables ∧
      ((sys'.sessions i).active = true →
        sys'.db.baseStores (sys'.sessions i).reading = sys.db.tables.map TableState.store))
    ?_ ⟨h, rfl, fun ha => ?_⟩ (Run.along_of_mem fun event he _ => hev event he)).2.2 ha
  · rintro sys' event ⟨hiso, htables, hbase⟩ hup
    have hclean := hup.commitsClean sys'
    have hsame := tables_step frontend hiso.toCoherent hup.not_reshapes hup.ne_commit
    refine ⟨isolated_step frontend hiso hup.not_reshapes hclean, hsame.trans htables,
      fun ha' => ?_⟩
    by_cases ha : (sys'.sessions i).active = true
    · rw [baseStores_step frontend hiso hup.not_reshapes hclean ha ha']
      exact hbase ha
    · obtain ⟨-, hactive | ⟨rfl, -⟩⟩ := hiso.toCoherent.session_step frontend i hup
      · exact absurd (hactive.symm.trans ha') ha
      · rw [hiso.baseStores_begin frontend (Bool.eq_false_iff.2 ha), htables]
  · rw [hrest] at ha
    cases ha

/-- **What a commit of images makes of a row**: the row as it is, or the
image of it. -/
theorem Steady.commit_images (h : sys.Steady) (hi : (sys.sessions i).Images Q) {t t' : TableState}
    (ht : sys.db.tables[k]? = some t)
    (ht' : ((sys.sessions i).commit sys.db).1.tables[k]? = some t') {r : Row}
    (hr : r ∈ t.store.rows) :
    ∃ r' ∈ t'.store.rows, r'.id = r.id ∧
      (r' = r ∨ Q k r' ∧ (sys.sessions i).active = true) := by
  rcases h.commit_slot ht ht' with rfl | ⟨e, he, rfl, -, hpublish⟩
  · exact ⟨r, hr, rfl, Or.inl rfl⟩
  · have himages := hi e he
    have hvalid := h.valid.stores t (mem_of_getElem? ht)
    obtain ⟨s, hin⟩ := h.entries i e he
    obtain ⟨-, placed, -, hrows⟩ := Transaction.publish_eq_ok hvalid hin.staged.toOrdered hpublish
    refine ⟨Keyed.patch Row.id e.tx.updates r, ?_, Keyed.key_patch e.tx.updates r, ?_⟩
    · rw [hrows, himages.deletes]
      exact Keyed.mem_overlay.2 (Or.inl ⟨r, hr, not_mem_nil, rfl⟩)
    · by_cases hmem : r.id ∈ e.tx.updateIds
      · obtain ⟨u, hu, hid⟩ := mem_map.1 hmem
        rw [Keyed.patch_of_mem hin.staged.updates_nodup hu hid]
        exact Or.inr ⟨himages.updates u hu, (h.shaped i).active_of_mem he⟩
      · exact Or.inl (Keyed.patch_of_not_mem hmem)

end System

/-- **No column update is lost, unless to an older image.** Two sessions
update and commit, interleaved in any way. In every row, a column is after
the second commit what it was after the first, unless the second session
has assigned this column of this row, or has begun before the first commit
and updated the row in any column. -/
theorem no_column_update_lost (frontend : Frontend) {start : System}
    (hreach : start.Reachable frontend) (hrest : ∀ j, (start.sessions j).active = false) {a b : ℕ}
    (hab : b ≠ a) {first second : List Event} (hfirst : ∀ event ∈ first, event.Updates)
    (hsecond : ∀ event ∈ second, event.Updates)
    (hcommit : (((start.run frontend first).sessions a).commit
      (start.run frontend first).db).2.2 = .ok ())
    {k : ℕ} {t : TableState}
    (ht : (start.run frontend (first ++ [.statement a .commit])).db.tables[k]? = some t)
    {r : Row} (hr : r ∈ t.store.rows) :
    ∃ t' r', (start.run frontend
        (first ++ .statement a .commit :: second ++ [.statement b .commit])).db.tables[k]? = some t' ∧
      r' ∈ t'.store.rows ∧ r'.id = r.id ∧ ∀ c, r'.values[c]? = r.values[c]? ∨
        start.Assigned frontend (first ++ .statement a .commit :: second) b k r.id c ∨
        ((start.run frontend first).sessions b).active = true ∧
          start.Rewritten frontend (first ++ .statement a .commit :: second) b k r.id := by
  have hiso := hreach.coherent.isolated hrest
  obtain ⟨hmid, -⟩ := hiso.images_run frontend (hrest b)
    (System.along_around frontend hab hfirst (forall_mem_nil _) hcommit)
  obtain ⟨hend, himages⟩ := hiso.images_run frontend (hrest b)
    (System.along_around frontend hab hfirst hsecond hcommit)
  have hsplit : start.run frontend (first ++ .statement a .commit :: second) =
      (start.run frontend (first ++ [.statement a .commit])).run frontend second := by
    rw [← singleton_append, ← append_assoc]
    exact Run.run_append _ _ _ _
  have htables := System.tables_run frontend hmid.toCoherent
    (fun event he => (hsecond event he).not_reshapes) fun event he => (hsecond event he).ne_commit
  rw [← hsplit] at htables
  have hlast : start.run frontend (first ++ .statement a .commit :: second ++
      [.statement b .commit]) = (start.run frontend
        (first ++ .statement a .commit :: second)).step frontend (.statement b .commit) :=
    Run.run_append _ _ _ _
  -- the table after the second commit
  have hthere := htables ▸ ht
  have hfollow : List.Forall₂ Database.Follows _
      ((start.run frontend (first ++ .statement a .commit :: second)).step frontend
        (.statement b .commit)).db.tables :=
    System.follows_step frontend hend.toCoherent id
  obtain ⟨t', ht', -⟩ := Outcome.getElem?_of_forall₂ hfollow hthere
  rw [hlast]
  refine ⟨t', ?_⟩
  rw [hend.toCoherent.step_commit frontend b] at ht' ⊢
  obtain ⟨r', hr', hid, hcase⟩ := hend.toSteady.commit_images himages hthere ht' hr
  refine ⟨r', ht', hr', hid, fun c => ?_⟩
  rcases hcase with rfl | ⟨himage, hactive⟩
  · exact Or.inl rfl
  · rw [← hid]
    by_cases hb : ((start.run frontend first).sessions b).active = true
    · exact Or.inr (Or.inr ⟨hb, himage.rewritten⟩)
    · -- the session has begun after the first commit, so its base is what that left
      have hsame : (start.run frontend (first ++ [.statement a .commit])).sessions b =
          (start.run frontend first).sessions b := by
        have hstep : start.run frontend (first ++ [.statement a .commit]) =
            (start.run frontend first).step frontend (.statement a .commit) :=
          Run.run_append _ _ _ _
        rw [hstep]
        exact Function.update_of_ne hab _ _
      have hnot := hsame ▸ Bool.eq_false_iff.2 hb
      obtain ⟨store, r₀, hstore, hr₀, hid₀, hcols⟩ := himage.base
      rw [hsplit] at hactive hstore
      rw [hmid.base_of_begins frontend hnot hsecond hactive, getElem?_map, ht,
        Option.map_some, Option.some.injEq] at hstore
      subst hstore
      have hvalid := hmid.valid.stores t (mem_of_getElem? ht)
      obtain rfl := Transaction.row_unique hvalid hr₀ hr (hid₀.trans hid)
      exact (hcols c).imp_right Or.inl

/-! ### Two rows with two columns -/

/-- The table `A (v, w)` with the rows `(1, 1)` and `(2, 2)`. -/
def twoRows : System :=
  (System.start {}).run Script.frontend
    [Script.createTable 0 "A" ["v", "w"], Script.begin 0, Script.insert 0 "A" [some 1, some 1],
      Script.insert 0 "A" [some 2, some 2], Script.commit 0]

theorem twoRows_reachable : twoRows.Reachable Script.frontend := ⟨{}, _, .empty, rfl⟩

theorem twoRows_atRest (j : ℕ) : (twoRows.sessions j).active = false := by
  by_cases hj : j = 0
  · subst hj
    decide +kernel
  · -- session 0 is the only one that does anything
    have hother : ∀ (sys : System) (statement : Ast.Statement),
        (sys.step Script.frontend (.statement 0 statement)).sessions j = sys.sessions j :=
      fun sys statement => Function.update_of_ne hj _ _
    simp only [twoRows, System.run, Run.run_cons, Run.run_nil, Script.createTable, Script.begin,
      Script.insert, Script.commit, hother]
    rfl

/-- `WHERE v = value`. -/
def whereV (value : Int64) : Option Ast.Expression :=
  some (.binary (.identifier (ascii "v")) .equal (Script.literal (some value)))

/-- Sessions 1 and 2 begin; session 1 sets `v` in the first row, session 2
sets `w` in the row that is given. -/
def bothUpdate (value : Int64) : List Event :=
  [Script.begin 1, Script.begin 2, Script.update 1 "A" "v" 5 (whereV 1),
    Script.update 2 "A" "w" 7 (whereV value)]

theorem bothUpdate_updates (value : Int64) : ∀ event ∈ bothUpdate value, event.Updates := by
  simp [bothUpdate, Script.begin, Script.update, Event.Updates]

/-- Session 2 updates the other row: the row session 1 has changed is as it
left it. -/
theorem no_column_update_lost_other_row :
    ((twoRows.run Script.frontend (bothUpdate 2 ++ [Script.commit 1])).db.tables[0]?.map
        fun t => t.store.rows) =
      some [⟨1, [.integer 5, .integer 1]⟩, ⟨2, [.integer 2, .integer 2]⟩] ∧
    ∃ t' r', (twoRows.run Script.frontend
        (bothUpdate 2 ++ Script.commit 1 :: [] ++ [Script.commit 2])).db.tables[0]? = some t' ∧
      r' ∈ t'.store.rows ∧ r'.id = 1 ∧ ∀ c, r'.values[c]? = [Value.integer 5, .integer 1][c]? ∨
        twoRows.Assigned Script.frontend (bothUpdate 2 ++ Script.commit 1 :: []) 2 0 1 c ∨
        ((twoRows.run Script.frontend (bothUpdate 2)).sessions 2).active = true ∧
          twoRows.Rewritten Script.frontend (bothUpdate 2 ++ Script.commit 1 :: []) 2 0 1 := by
  have hrows : (twoRows.run Script.frontend (bothUpdate 2 ++ [Script.commit 1])).db.tables[0]?.map
      (fun t => t.store.rows) =
      some [⟨1, [.integer 5, .integer 1]⟩, ⟨2, [.integer 2, .integer 2]⟩] := by
    decide +kernel
  obtain ⟨t, ht, hfirst⟩ := Option.map_eq_some_iff.1 hrows
  have hmem : (⟨1, [.integer 5, .integer 1]⟩ : Row) ∈ t.store.rows := by
    rw [hfirst]
    exact mem_cons_self
  have hne : 2 ≠ 1 := by decide
  exact ⟨hrows, no_column_update_lost Script.frontend twoRows_reachable twoRows_atRest hne
    (bothUpdate_updates 2) (forall_mem_nil _) (by decide +kernel) ht hmem⟩

/-- **Session 2 updates the same row in the other column**, and its image
of the row takes back what session 1 has committed. -/
theorem column_update_lost :
    (((twoRows.run Script.frontend (bothUpdate 1)).sessions 1).commit
        (twoRows.run Script.frontend (bothUpdate 1)).db).2.2 = .ok () ∧
      (((twoRows.run Script.frontend (bothUpdate 1 ++ [Script.commit 1])).sessions 2).commit
        (twoRows.run Script.frontend (bothUpdate 1 ++ [Script.commit 1])).db).2.2 = .ok () ∧
      ((twoRows.run Script.frontend (bothUpdate 1 ++ [Script.commit 1])).db.tables[0]?.map
        fun t => t.store.rows) =
        some [⟨1, [.integer 5, .integer 1]⟩, ⟨2, [.integer 2, .integer 2]⟩] ∧
      ((twoRows.run Script.frontend
        (bothUpdate 1 ++ [Script.commit 1] ++ [Script.commit 2])).db.tables[0]?.map
        fun t => t.store.rows) =
        some [⟨1, [.integer 1, .integer 7]⟩, ⟨2, [.integer 2, .integer 2]⟩] ∧
      ¬twoRows.Assigned Script.frontend (bothUpdate 1 ++ [Script.commit 1]) 2 0 1 0 := by
  refine ⟨by decide +kernel, by decide +kernel, by decide +kernel, by decide +kernel, ?_⟩
  rintro ⟨before, statement, after, hsplit, -, table, assignment, htable, hmem, hcolumn⟩
  -- the one `UPDATE` of session 2 assigns `w`, which is the second column throughout
  have hstatement : Event.statement 2 (.update statement) ∈ bothUpdate 1 ++ [Script.commit 1] := by
    rw [hsplit]
    exact mem_append_right _ mem_cons_self
  have hwhole : ∀ before ∈ (bothUpdate 1 ++ [Script.commit 1]).inits,
      (twoRows.run Script.frontend before).db.tables[0]?.map
        (fun t => t.store.table.columnIndex (ascii "w")) = some (some 1) := by
    decide +kernel
  have hindex := hwhole before ((mem_inits _ _).2 ⟨_, hsplit.symm⟩)
  simp only [bothUpdate, Script.begin, Script.update, Script.commit, cons_append,
    nil_append, mem_cons, not_mem_nil, Event.statement.injEq, reduceCtorEq,
    Ast.Statement.update.injEq, and_false, false_or, or_false, OfNat.ofNat_ne_one, false_and,
    true_and] at hstatement
  subst hstatement
  rw [mem_singleton] at hmem
  subst hmem
  rw [htable, Option.map_some, Option.some.injEq] at hindex
  cases hindex.symm.trans hcolumn

end Shoveler
