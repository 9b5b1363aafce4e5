import Shoveler.Invariant.Live
import Shoveler.Invariant.Steady

/-!
# Isolated systems

As long as no commit stops half way, a session that begins reads the live
stores, and every table transaction is active (`System.Isolated`). The
rows a session reads are not copied when it begins: it is the next commit
that keeps them. What holds is that the stores a session reads under its
changes do not change while it is active (`baseStores_step`), and that a
scan shows its changes laid over them (`Isolated.scan_eq`).
-/

namespace Shoveler

open Outcome

/-- What a session has staged for a table, laid over rows of it. -/
def Session.overlayRows (session : Session) (tableName : Bytes) (rows : List Row) : List Row :=
  match session.transactionForRead tableName with
  | some tx => tx.view rows
  | none => rows

/-- **Where no commit has stopped half way**: a session that begins now
reads the live stores, and every table transaction is active. -/
structure System.Isolated (sys : System) : Prop extends sys.Steady where
  current : sys.db.baseStores (some sys.db.commitSequence) = sys.db.tables.map TableState.store
  live : ∀ i, (sys.sessions i).Live

namespace System

variable {sys : System} {i : ℕ}

/-- Every generation that is kept was committed. -/
theorem Coherent.retained_le (h : sys.Coherent) {r : RetainedGeneration}
    (hr : r ∈ sys.db.registry.retained) : r.generation ≤ sys.db.commitSequence := by
  obtain ⟨j, hj⟩ := h.exists_reader hr
  exact h.bounded j _ hj

theorem Coherent.isolated (h : sys.Coherent) (hidle : ∀ i, (sys.sessions i).active = false) :
    sys.Isolated := by
  have hsteady := h.steady hidle
  refine ⟨hsteady, ?_, fun j e he => ?_⟩
  · have hnone : sys.db.registry.retainedAt sys.db.commitSequence = none := by
      rw [Registry.retainedAt, h.retained_eq_nil hidle]
      rfl
    simp only [Database.baseStores, Option.bind_some, hnone]
  · have ha := (h.shaped j).active_of_mem he
    rw [hidle j] at ha
    cases ha

/-! ## Every event keeps it -/

/-- Letting go of a handle does not change what a session that begins now
would read. -/
theorem Isolated.current_release (h : sys.Isolated) :
    Database.baseStores
        { sys.db with registry := (sys.sessions i).releaseHandle sys.db.registry }
        (some sys.db.commitSequence) = sys.db.tables.map TableState.store := by
  cases hr : ((sys.sessions i).releaseHandle sys.db.registry).retainedAt sys.db.commitSequence with
  | none => simp only [Database.baseStores, Option.bind_some, hr]
  | some r =>
    obtain ⟨hmem, hgen⟩ := Keyed.of_find?_eq_some hr
    have hkept := Keyed.find?_eq_some_of_mem h.registry.retained_nodup
      (mem_retained_releaseHandle h.toCoherent hmem)
    rw [hgen] at hkept
    have hcurrent := h.current
    simp only [Database.baseStores, Option.bind_some, Registry.retainedAt, hkept] at hcurrent
    simp only [Database.baseStores, Option.bind_some, hr]
    exact hcurrent

/-- What a session that begins now would read while a commit goes on. -/
theorem Isolated.current_retain (h : sys.Isolated) {excluding : Option SnapshotHandle}
    {reg : Registry}
    (hr : sys.db.retainCurrentGenerationForActiveSnapshots excluding = (reg, .ok ())) :
    Database.baseStores { sys.db with registry := reg } (some sys.db.commitSequence) =
      sys.db.tables.map TableState.store := by
  rcases retainCurrent_eq_ok h.registry h.valid hr with ⟨-, rfl⟩ | ⟨hneeds, rfl⟩
  · exact h.current
  · have hnone := (Registry.of_needsRetention hneeds).2
    have hkept : sys.db.retaining.retainedAt sys.db.commitSequence = some sys.db.captured :=
      (Registry.retainedAt_retain hnone _ _).trans (if_pos rfl)
    simp only [Database.baseStores, Option.bind_some, hkept, Database.captured, List.map_map]
    rfl

/-- Nothing is kept of a generation still to come. -/
theorem Isolated.next_not_retained (h : sys.Isolated) {excluding : Option SnapshotHandle}
    {reg : Registry}
    (hr : sys.db.retainCurrentGenerationForActiveSnapshots excluding = (reg, .ok ())) :
    ((sys.sessions i).releaseHandle reg).retainedAt (sys.db.commitSequence + 1) = none := by
  refine Keyed.find?_eq_none.2 fun hmem => ?_
  obtain ⟨r, hrel, hgen⟩ := List.mem_map.1 hmem
  have hkept := mem_retained_releaseHandle h.toCoherent hrel
  have hle : r.generation ≤ sys.db.commitSequence := by
    rcases h.toCoherent.mem_retained_retain hr hkept with hkept | rfl
    · exact h.toCoherent.retained_le hkept
    · exact Nat.le_refl _
  rw [hgen] at hle
  exact Nat.not_succ_le_self _ hle

/-- **Every event keeps it** that creates and drops no table and stops no
commit half way. -/
theorem isolated_step (frontend : Frontend) (h : sys.Isolated) {event : Event}
    (hddl : ¬event.Reshapes) (hclean : CommitsClean sys event) :
    (sys.step frontend event).Isolated := by
  have hsteady := steady_step frontend h.toSteady hddl
  have hlive := live_step frontend h.toCoherent h.live hclean
  have heffect := h.toCoherent.effect frontend event
  generalize sys.step frontend event = sys' at hsteady hlive heffect ⊢
  have hcurrent := h.current
  refine ⟨hsteady, ?_, hlive⟩
  cases heffect with
  | rollsBack | idles | ends => exact h.current_release
  | stopped i registry tables transactions e ha hr hp hc =>
    rw [CommitsClean, hc] at hclean
    rcases hclean with hok | ⟨htables, -⟩
    · cases hok
    · simp only at htables
      subst htables
      exact h.current_retain hr
  | published i registry tables transactions ht hr =>
    simp only [Session.publishedDb, Database.baseStores, Option.bind_some, h.next_not_retained hr]
  | createTable | dropTable => exact absurd trivial hddl
  | defines i statement _ db' hs =>
    simp only [Database.baseStores] at hcurrent
    simp only [Database.baseStores, hs.registry, hs.commitSequence, hs.tables]
    exact hcurrent
  | _ => exact hcurrent

/-! ## What the sessions read stays -/

/-- **The stores a session reads under its changes stay as they are while
it is active**, whatever happens. -/
theorem baseStores_step (frontend : Frontend) (h : sys.Isolated) {event : Event}
    (hddl : ¬event.Reshapes) (hclean : CommitsClean sys event)
    (ha : (sys.sessions i).active = true)
    (ha' : ((sys.step frontend event).sessions i).active = true) :
    (sys.step frontend event).db.baseStores ((sys.step frontend event).sessions i).reading =
      sys.db.baseStores (sys.sessions i).reading := by
  -- a session of its own event, and one of another's
  have hput : ∀ {j : ℕ} {db' : Database} {s' : Session}, sys.KeepsOthers j db' →
      (i = j → s'.active = true → s'.reading = (sys.sessions i).reading ∧
        db'.baseStores (sys.sessions i).reading = sys.db.baseStores (sys.sessions i).reading) →
      ((sys.put j db' s').sessions i).active = true →
      (sys.put j db' s').db.baseStores ((sys.put j db' s').sessions i).reading =
        sys.db.baseStores (sys.sessions i).reading := by
    intro j db' s' hothers hself hactive
    by_cases hij : i = j
    · subst hij
      simp only [Function.update_self] at hactive ⊢
      obtain ⟨hread, hbase⟩ := hself rfl hactive
      rw [hread, hbase]
    · obtain ⟨g, hg⟩ := (h.shaped i).reading_of_active ha
      simp only [Function.update_of_ne hij, hg]
      exact (hothers i g hij hg).2
  have hkeeps : ∀ {j : ℕ} {db' : Database}, db'.registry = sys.db.registry →
      db'.commitSequence = sys.db.commitSequence → db'.tables = sys.db.tables →
      sys.KeepsOthers j db' := by
    intro j db' hreg hseq htables k g _ hk
    rw [hreg, hseq, Database.baseStores, Database.baseStores, hreg, htables]
    exact ⟨h.kept k g hk, rfl⟩
  have heffect := h.toCoherent.effect frontend event
  generalize sys.step frontend event = sys' at heffect ha' ⊢
  cases heffect with
  | begins j hnot =>
    refine hput (fun k g _ hk => ⟨h.kept k g hk, rfl⟩) (fun hij _ => ?_) ha'
    rw [hij, hnot] at ha
    cases ha
  | halts j => exact hput (hkeeps rfl rfl rfl) (fun hij _ => ⟨by rw [hij]; rfl, rfl⟩) ha'
  | rollsBack | idles | ends => exact hput h.keepsOthers_release (fun _ hactive => by cases hactive) ha'
  | stopped j registry tables transactions e _ hr hp hc =>
    have hothers := @Steady.keepsOthers_commit sys j h.toSteady
    rw [hc] at hothers
    rw [CommitsClean, hc] at hclean
    refine hput hothers (fun hij _ => ?_) ha'
    subst hij
    rcases hclean with hok | ⟨htables, -⟩
    · cases hok
    · refine ⟨rfl, List.ext_getElem? fun k => ?_⟩
      exact h.toSteady.baseStores_stopped hr (by simp only at htables; rw [htables])
  | published j registry tables transactions _ hr hp s' hs hc =>
    have hothers := @Steady.keepsOthers_commit sys j h.toSteady
    rw [hc] at hothers
    exact hput hothers (fun _ hactive => by rw [hs] at hactive; cases hactive) ha'
  | createTable | dropTable => exact absurd trivial hddl
  | defines j statement _ db' hs =>
    rw [Database.baseStores, Database.baseStores, hs.registry, hs.tables]
  | stages j statement _ s' hrule =>
    have hstages := hrule (Session.stagingRule_stages sys.db (sys.sessions j)) ⟨.refl _, h.shaped j⟩
    exact hput (hkeeps rfl rfl rfl) (fun hij _ => ⟨by rw [hij]; exact hstages.1.reading, rfl⟩) ha'
  | _ => rfl

/-! ## Scans -/

/-- **A scan shows the session's changes over its base.** -/
theorem Isolated.scan_eq (h : sys.Isolated) (ha : (sys.sessions i).active = true) {k : ℕ}
    {t : TableState} (ht : sys.db.tables[k]? = some t) :
    ∃ base, (sys.db.baseStores (sys.sessions i).reading)[k]? = some base ∧
      Shoveler.scanRowsForTable sys.db (sys.sessions i) t =
        .ok ((sys.sessions i).overlayRows t.name base.rows) := by
  obtain ⟨found, base, hfound, hget, hbase, hvalid, hpub⟩ := h.toSteady.snapshotStoreForRead ha ht
  refine ⟨base, hbase, ?_⟩
  unfold Shoveler.scanRowsForTable Session.overlayRows
  cases htx : (sys.sessions i).transactionForRead t.name with
  | none =>
    have hclone : cloneRowsFromStore base = .ok base.rows :=
      mapM_clone_eq_ok.2 ⟨hvalid.conform, rfl⟩
    simp only [hfound, ok_bind]
    cases found with
    | none =>
      rw [← hget] at hclone
      simp only [← hget]
      exact hclone
    | some store =>
      rw [← hget] at hclone
      simp only [← hget]
      exact hclone
  | some tx =>
    obtain ⟨e, hfind, rfl⟩ := Option.map_eq_some_iff.1 htx
    have he : e ∈ (sys.sessions i).transactions := List.mem_of_find?_eq_some hfind
    have hkey : e.key = t.key := namesEqual_iff.1 (by have := List.find?_some hfind; exact this)
    obtain ⟨t', hin⟩ := h.entries i e he
    obtain ⟨-, rfl⟩ :=
      slot_unique h.valid.stateKeys_nodup ht hin.slot (hkey.symm.trans hin.key.symm)
    have hstore : storeAt sys.db.tables e.tx.slot = .ok t.store :=
      Database.storeAt_eq_ok.2 ⟨t, hin.slot, rfl⟩
    have hread : (sys.sessions i).baseStoreForRead sys.db t = .ok base := by
      rw [Session.baseStoreForRead, hfound, ok_bind, hget]
      rfl
    simp only [hread, ok_bind]
    exact Transaction.scanWithBase_eq_ok hstore (h.live i e he) hin.staged hvalid hpub.table.symm

/-! ## Whole runs -/

/-- **Along a run in which a session stays active its base stays.** -/
theorem baseStores_run (frontend : Frontend) (h : sys.Isolated) {events : List Event}
    (hrun : sys.Along frontend (fun sys event => ¬event.Reshapes ∧ CommitsClean sys event) events)
    (hactive : ∀ first second, events = first ++ second →
      ((sys.run frontend first).sessions i).active = true) :
    (sys.run frontend events).Isolated ∧
      (sys.run frontend events).db.baseStores ((sys.run frontend events).sessions i).reading =
        sys.db.baseStores (sys.sessions i).reading := by
  induction events generalizing sys with
  | nil => exact ⟨h, rfl⟩
  | cons event rest ih =>
    obtain ⟨⟨hddl, hclean⟩, hrest⟩ := hrun
    have hstep := isolated_step frontend h hddl hclean
    have hbase := baseStores_step frontend h hddl hclean (hactive [] (event :: rest) rfl)
      (hactive [event] rest rfl)
    obtain ⟨hend, hsame⟩ := ih hstep hrest fun first second heq =>
      hactive (event :: first) second (by rw [heq]; rfl)
    exact ⟨hend, hsame.trans hbase⟩

/-- A session that begins reads the live stores. -/
theorem Isolated.baseStores_begin (frontend : Frontend) (h : sys.Isolated)
    (ha : (sys.sessions i).active = false) :
    (sys.step frontend (.statement i .begin)).db.baseStores
        ((sys.step frontend (.statement i .begin)).sessions i).reading =
      sys.db.tables.map TableState.store := by
  have hbegin : (sys.sessions i).begin sys.db =
      ({ sys.db with registry := (sys.db.registry.acquire sys.db.commitSequence).1 },
        { sys.sessions i with
          snapshotSequence := some sys.db.commitSequence
          snapshotHandle := some ⟨sys.db.commitSequence, false⟩, active := true }, .ok ()) := by
    rw [Session.begin, if_neg (by simp [ha])]
    rfl
  simp only [step, perform, executeStatement, transactional, Function.update_self, hbegin]
  exact h.current

end System

end Shoveler
