import Shoveler.Invariant.Isolated

/-!
# Reads are snapshots

As long as no commit stops half way, a session that begins reads the
committed rows as they stand, and goes on reading them until it ends,
with its own changes laid over them (`reads_are_snapshots`).
-/

namespace Shoveler

open Script

/-- **Reads are snapshots.** In every run from a system at rest that
creates and drops no table and in which every commit succeeds or fails
before it publishes a table, an active session reads of every table the
rows that were committed when it began, with its own changes laid over
them. -/
theorem reads_are_snapshots (frontend : Frontend) {start : System}
    (hreach : start.Reachable frontend) (hrest : ∀ j, (start.sessions j).active = false) {i : ℕ}
    {before after : List Event}
    (hrun : start.Along frontend (fun sys event => ¬event.Reshapes ∧ CommitsClean sys event)
      (before ++ .statement i .begin :: after))
    (hinactive : ((start.run frontend before).sessions i).active = false)
    (hactive : ∀ first second, after = first ++ second →
      ((start.run frontend (before ++ .statement i .begin :: first)).sessions i).active = true)
    {k : ℕ} {t : TableState}
    (ht : (start.run frontend (before ++ .statement i .begin :: after)).db.tables[k]? = some t) :
    ∃ t₀, (start.run frontend before).db.tables[k]? = some t₀ ∧ t₀.name = t.name ∧
      scanRowsForTable (start.run frontend (before ++ .statement i .begin :: after)).db
          ((start.run frontend (before ++ .statement i .begin :: after)).sessions i) t =
        .ok (((start.run frontend (before ++ .statement i .begin :: after)).sessions i).overlayRows
          t.name t₀.store.rows) := by
  obtain ⟨hbefore, ⟨hddl, hclean⟩, hafter⟩ := Run.along_append.1 hrun
  have hbegan : (start.run frontend before).Isolated := by
    refine Run.run_invariant (I := System.Isolated) ?_ (hreach.coherent.isolated hrest) hbefore
    exact fun sys event hsys hc => System.isolated_step frontend hsys hc.1 hc.2
  have hsplit : ∀ events : List Event,
      start.run frontend (before ++ .statement i .begin :: events) =
        ((start.run frontend before).step frontend (.statement i .begin)).run frontend events :=
    fun events => Run.run_append _ _ _ _
  simp only [hsplit] at hactive ht ⊢
  have hbegun := System.isolated_step frontend hbegan hddl hclean
  obtain ⟨hnow, hbase⟩ := System.baseStores_run frontend hbegun hafter hactive
  rw [hbegan.baseStores_begin frontend hinactive] at hbase
  obtain ⟨base, hget, hscan⟩ := hnow.scan_eq (hactive after [] (List.append_nil _).symm) ht
  rw [hbase, List.getElem?_map, Option.map_eq_some_iff] at hget
  obtain ⟨t₀, ht₀, rfl⟩ := hget
  -- the table of the slot has kept its name
  have hfollow : List.Forall₂ Database.Follows (start.run frontend before).db.tables
      (((start.run frontend before).step frontend (.statement i .begin)).run frontend after).db.tables :=
    Database.follows_trans (System.follows_step frontend hbegan.toCoherent hddl)
      (System.follows_run frontend hbegun.toCoherent
        (Run.Along.forall_mem (hafter.mono fun _ _ hc => hc.1)))
  obtain ⟨t', ht', hf⟩ := Outcome.getElem?_of_forall₂ hfollow ht₀
  obtain rfl := Option.some.inj (ht'.symm.trans ht)
  exact ⟨t₀, ht₀, hf.1.symm, hscan⟩

/-- Session 0 has put a row into `A`. -/
def oneRow : List Event :=
  [begin 0, insert 0 "A" [some 1], commit 0]

/-- While session 1 reads and inserts, session 2 updates the row it reads
and commits. -/
def overtaken : List Event :=
  [begin 2, update 2 "A" "v" 5, insert 1 "A" [some 7], commit 2]

/-- Session 1 still reads the row as it was, and its own. -/
theorem reads_overtaken :
    ∃ t₀, (Script.twoTables.run Script.frontend oneRow).db.tables[0]? = some t₀ ∧
      t₀.store.rows = [⟨1, [.integer 1]⟩] ∧
      ∃ t, (Script.twoTables.run Script.frontend
          (oneRow ++ .statement 1 .begin :: overtaken)).db.tables[0]? = some t ∧
        t.store.rows = [⟨1, [.integer 5]⟩] ∧
        scanRowsForTable
            (Script.twoTables.run Script.frontend (oneRow ++ .statement 1 .begin :: overtaken)).db
            ((Script.twoTables.run Script.frontend
              (oneRow ++ .statement 1 .begin :: overtaken)).sessions 1) t =
          .ok (((Script.twoTables.run Script.frontend
            (oneRow ++ .statement 1 .begin :: overtaken)).sessions 1).overlayRows t.name
              t₀.store.rows) := by
  have hnew : (twoTables.run frontend
      (oneRow ++ .statement 1 .begin :: overtaken)).db.tables[0]?.map (fun t => t.store.rows) =
      some [⟨1, [.integer 5]⟩] := by
    decide +kernel
  have hrows : (twoTables.run frontend oneRow).db.tables[0]?.map
      (fun t => t.store.rows) = some [⟨1, [.integer 1]⟩] := by
    decide +kernel
  have hactive : ∀ first ∈ overtaken.inits, ((twoTables.run frontend
      (oneRow ++ .statement 1 .begin :: first)).sessions 1).active = true := by
    decide +kernel
  obtain ⟨t, ht, hnew⟩ := Option.map_eq_some_iff.1 hnew
  obtain ⟨t₀, ht₀, -, hscan⟩ := reads_are_snapshots frontend twoTables_reachable
    twoTables_atRest (by decide +kernel) (by decide +kernel)
    (fun first second heq => hactive first ((List.mem_inits _ _).2 ⟨second, heq.symm⟩)) ht
  rw [ht₀] at hrows
  exact ⟨t₀, ht₀, Option.some.inj hrows, t, ht, hnew, hscan⟩

end Shoveler
