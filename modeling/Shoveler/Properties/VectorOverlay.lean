import Shoveler.Invariant.Candidates
import Shoveler.Invariant.Steady

/-!
# The vector overlay

Every commit with a number records all vectors that are committed then, so
right after it the overlay has each of them once (`overlay_covers`). It
records no more than that. What is no vector any more is not taken out:
the candidates are those of the tables exactly as long as nothing takes a
vector away from under one (`candidates_live_iff`). And what was not
written is recorded again: the generations are those of the last writes
exactly as long as every commit writes all there is
(`generations_mark_writes`).
-/

namespace Shoveler

/-! ## Scripts over vectors -/

namespace Script

/-- `CREATE TABLE M (e VECTOR(1))`. -/
def createVectors : Event :=
  .statement 0 (.createTable
    { name := ascii "M", columns := [{ name := ascii "e", columnType := .vector 1 }] })

/-- `INSERT INTO M VALUES ([x])`. -/
def insertVector (i : ℕ) (x : UInt64) : Event :=
  .statement i (.insert { tableName := ascii "M", values := [.literal (.vector [x])] })

/-- The table, with a vector committed and a vector staged. -/
def twoVectors : List Event :=
  [createVectors, begin 0, insertVector 0 0x3ff0000000000000, commit 0, begin 0,
    insertVector 0 0x4000000000000000]

/-- The vector that is staged. -/
def stagedVector : Vector := ⟨.float32, 1, [0x40000000], by decide, rfl⟩

end Script

/-! ## Coverage -/

/-- **Vector overlay coverage.** No two deltas of a reachable system have
the same key, and after a `COMMIT` that advances the sequence every
committed vector has exactly one delta, with this vector and the new
number. -/
theorem overlay_covers {frontend : Frontend} {sys : System} (h : sys.Reachable frontend) :
    (sys.db.overlay.deltas.map Delta.key).Nodup ∧
      ∀ i, (sys.perform frontend (.statement i .commit)).2.isOk = true →
        sys.db.commitSequence < (sys.step frontend (.statement i .commit)).db.commitSequence →
        ∀ t ∈ (sys.step frontend (.statement i .commit)).db.tables, ∀ row ∈ t.store.rows,
        ∀ (index : ℕ) (v : Vector), row.values[index]? = some (.vector v) →
        ∃ column, t.store.table.columnAt index = some column ∧
          ∃ delta ∈ (sys.step frontend (.statement i .commit)).db.overlay.deltas,
            delta.key = (t.key, column.key, row.id) ∧ delta.vector = v.values ∧
            delta.generation = (sys.step frontend (.statement i .commit)).db.commitSequence ∧
            ∀ other ∈ (sys.step frontend (.statement i .commit)).db.overlay.deltas,
              other.key = delta.key → other = delta := by
  have hco := h.coherent
  refine ⟨h.distinct, fun i _ hadvances t ht row hrow index v hvalue => ?_⟩
  have hvalid := (System.coherent_step frontend hco (.statement i .commit)).valid
  obtain ⟨column, hcolumn⟩ : ∃ column, t.store.table.columns[index]? = some column := by
    have hlength := (Outcome.ite_error_eq_ok.1 ((hvalid.stores t ht).conform row hrow)).1
    have hlt := (List.getElem?_eq_some_iff.1 hvalue).1
    rw [not_not.1 hlength] at hlt
    exact ⟨_, List.getElem?_eq_getElem hlt⟩
  have hat := (vectorAt_eq_some hvalid).2
    ⟨t, ht, row, column, v, ⟨hrow, index, hcolumn, hvalue⟩, rfl, rfl⟩
  obtain ⟨j, hw⟩ : ∃ j, sys.writer frontend (.statement i .commit) = some j := by
    refine Option.ne_none_iff_exists'.1 fun hnone => ?_
    rw [hco.step_silent hnone] at hadvances
    exact Nat.lt_irrefl _ hadvances
  have hcandidate := hco.candidate_writer h.distinct hw (t.key, column.key, row.id)
  rw [hat, Option.map_some, Option.some_or] at hcandidate
  obtain ⟨delta, hdelta, hkey, hcontent⟩ := Overlay.exists_of_candidate hcandidate
  obtain ⟨hgeneration, hvector⟩ := Prod.mk.inj hcontent
  refine ⟨column, hcolumn, delta, hdelta, hkey, hvector, hgeneration, fun other hother heq => ?_⟩
  exact List.inj_on_of_nodup_map (hco.distinct_step h.distinct _) hother hdelta heq

/-- The second vector is in the overlay after its commit, with the number
of that. -/
theorem overlay_covers_second :
    ∃ delta ∈ (((System.start {}).run Script.frontend Script.twoVectors).step Script.frontend
        (Script.commit 0)).db.overlay.deltas,
      delta.vector = [0x40000000] ∧ delta.generation = 2 := by
  obtain ⟨t, ht, row, hrow, hvalue⟩ :
      ∃ t ∈ (((System.start {}).run Script.frontend Script.twoVectors).step Script.frontend
          (Script.commit 0)).db.tables, ∃ row ∈ t.store.rows,
        row.values[0]? = some (.vector Script.stagedVector) := by
    decide +kernel
  obtain ⟨-, -, delta, hdelta, -, hvector, hgeneration, -⟩ :=
    (overlay_covers ⟨{}, Script.twoVectors, .empty, rfl⟩).2 0 (by decide +kernel)
      (by decide +kernel) t ht row hrow 0 _ hvalue
  exact ⟨delta, hdelta, hvector, hgeneration.trans (by decide +kernel)⟩

/-! ## Candidates and tables -/

/-- `DROP TABLE` leaves the other tables. -/
theorem tables_dropTable {db : Database} (h : db.Valid) (statement : Ast.NamedStatement) :
    (orKeep db (db.dropTable statement)).1.tables =
      db.tables.filter fun t => decide (t.key ≠ foldCase statement.name) := by
  unfold Database.dropTable
  cases hi : db.findTableStateIndex statement.name with
  | none =>
    have hnone : foldCase statement.name ∉ db.tables.map TableState.key := Keyed.findIdx?_eq_none.1 hi
    rw [Keyed.filter_of_not_mem hnone]
    simp only
    split <;> rfl
  | some index =>
    simp only [DatabaseCatalog.dropTable, h.findTableIndex, hi, Outcome.ok_bind]
    rw [(h.removeTable index).refreshTablePointers]
    exact Keyed.eraseIdx_findIdx? h.stateKeys_nodup hi

/-- Only what is in the dropped table goes. -/
theorem vectorAt_filter {tables : List TableState} {name : Bytes} {k : CandidateKey} :
    vectorAt (tables.filter fun t => decide (t.key ≠ name)) k =
      if k.1 = name then none else vectorAt tables k := by
  unfold vectorAt
  by_cases hk : k.1 = name
  · have hnone : k.1 ∉ (tables.filter fun t => decide (t.key ≠ name)).map TableState.key := by
      intro hmem
      obtain ⟨t, ht, heq⟩ := List.mem_map.1 hmem
      exact of_decide_eq_true (List.mem_filter.1 ht).2 (heq.trans hk)
    rw [Keyed.find?_eq_none.2 hnone, if_pos hk]
    rfl
  · have hother : ∀ t ∈ tables, t.key = k.1 → decide (t.key ≠ name) = true := by
      intro t _ heq
      exact decide_eq_true (heq ▸ hk)
    rw [Keyed.find?_filter hother, if_neg hk]

/-- A new table takes nothing away. -/
theorem vectorAt_append {tables more : List TableState} {k : CandidateKey} {w : List UInt32}
    (h : vectorAt tables k = some w) : vectorAt (tables ++ more) k = some w := by
  unfold vectorAt at h ⊢
  obtain ⟨t, ht, -⟩ := Option.bind_eq_some_iff.1 h
  rw [List.find?_append, ht, Option.some_or]
  rw [ht] at h
  exact h

namespace System

/-- **Every candidate is a committed vector**: the table has the row, and
the vector of the delta in the column. -/
def CandidatesLive (sys : System) : Prop :=
  ∀ delta ∈ sys.db.overlay.deltas, vectorAt sys.db.tables delta.key = some delta.vector

/-- **An event takes no vector away from under a candidate.** A `COMMIT`
that succeeds leaves some vector where a candidate is, one that fails the
very vector, and a table that is dropped has no candidates. -/
def KeepsCandidates (frontend : Frontend) (sys : System) (event : Event) : Prop :=
  match event with
  | .statement _ .commit =>
    if (sys.perform frontend event).2.isOk = true then
      ∀ delta ∈ sys.db.overlay.deltas,
        (vectorAt (sys.step frontend event).db.tables delta.key).isSome = true
    else
      ∀ delta ∈ sys.db.overlay.deltas,
        vectorAt (sys.step frontend event).db.tables delta.key = some delta.vector
  | .statement _ (.dropTable statement) =>
    ∀ delta ∈ sys.db.overlay.deltas, foldCase delta.tableName ≠ foldCase statement.name
  | _ => True

instance (sys : System) : Decidable sys.CandidatesLive := inferInstanceAs (Decidable (∀ _ ∈ _, _))

instance (frontend : Frontend) (sys : System) (event : Event) :
    Decidable (sys.KeepsCandidates frontend event) := by
  unfold KeepsCandidates
  split <;> infer_instance

variable {frontend : Frontend} {sys : System} {event : Event} {i : ℕ}

/-- Where the tables keep the vectors of the candidates, taking deltas away
keeps the candidates live. -/
theorem CandidatesLive.silent {sys' : System}
    (hdeltas : sys'.db.overlay.deltas.Sublist sys.db.overlay.deltas)
    (htables : ∀ delta ∈ sys.db.overlay.deltas,
      vectorAt sys'.db.tables delta.key = some delta.vector) : sys'.CandidatesLive :=
  fun delta hdelta => htables delta (hdeltas.subset hdelta)

/-- **A commit with a number keeps the candidates live** exactly if it
leaves a vector where one is. -/
theorem Coherent.candidatesLive_writer (h : sys.Coherent) (hdistinct : sys.db.overlay.Distinct)
    (hw : sys.writer frontend event = some i) :
    (sys.step frontend event).CandidatesLive ↔ ∀ delta ∈ sys.db.overlay.deltas,
      (vectorAt (sys.step frontend event).db.tables delta.key).isSome = true := by
  constructor
  · intro hlive old hold
    cases hat : vectorAt (sys.step frontend event).db.tables old.key with
    | some w => rfl
    | none =>
      obtain ⟨kept, hkept, hkey, -⟩ := h.candidate_kept hdistinct hw hold hat
      have hthere := hlive kept hkept
      rw [hkey, hat] at hthere
      cases hthere
  · intro hkeeps delta hdelta
    rcases h.candidate_cases hdistinct hw hdelta with ⟨hat, -⟩ | ⟨hat, old, hold, hkey, -⟩
    · exact hat
    · have hsome := hkeeps old hold
      rw [hkey, hat] at hsome
      cases hsome

/-- A commit that succeeds without a number has nothing to publish. -/
theorem Coherent.tables_idle (h : sys.Coherent)
    (hok : (sys.perform frontend (.statement i .commit)).2.isOk = true)
    (hw : sys.writer frontend (.statement i .commit) = none) :
    (sys.step frontend (.statement i .commit)).db.tables = sys.db.tables := by
  have hout := h.commit_outcome i
  rw [h.perform_commit frontend i] at hok
  rw [h.writer_commit frontend i] at hw
  rw [h.step_commit frontend i]
  generalize (sys.sessions i).commit sys.db = r at hok hw hout ⊢
  cases hout with
  | inactive | refused | stopped => cases hok
  | idle => rfl
  | published registry tables transactions ha ht hr hp =>
    rw [if_pos ⟨ht, rfl⟩] at hw
    cases hw

theorem Coherent.candidatesLive_commit (h : sys.Coherent) (hdistinct : sys.db.overlay.Distinct)
    (hlive : sys.CandidatesLive) (i : ℕ) :
    (sys.step frontend (.statement i .commit)).CandidatesLive ↔
      sys.KeepsCandidates frontend (.statement i .commit) := by
  unfold KeepsCandidates
  by_cases hok : (sys.perform frontend (.statement i .commit)).2.isOk = true
  · simp only [hok, if_true]
    cases hw : sys.writer frontend (.statement i .commit) with
    | some j => exact h.candidatesLive_writer hdistinct hw
    | none =>
      have htables := h.tables_idle hok hw
      rw [htables]
      refine iff_of_true (.silent (h.deltas_silent hw) ?_) fun delta hdelta => ?_
      · rw [htables]
        exact hlive
      · rw [hlive delta hdelta]
        rfl
  · have hw : sys.writer frontend (.statement i .commit) = none := if_neg fun hw => hok hw.2
    have hoverlay := h.overlay_silent hw fun g n heq => by cases heq
    simp only [hok]
    rw [CandidatesLive, hoverlay]
    rfl

/-- **An event keeps the candidates live exactly if it takes no vector away
from under one.** -/
theorem Coherent.candidatesLive_step (h : sys.Coherent) (hdistinct : sys.db.overlay.Distinct)
    (hlive : sys.CandidatesLive) (event : Event) :
    (sys.step frontend event).CandidatesLive ↔ sys.KeepsCandidates frontend event := by
  by_cases hcommit : ∃ i, event = .statement i .commit
  · obtain ⟨i, rfl⟩ := hcommit
    exact h.candidatesLive_commit hdistinct hlive i
  have hw : sys.writer frontend event = none := by
    refine Option.eq_none_iff_forall_ne_some.2 fun j hw => hcommit ⟨j, eq_of_writer hw⟩
  by_cases hddl : event.Reshapes
  · have hoverlay : (sys.step frontend event).db.overlay = sys.db.overlay :=
      h.overlay_silent hw fun g n heq => by rw [heq] at hddl; exact hddl
    match event, hddl with
    | .statement i (.dropTable statement), _ =>
      have htables : (sys.step frontend (.statement i (.dropTable statement))).db.tables =
          sys.db.tables.filter fun t => decide (t.key ≠ foldCase statement.name) :=
        tables_dropTable h.valid statement
      rw [CandidatesLive, hoverlay, htables]
      refine forall₂_congr fun delta hdelta => ?_
      rw [vectorAt_filter]
      by_cases hname : delta.key.1 = foldCase statement.name
      · rw [if_pos hname]
        exact iff_of_false (Option.some_ne_none _).symm (not_not.2 hname)
      · rw [if_neg hname]
        exact iff_of_true (hlive delta hdelta) hname
    | .statement i (.createTable statement), _ =>
      refine iff_of_true (.silent (h.deltas_silent hw) fun delta hdelta => ?_) trivial
      change vectorAt (orKeep sys.db (sys.db.createTable statement)).1.tables delta.key = _
      cases hcreate : sys.db.createTable statement with
      | error e => exact hlive delta hdelta
      | ok db' =>
        rcases Database.createTable_eq_ok h.valid hcreate with
          rfl | ⟨spec, table, -, -, -, -, rfl⟩
        · exact hlive delta hdelta
        · exact vectorAt_append (hlive delta hdelta)
  · have htables := tables_step frontend h hddl fun i heq => hcommit ⟨i, heq⟩
    refine iff_of_true (.silent (h.deltas_silent hw) fun delta hdelta => ?_) ?_
    · rw [htables]
      exact hlive delta hdelta
    · unfold KeepsCandidates
      split
      · exact absurd ⟨_, rfl⟩ hcommit
      · exact absurd trivial hddl
      · trivial

end System

/-- **No dead candidates.** From the opening of a database on, every
candidate is a committed vector at every time exactly if no event takes a
vector away from under one. -/
theorem candidates_live_iff (frontend : Frontend) {db : Database} (h : System.Opened db)
    (events : List Event) :
    (∀ first, first <+: events → ((System.start db).run frontend first).CandidatesLive) ↔
      (System.start db).Along frontend (System.KeepsCandidates frontend) events := by
  have hreach : (System.start db).Reachable frontend := ⟨db, [], h, rfl⟩
  refine Run.along_iff_invariant
    (J := fun sys : System => sys.Coherent ∧ sys.db.overlay.Distinct)
    (fun sys event hsys =>
      ⟨System.coherent_step frontend hsys.1 event, hsys.1.distinct_step hsys.2 event⟩)
    (fun sys event hsys hlive => hsys.1.candidatesLive_step hsys.2 hlive event)
    ⟨hreach.coherent, hreach.distinct⟩ fun delta hdelta => ?_
  rw [System.start, h.overlay] at hdelta
  cases hdelta

/-- The two vectors, the first drained in between. -/
def drainedVectors : List Event := Script.twoVectors.take 4 ++ [.drain 1 1] ++
  Script.twoVectors.drop 4 ++ [Script.commit 0]

/-- Insertions take nothing away. -/
theorem candidates_live_inserted :
    (System.start {}).Along Script.frontend (System.KeepsCandidates Script.frontend)
        drainedVectors ∧
      ∀ first, first <+: drainedVectors →
        ((System.start {}).run Script.frontend first).CandidatesLive := by
  have hkeeps : (System.start {}).Along Script.frontend (System.KeepsCandidates Script.frontend)
      drainedVectors := by
    decide +kernel
  exact ⟨hkeeps, (candidates_live_iff Script.frontend .empty drainedVectors).2 hkeeps⟩

/-- A vector is committed, and its row deleted. -/
def deletedVector : List Event :=
  Script.twoVectors.take 4 ++ [Script.begin 0, Script.delete 0 "M", Script.commit 0]

/-- **The candidate of a deleted row stays.** -/
theorem candidate_of_deleted_row :
    ((System.start {}).run Script.frontend deletedVector).db.overlay.deltas =
        [⟨1, ascii "M", ascii "e", 1, [0x3f800000]⟩] ∧
      ((System.start {}).run Script.frontend deletedVector).db.tables.map
        (fun t => (t.name, t.store.rows)) = [(ascii "M", [])] ∧
      ¬((System.start {}).run Script.frontend deletedVector).CandidatesLive := by
  decide +kernel

/-! ## Generations and writes -/

/-- The rows a published table transaction has updated or inserted. What
has an id that was not there, or not any more, was inserted. -/
def Transaction.writtenIds (tx : Transaction) (before after : RowStore) : List RowId :=
  tx.updates.map Row.id ++
    after.ids.filter fun id => decide (id ∉ before.ids) || decide (id ∈ tx.deletes)

/-- The row of a candidate. -/
def Delta.row (delta : Delta) : Bytes × RowId := (delta.key.1, delta.key.2.2)

theorem Delta.row_of_key {d d' : Delta} (h : d.key = d'.key) : d.row = d'.row := by
  rw [Delta.row, Delta.row, h]

namespace System

/-- **The rows an event inserts or updates**: it is a `COMMIT` with a
number, and they are those of its table transactions. -/
def writtenRows (frontend : Frontend) (sys : System) (event : Event) : List (Bytes × RowId) :=
  match sys.writer frontend event with
  | none => []
  | some i =>
    (sys.sessions i).transactions.flatMap fun entry =>
      match sys.db.tables[entry.slot]?, (sys.step frontend event).db.tables[entry.slot]? with
      | some before, some after =>
        (entry.tx.writtenIds before.store after.store).map fun id => (before.key, id)
      | _, _ => []

/-- For every row the number of the last `COMMIT` that wrote it. -/
abbrev Writes := Bytes × RowId → Option Generation

/-- The last writes after an event. -/
def writesAfter (frontend : Frontend) (sys : System) (event : Event) (writes : Writes) : Writes :=
  fun row =>
    if row ∈ sys.writtenRows frontend event then some (sys.step frontend event).db.commitSequence
    else writes row

/-- The system, and what was written when. -/
def track (frontend : Frontend) (state : System × Writes) (event : Event) : System × Writes :=
  (state.1.step frontend event, state.1.writesAfter frontend event state.2)

/-- **The last write of a row** in a run. -/
def lastWrite (frontend : Frontend) (start : System) (events : List Event) : Writes :=
  (Run.run (track frontend) (start, fun _ => none) events).2

/-- The generation of every candidate is that of the last write of its
row. -/
def GenerationsMark (sys : System) (writes : Writes) : Prop :=
  ∀ delta ∈ sys.db.overlay.deltas, writes delta.row = some delta.generation

/-- **A commit writes what it records.** If it has a number it writes every
row that has a vector then, and leaves a vector in every column of a row it
writes for which there is a candidate. -/
def WritesAsRecorded (frontend : Frontend) (sys : System) (event : Event) : Prop :=
  (sys.writer frontend event).isSome = true →
    (∀ delta ∈ vectorCells (sys.step frontend event).db.commitSequence
        (sys.step frontend event).db.tables,
      delta.row ∈ sys.writtenRows frontend event) ∧
    ∀ delta ∈ sys.db.overlay.deltas, delta.row ∈ sys.writtenRows frontend event →
      (vectorAt (sys.step frontend event).db.tables delta.key).isSome = true

instance (frontend : Frontend) (sys : System) (event : Event) :
    Decidable (sys.WritesAsRecorded frontend event) :=
  inferInstanceAs (Decidable (_ → _ ∧ _))

variable {frontend : Frontend} {sys : System} {event : Event} {i : ℕ}

theorem writtenRows_silent (hw : sys.writer frontend event = none) :
    sys.writtenRows frontend event = [] := by
  rw [writtenRows, hw]

/-- A committed vector is among those recorded. -/
theorem exists_vectorCell {db : Database} (h : db.Valid) (g : Generation) {k : CandidateKey}
    {w : List UInt32} (hat : vectorAt db.tables k = some w) :
    ∃ delta ∈ vectorCells g db.tables, delta.key = k := by
  obtain ⟨t, ht, row, column, v, hstored, rfl, rfl⟩ := (vectorAt_eq_some h).1 hat
  exact ⟨_, mem_vectorCells.2 ⟨t, ht, row, column, v, hstored, rfl⟩, rfl⟩

theorem vectorAt_of_mem {db : Database} (h : db.Valid) {g : Generation} {delta : Delta}
    (hdelta : delta ∈ vectorCells g db.tables) :
    vectorAt db.tables delta.key = some delta.vector := by
  obtain ⟨t, ht, row, column, v, hstored, rfl⟩ := mem_vectorCells.1 hdelta
  exact (vectorAt_eq_some h).2 ⟨t, ht, row, column, v, hstored, rfl, rfl⟩

/-- What is known at every time: no write has a number yet to come. -/
structure Tracked (state : System × Writes) : Prop where
  coherent : state.1.Coherent
  distinct : state.1.db.overlay.Distinct
  past : ∀ row g, state.2 row = some g → g ≤ state.1.db.commitSequence

theorem Tracked.step {state : System × Writes} (h : Tracked state) (event : Event) :
    Tracked (track frontend state event) := by
  refine ⟨coherent_step frontend h.coherent event, h.coherent.distinct_step h.distinct event,
    fun row g hg => ?_⟩
  have hle : state.1.db.commitSequence ≤ (state.1.step frontend event).db.commitSequence := by
    cases hw : state.1.writer frontend event with
    | none => rw [h.coherent.step_silent hw]
    | some i =>
      rw [(h.coherent.step_writer hw).1]
      exact Nat.le_succ _
  change state.1.writesAfter frontend event state.2 row = some g at hg
  unfold writesAfter at hg
  split at hg
  · rw [← Option.some.inj hg]
    exact Nat.le_refl _
  · exact Nat.le_trans (h.past row g hg) hle

section Writer

variable {writes : Writes}

/-- No write before a commit has its number. -/
theorem Tracked.ne_next (h : Tracked (sys, writes)) (hw : sys.writer frontend event = some i)
    {row : Bytes × RowId} {g : Generation} (hg : writes row = some g) :
    g ≠ (sys.step frontend event).db.commitSequence := by
  intro heq
  have hle := h.past row g hg
  rw [heq, (h.coherent.step_writer hw).1] at hle
  exact Nat.not_succ_le_self _ hle

/-- **A commit with a number keeps the generations to the last writes**
exactly if it writes what it records. -/
theorem Tracked.marks_writer (h : Tracked (sys, writes)) (hmarks : sys.GenerationsMark writes)
    (hw : sys.writer frontend event = some i) :
    (sys.step frontend event).GenerationsMark (sys.writesAfter frontend event writes) ↔
      sys.WritesAsRecorded frontend event := by
  have hvalid := (coherent_step frontend h.coherent event).valid
  constructor
  · intro hmarks' _
    refine ⟨fun cell hcell => ?_, fun old hold hwritten => ?_⟩
    · -- the vector is recorded with the number of the commit
      have hcandidate := h.coherent.candidate_writer h.distinct hw cell.key
      rw [vectorAt_of_mem hvalid hcell, Option.map_some, Option.some_or] at hcandidate
      obtain ⟨delta, hdelta, hkey, hcontent⟩ := Overlay.exists_of_candidate hcandidate
      have hmark := hmarks' delta hdelta
      rw [Delta.row_of_key hkey, (Prod.mk.inj hcontent).1] at hmark
      unfold writesAfter at hmark
      split at hmark
      · assumption
      · exact absurd rfl (h.ne_next hw hmark)
    · cases hat : vectorAt (sys.step frontend event).db.tables old.key with
      | some w => rfl
      | none =>
        -- a candidate that is not replaced keeps its generation
        obtain ⟨delta, hdelta, hkey, hcontent⟩ :=
          h.coherent.candidate_kept h.distinct hw hold hat
        have hmark := hmarks' delta hdelta
        rw [Delta.row_of_key hkey, (Prod.mk.inj hcontent).1, writesAfter, if_pos hwritten] at hmark
        exact absurd (Option.some.inj hmark).symm (h.ne_next hw (hmarks old hold))
  · intro hrecorded delta hdelta
    obtain ⟨hcells, hleft⟩ := hrecorded (by rw [hw]; rfl)
    unfold writesAfter
    rcases h.coherent.candidate_cases h.distinct hw hdelta with
      ⟨hat, hgeneration⟩ | ⟨hat, old, hold, hkey, hcontent⟩
    · obtain ⟨cell, hcell, hkey⟩ := exists_vectorCell hvalid _ hat
      have hwritten := hcells cell hcell
      rw [Delta.row_of_key hkey] at hwritten
      rw [if_pos hwritten, hgeneration]
    · have hunwritten : delta.row ∉ sys.writtenRows frontend event := by
        intro hwritten
        rw [← Delta.row_of_key hkey] at hwritten
        have hsome := hleft old hold hwritten
        rw [hkey, hat] at hsome
        cases hsome
      rw [if_neg hunwritten, ← Delta.row_of_key hkey, hmarks old hold, (Prod.mk.inj hcontent).1]

end Writer

theorem Tracked.marks_step {writes : Writes} (h : Tracked (sys, writes))
    (hmarks : sys.GenerationsMark writes) (event : Event) :
    (sys.step frontend event).GenerationsMark (sys.writesAfter frontend event writes) ↔
      sys.WritesAsRecorded frontend event := by
  cases hw : sys.writer frontend event with
  | some i => exact h.marks_writer hmarks hw
  | none =>
    refine iff_of_true (fun delta hdelta => ?_) fun hsome => ?_
    · rw [writesAfter, writtenRows_silent hw, if_neg List.not_mem_nil]
      exact hmarks delta ((h.coherent.deltas_silent hw).subset hdelta)
    · rw [hw] at hsome
      cases hsome

/-- **A candidate that comes back was written**: between a state without
it and a later one with it some commit has written its row. -/
theorem Coherent.written_of_comeback (h : sys.Coherent) (hdistinct : sys.db.overlay.Distinct)
    {events : List Event} (halong : sys.Along frontend (WritesAsRecorded frontend) events)
    {k : CandidateKey} (hgone : sys.db.overlay.candidate k = none)
    (hback : (sys.run frontend events).db.overlay.candidate k ≠ none) :
    ∃ done event rest, events = done ++ event :: rest ∧
      (k.1, k.2.2) ∈ (sys.run frontend done).writtenRows frontend event := by
  induction events generalizing sys with
  | nil => exact absurd hgone hback
  | cons event events ih =>
    by_cases hstill : (sys.step frontend event).db.overlay.candidate k = none
    · obtain ⟨done, event', rest, rfl, hwritten⟩ := ih (coherent_step frontend h event)
        (h.distinct_step hdistinct event) halong.2 hstill hback
      exact ⟨event :: done, event', rest, rfl, hwritten⟩
    · refine ⟨[], event, events, rfl, ?_⟩
      change (k.1, k.2.2) ∈ sys.writtenRows frontend event
      cases hw : sys.writer frontend event with
      | none =>
        obtain ⟨c, hc⟩ := Option.ne_none_iff_exists'.1 hstill
        obtain ⟨d, hd, rfl, -⟩ := Overlay.exists_of_candidate hc
        have hthere := hdistinct.candidate_of_mem ((h.deltas_silent hw).subset hd)
        rw [hgone] at hthere
        cases hthere
      | some i =>
        rw [h.candidate_writer hdistinct hw, hgone, Option.or_none] at hstill
        rw [Option.map_eq_none_iff] at hstill
        obtain ⟨w, hat⟩ := Option.ne_none_iff_exists'.1 hstill
        obtain ⟨cell, hcell, rfl⟩ :=
          exists_vectorCell (coherent_step frontend h event).valid _ hat
        exact (halong.1 (by rw [hw]; rfl)).1 cell hcell

end System

/-- **Candidates and writes.** From the opening of a database on, the
generation of every candidate is at every time the number of the last
`COMMIT` that wrote its row, exactly if every commit writes what it
records; and then a candidate that is gone comes back only after a
`COMMIT` that wrote its row. -/
theorem generations_mark_writes (frontend : Frontend) {db : Database} (h : System.Opened db)
    (events : List Event) :
    ((∀ first, first <+: events → ((System.start db).run frontend first).GenerationsMark
          (System.lastWrite frontend (System.start db) first)) ↔
        (System.start db).Along frontend (System.WritesAsRecorded frontend) events) ∧
      ((System.start db).Along frontend (System.WritesAsRecorded frontend) events →
        ∀ before between after, events = before ++ between ++ after → ∀ k : CandidateKey,
          ((System.start db).run frontend before).db.overlay.candidate k = none →
          ((System.start db).run frontend (before ++ between)).db.overlay.candidate k ≠ none →
          ∃ done event rest, between = done ++ event :: rest ∧
            (k.1, k.2.2) ∈ ((System.start db).run frontend (before ++ done)).writtenRows frontend
              event) := by
  have hreach : (System.start db).Reachable frontend := ⟨db, [], h, rfl⟩
  constructor
  · have hproj : ∀ (state : System × System.Writes) event,
        (System.track frontend state event).1 = state.1.step frontend event := fun _ _ => rfl
    have htracked : System.Tracked (System.start db, fun _ => none) :=
      ⟨hreach.coherent, hreach.distinct, fun _ _ hg => by cases hg⟩
    have hstart : (System.start db).GenerationsMark fun _ => none := by
      intro delta hdelta
      rw [System.start, h.overlay] at hdelta
      cases hdelta
    have hiff : (∀ first, first <+: events →
          ((System.start db).run frontend first).GenerationsMark
            (System.lastWrite frontend (System.start db) first)) ↔
        Run.Along (System.track frontend) (fun state event =>
          state.1.WritesAsRecorded frontend event) (System.start db, fun _ => none) events := by
      refine Iff.trans (forall₂_congr fun first _ => ?_)
        (Run.along_iff_invariant (J := System.Tracked)
          (I := fun state : System × System.Writes => state.1.GenerationsMark state.2)
          (fun _ event hstate => hstate.step event)
          (fun _ event hstate hmarks => hstate.marks_step hmarks event) htracked hstart)
      rw [System.run, ← Run.run_proj hproj (System.start db, fun _ => none) first]
      rfl
    exact hiff.trans (Run.along_proj hproj)
  · intro halong before between after hsplit k hgone hback
    rw [hsplit] at halong
    have hbetween := (Run.along_append.1 (Run.along_append.1 halong).1).2
    have hrun : ∀ more, (System.start db).run frontend (before ++ more) =
        ((System.start db).run frontend before).run frontend more := fun more =>
      Run.run_append _ _ _ _
    rw [hrun] at hback
    have hthere := hreach.run before
    obtain ⟨done, event, rest, hdone, hwritten⟩ :=
      hthere.coherent.written_of_comeback hthere.distinct hbetween hgone hback
    refine ⟨done, event, rest, hdone, ?_⟩
    rw [hrun]
    exact hwritten

/-- A vector, drained, and a new value for it in the same row. -/
def rewrittenVector : List Event :=
  Script.twoVectors.take 4 ++ [.drain 1 1, Script.begin 0, .statement 0 (.update
    { tableName := ascii "M"
      assignments := [⟨ascii "e", .literal (.vector [0x4000000000000000])⟩] }), Script.commit 0]

/-- The candidate comes back with the commit that wrote its row. -/
theorem generations_mark_writes_rewritten :
    (System.start {}).Along Script.frontend (System.WritesAsRecorded Script.frontend)
        rewrittenVector ∧
      ∀ first, first <+: rewrittenVector →
        ((System.start {}).run Script.frontend first).GenerationsMark
          (System.lastWrite Script.frontend (System.start {}) first) := by
  have hwrites : (System.start {}).Along Script.frontend (System.WritesAsRecorded Script.frontend)
      rewrittenVector := by
    decide +kernel
  exact ⟨hwrites, (generations_mark_writes Script.frontend .empty rewrittenVector).1.2 hwrites⟩

/-- **A candidate comes back without a write**: the first row was drained,
and the commit that inserts a second one records it again, as if it had
been written. -/
theorem unwritten_candidate_comes_back :
    ((System.start {}).run Script.frontend (drainedVectors.take 5)).db.overlay.deltas = [] ∧
      ((System.start {}).run Script.frontend drainedVectors).db.overlay.deltas =
        [⟨2, ascii "M", ascii "e", 1, [0x3f800000]⟩, ⟨2, ascii "M", ascii "e", 2, [0x40000000]⟩] ∧
      System.lastWrite Script.frontend (System.start {}) drainedVectors (foldCase (ascii "M"), 1) =
        some 1 := by
  decide +kernel

end Shoveler
