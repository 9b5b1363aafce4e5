import Shoveler.Storage.Failures
import Shoveler.Storage.Frame

/-!
# Decoding within bounds

Counts, lengths, dimensions and row ids of a snapshot file are whatever the
file says. The cursor compares every length with what is left before it
moves, so on machine numbers it does what it does on natural ones
(`machineReadBytes_eq`), and every failure on the way is an error of the
decoder (`decodeErrors`). One number is used without a look: the id of a
row, of which the store takes the successor. For the largest id there is
none, and the process ends (`largest_id_ends_process`); unless the file
lists a row with that id (`listedIds`), decoding is safe
(`decoding_safe_iff`).
-/

namespace Shoveler

open Outcome

namespace Persistence

/-! ## Machine arithmetic -/

/-- `a + b` on `usize`. -/
def usizeAdd (a b : ℕ) : Result ℕ :=
  if a + b < UInt64.size then .ok (a + b) else .error (.panic .integerOverflow)

/-- `a - b` on `usize`. -/
def usizeSub (a b : ℕ) : Result ℕ :=
  if b ≤ a then .ok (a - b) else .error (.panic .integerOverflow)

/-- `bytes[first..last]`. -/
def sliceWithin (bytes : Bytes) (first last : ℕ) : Result Bytes :=
  if first ≤ last ∧ last ≤ bytes.length then .ok ((bytes.take last).drop first)
  else .error (.panic .indexOutOfBounds)

/-- `Cursor.readBytes` on machine numbers: what it takes, and the index
behind it. -/
def machineReadBytes (bytes : Bytes) (index len : ℕ) : Result (Bytes × ℕ) := do
  let left ← usizeSub bytes.length index
  if len > left then .error .truncatedPayload
  else do
    let next ← usizeAdd index len
    return (← sliceWithin bytes index next, next)

/-- **The cursor stays within its bytes**: on machine numbers it does what
the model does, wherever it stands. -/
theorem machineReadBytes_eq {c : Cursor UInt8} (h : c.bytes.length < UInt64.size) (len : ℕ) :
    machineReadBytes c.bytes c.index len =
      ((readBytes len).run c).map fun result => (result.1, result.2.index) := by
  have hinside := c.inside
  rw [machineReadBytes, usizeSub, if_pos hinside, ok_bind, readBytes, StateT.run,
    Reader.take]
  by_cases hlong : len > c.bytes.length - c.index
  · rw [if_pos hlong, dif_pos hlong]
    rfl
  · have hfits : c.index + len < UInt64.size := by omega
    have hwithin : c.index ≤ c.index + len ∧ c.index + len ≤ c.bytes.length := by omega
    have hslice : (c.bytes.take (c.index + len)).drop c.index = c.rest.take len := by
      rw [List.drop_take, Cursor.rest, Nat.add_sub_cancel_left]
    rw [if_neg hlong, dif_neg hlong, usizeAdd, if_pos hfits, ok_bind, sliceWithin,
      if_pos hwithin, hslice]
    rfl

/-! ## The errors of the decoder -/

/-- The errors decoding comes back with. -/
def decodeErrors : List Error :=
  .truncatedPayload :: .invalidBooleanEncoding :: .invalidVectorElementType :: .invalidColumnType ::
    .invalidValueTag :: .rowStoreMismatch :: .duplicateRow :: .nameConflict ::
    (headerErrors ++ definitionErrors ++ rowErrors)

def Refuses (e : Error) : Prop := e ∈ decodeErrors

instance : DecidablePred Refuses := fun e => inferInstanceAs (Decidable (e ∈ _))

theorem refuses_of_definition {e : Error} (h : e ∈ definitionErrors) : Refuses e := by
  simp only [Refuses, decodeErrors, List.mem_cons, List.mem_append, h, true_or, or_true]

theorem refuses_of_row {e : Error} (h : e ∈ rowErrors) : Refuses e := by
  simp only [Refuses, decodeErrors, List.mem_cons, List.mem_append, h, or_true]

theorem failsWith_bytes (len : ℕ) : Reader.FailsWith Refuses (readBytes len) :=
  .take (by decide) len

theorem failsWith_u8 : Reader.FailsWith Refuses readU8 := by
  refine (failsWith_bytes 1).bind (Reader.ensures_take 1) fun bytes hlength => ?_
  obtain ⟨b, rfl⟩ := List.length_eq_one_iff.1 hlength
  exact .pure _

theorem failsWith_u32 : Reader.FailsWith Refuses readU32 := by
  refine (failsWith_bytes 4).bind (Reader.ensures_take 4) fun bytes hlength => ?_
  obtain ⟨v, rfl⟩ := exists_bytesOfU32 hlength
  rw [u32OfBytes_bytesOfU32]
  exact .pure _

theorem failsWith_u64 : Reader.FailsWith Refuses readU64 := by
  refine (failsWith_bytes 8).bind (Reader.ensures_take 8) fun bytes hlength => ?_
  obtain ⟨v, rfl⟩ := exists_bytesOfU64 hlength
  rw [u64OfBytes_bytesOfU64]
  exact .pure _

theorem failsWith_count : Reader.FailsWith Refuses readCount := failsWith_u32.next fun _ => .pure _

theorem failsWith_lengthPrefixed : Reader.FailsWith Refuses readLengthPrefixedBytes :=
  failsWith_count.next failsWith_bytes

theorem failsWith_bool : Reader.FailsWith Refuses readBool := by
  refine failsWith_u8.next fun b => ?_
  split
  · exact .pure _
  · exact .pure _
  · exact .throw (by decide)

theorem failsWith_vectorElementType : Reader.FailsWith Refuses decodeVectorElementType := by
  refine failsWith_u8.next fun b => ?_
  split
  · exact .pure _
  · exact .throw (by decide)

theorem failsWith_columnType : Reader.FailsWith Refuses decodeColumnType := by
  refine failsWith_u8.next fun b => ?_
  split
  case h_6 => exact failsWith_vectorElementType.next fun _ => failsWith_count.next fun _ => .pure _
  case h_7 => exact .throw (by decide)
  all_goals exact .pure _

theorem failsWith_value : Reader.FailsWith Refuses decodeValue := by
  refine failsWith_u8.next fun b => ?_
  split
  · exact .pure _
  · exact failsWith_u64.next fun _ => .pure _
  · exact failsWith_u64.next fun _ => .pure _
  · exact failsWith_bool.next fun _ => .pure _
  · exact failsWith_lengthPrefixed.next fun _ => .pure _
  · exact failsWith_lengthPrefixed.next fun _ => .pure _
  · exact failsWith_vectorElementType.next fun _ => failsWith_count.next fun dimension =>
      (Reader.FailsWith.times failsWith_u32 dimension).next fun _ =>
        .lift (Value.initVector_failsWith (by decide) (by decide) _ _ _)
  · exact .throw (by decide)

theorem failsWith_default : Reader.FailsWith Refuses decodeDefault := by
  refine failsWith_bool.next fun present => ?_
  cases present with
  | true => exact failsWith_value.next fun _ => .pure _
  | false => exact .pure _

theorem failsWith_columnSpec : Reader.FailsWith Refuses decodeColumnSpec :=
  failsWith_lengthPrefixed.next fun _ => failsWith_columnType.next fun _ =>
    failsWith_bool.next fun _ => failsWith_default.next fun _ => failsWith_bool.next fun _ =>
      failsWith_bool.next fun _ => .pure _

theorem failsWith_indexSpec : Reader.FailsWith Refuses decodeIndexSpec :=
  failsWith_bool.next fun _ => failsWith_lengthPrefixed.next fun _ =>
    failsWith_count.next fun columnCount =>
      (Reader.FailsWith.times failsWith_lengthPrefixed columnCount).next fun _ => .pure _

/-! ## What the file lists -/

/-- What `decodeSnapshot` takes for the payload, on machine numbers. -/
def machinePayload (bytes : Bytes) : Result Bytes :=
  if bytes.length < headerSize then .error .invalidHeader
  else do
    let ((payloadLen, checksum), _) ← decodeHeader.run (Cursor.init bytes)
    let expected ← usizeSub bytes.length headerSize
    if payloadLen.toNat ≠ expected then .error .payloadLengthMismatch
    else do
      let payload ← sliceWithin bytes headerSize bytes.length
      if Crc32.hash payload ≠ checksum then .error .payloadChecksumMismatch else .ok payload

/-- `decodeSnapshot` on machine numbers. -/
def machineDecodeSnapshot (bytes : Bytes) : Result DatabaseSnapshot := do
  let payload ← machinePayload bytes
  let (snapshot, cursor) ← decodePayload.run (Cursor.init payload)
  if cursor.finished then .ok snapshot else .error .payloadLengthMismatch

/-- A row as it stands in a file. -/
def readRow : Decoder (RowId × List Value) := do
  let id ← readU64
  let valueCount ← readCount
  return (id, ← Reader.times valueCount decodeValue)

/-- What stands in a file before the rows of a table: its definition, the
next id and the number of rows. -/
def readTable (catalog : DatabaseCatalog) :
    Decoder (DatabaseCatalog × TableDef × RowId × ℕ) := do
  let tableName ← readLengthPrefixedBytes
  let columnCount ← readCount
  let specs ← Reader.times columnCount decodeColumnSpec
  let indexCount ← readCount
  let indexes ← Reader.times indexCount decodeIndexSpec
  let catalog ← liftM (catalog.createTable
    { name := tableName, columns := specs, indexes := indexes })
  match catalog.getTable tableName with
  | none => throw .rowStoreMismatch
  | some table => return (catalog, table, ← readU64, ← readCount)

/-- **The ids of so many rows of a table**, behind those that were seen, up
to the first row that is refused: for its form, for its values, or for an
id that was seen. And the cursor behind them, if none is. -/
def rowIds (table : TableDef) : ℕ → List RowId → Cursor UInt8 →
    List RowId × Option (Cursor UInt8)
  | 0, seen, c => (seen, some c)
  | n + 1, seen, c =>
    match readRow.run c with
    | .error _ => (seen, none)
    | .ok ((id, values), c') =>
      if id ∈ seen ∨ validateValues table values ≠ .ok () then (seen, none)
      else rowIds table n (seen ++ [id]) c'

/-- The ids of the rows of so many tables, up to the first that is
refused. -/
def tableIds : ℕ → DatabaseCatalog → Cursor UInt8 → List RowId
  | 0, _, _ => []
  | n + 1, catalog, c =>
    match (readTable catalog).run c with
    | .error _ => []
    | .ok ((catalog, table, _, rowCount), c') =>
      let rows := rowIds table rowCount [] c'
      rows.1 ++ (rows.2.map (tableIds n catalog)).getD []

/-- **The row ids that a file lists**, up to the first row or table that is
refused. -/
def listedIds (bytes : Bytes) : List RowId :=
  match machinePayload bytes with
  | .error _ => []
  | .ok payload =>
    match readCount.run (Cursor.init payload) with
    | .error _ => []
    | .ok (tableCount, c) => tableIds tableCount {} c

/-- What stands behind the header can be cut out. -/
theorem sliceWithin_payload {bytes : Bytes} (h : ¬bytes.length < headerSize) :
    usizeSub bytes.length headerSize = .ok (bytes.length - headerSize) ∧
      sliceWithin bytes headerSize bytes.length = .ok (bytes.drop headerSize) := by
  refine ⟨if_pos (Nat.not_lt.1 h), ?_⟩
  rw [sliceWithin, if_pos ⟨Nat.not_lt.1 h, le_rfl⟩, List.take_length]

/-- **On machine numbers the decoder does the same.** -/
theorem machineDecodeSnapshot_eq (bytes : Bytes) :
    machineDecodeSnapshot bytes = decodeSnapshot bytes := by
  unfold machineDecodeSnapshot machinePayload decodeSnapshot
  by_cases hshort : bytes.length < headerSize
  · rw [if_pos hshort, if_pos hshort]
    rfl
  · obtain ⟨hsub, hslice⟩ := sliceWithin_payload hshort
    simp only [if_neg hshort, hsub, hslice, ok_bind]
    cases decodeHeader.run (Cursor.init bytes) with
    | error e => rfl
    | ok result =>
      simp only [ok_bind]
      split
      · rfl
      · split
        · rfl
        · rfl

/-! ## Row ids -/

/-- The largest row id. -/
def largestId : RowId := 0xffffffffffffffff

theorem nextIdAfter_below (store : RowStore) {id : RowId} (h : id ≠ largestId) :
    ∃ n, store.nextIdAfter id = .ok n := by
  have hsucc : id.toNat + 1 < UInt64.size := by
    have hlt := id.toNat_lt
    have hne : id.toNat ≠ largestId.toNat := fun heq => h (UInt64.toNat_inj.1 heq)
    have hlargest : largestId.toNat = UInt64.size - 1 := by decide
    have hsize : UInt64.size = 2 ^ 64 := by decide
    omega
  unfold RowStore.nextIdAfter nextAfter
  rw [if_pos hsucc]
  split
  · exact ⟨_, rfl⟩
  · exact ⟨_, rfl⟩

/-- The largest id is the largest. -/
theorem nextIdAfter_largest (store : RowStore) :
    store.nextIdAfter largestId = .error (.panic .integerOverflow) := by
  have hge : largestId ≥ store.nextId := by
    rw [ge_iff_le, UInt64.le_iff_toNat_le]
    have hlt := store.nextId.toNat_lt
    have hlargest : largestId.toNat = 2 ^ 64 - 1 := by decide
    omega
  rw [RowStore.nextIdAfter, if_pos hge]
  decide

/-- **What the store makes of a row** whose id it does not have. -/
theorem insertWithId_new {store : RowStore} {id : RowId} {values : List Value}
    (hid : id ∉ store.ids) (hvalues : validateValues store.table values = .ok ()) :
    (id = largestId → store.insertWithId id values = .error (.panic .integerOverflow)) ∧
      (id ≠ largestId → ∃ store', store.insertWithId id values = .ok store' ∧
        store'.table = store.table ∧ store'.ids = store.ids ++ [id]) := by
  constructor
  · rintro rfl
    rw [RowStore.insertWithId, if_neg (by rwa [RowStore.findRowIndex_isSome]),
      Row.init_eq_ok.2 ⟨hvalues, rfl⟩, ok_bind, nextIdAfter_largest]
    rfl
  · intro hne
    obtain ⟨n, hn⟩ := nextIdAfter_below store hne
    refine ⟨_, RowStore.insertWithId_eq_ok.2 ⟨hid, hvalues, n, hn, rfl⟩, rfl, ?_⟩
    exact List.map_append

/-- And of one that it refuses. -/
theorem insertWithId_refused {store : RowStore} {id : RowId} {values : List Value}
    (h : id ∈ store.ids ∨ validateValues store.table values ≠ .ok ()) :
    ∃ e, store.insertWithId id values = .error e ∧ Refuses e := by
  rw [RowStore.insertWithId]
  by_cases hid : (store.findRowIndex id).isSome = true
  · rw [if_pos hid]
    exact ⟨_, rfl, by decide⟩
  · rw [if_neg hid, Row.init]
    rw [RowStore.findRowIndex_isSome] at hid
    cases hvalues : validateValues store.table values with
    | ok u => exact absurd hvalues (h.resolve_left hid)
    | error e => exact ⟨e, rfl, refuses_of_row (validateValues_failsWith _ _ e hvalues)⟩

/-! ## The decoder, step by step -/

theorem failsWith_createTable (catalog : DatabaseCatalog) (spec : TableSpec) :
    Outcome.FailsWith Refuses (catalog.createTable spec) :=
  .guard (by decide) fun _ => .guard (by decide) fun _ =>
    ((TableDef.init_failsWith spec).mono fun _ => refuses_of_definition).bind fun _ _ => .ok _

theorem failsWith_named {register : DatabaseCatalog → Bytes → Bytes → Result DatabaseCatalog}
    (h : ∀ catalog name body, Outcome.FailsWith Refuses (register catalog name body))
    (snapshot : DatabaseSnapshot) : Reader.FailsWith Refuses (decodeNamed register snapshot) :=
  failsWith_lengthPrefixed.next fun _ => failsWith_lengthPrefixed.next fun _ =>
    (Reader.FailsWith.lift (h _ _ _)).next fun _ => .pure _

theorem failsWith_view (snapshot : DatabaseSnapshot) :
    Reader.FailsWith Refuses (decodeView snapshot) :=
  failsWith_named (fun _ _ _ => .guard (by decide) fun _ => .guard (by decide) fun _ => .ok _) _

theorem failsWith_procedure (snapshot : DatabaseSnapshot) :
    Reader.FailsWith Refuses (decodeProcedure snapshot) :=
  failsWith_named (fun _ _ _ => .guard (by decide) fun _ => .guard (by decide) fun _ => .ok _) _

theorem failsWith_header : Reader.FailsWith Refuses decodeHeader := by
  refine (failsWith_bytes _).next fun found => ?_
  dsimp only
  split
  · exact .throw_bind (by decide)
  · refine failsWith_u32.next fun version => ?_
    split
    · exact .throw_bind (by decide)
    · exact failsWith_u64.next fun _ => failsWith_u32.next fun _ => .pure _

theorem failsWith_payload (bytes : Bytes) : Outcome.FailsWith Refuses (machinePayload bytes) := by
  refine .guard (by decide) fun hlong => (failsWith_header _).bind fun ⟨⟨_, _⟩, _⟩ _ => ?_
  obtain ⟨hsub, hslice⟩ := sliceWithin_payload hlong
  simp only [hsub, hslice, ok_bind]
  exact .guard (by decide) fun _ => .guard (by decide) fun _ => .ok _

theorem failsWith_readRow : Reader.FailsWith Refuses readRow :=
  failsWith_u64.next fun _ => failsWith_count.next fun valueCount =>
    (Reader.FailsWith.times failsWith_value valueCount).next fun _ => .pure _

theorem failsWith_readTable (catalog : DatabaseCatalog) :
    Reader.FailsWith Refuses (readTable catalog) := by
  refine failsWith_lengthPrefixed.next fun tableName => failsWith_count.next fun columnCount =>
    (Reader.FailsWith.times failsWith_columnSpec columnCount).next fun specs =>
    failsWith_count.next fun indexCount =>
    (Reader.FailsWith.times failsWith_indexSpec indexCount).next fun indexes =>
    (Reader.FailsWith.lift (failsWith_createTable _ _)).next fun catalog => ?_
  split
  · exact .throw (by decide)
  · exact failsWith_u64.next fun _ => failsWith_count.next fun _ => .pure _

theorem decodeRow_eq (store : RowStore) :
    decodeRow store = readRow >>= fun row => liftM (store.insertWithId row.1 row.2) := by
  simp only [decodeRow, readRow, bind_assoc, pure_bind]

theorem decodeTable_eq (snapshot : DatabaseSnapshot) :
    decodeTable snapshot = readTable snapshot.catalog >>= fun (catalog, table, nextId, rowCount) => do
      let store ← Reader.loop rowCount decodeRow { RowStore.init table with nextId := nextId }
      let snapshot := { snapshot with catalog := catalog }.refreshStoreTablePointers
      return { snapshot with stores := snapshot.stores ++ [store] } := by
  simp only [decodeTable, readTable, bind_assoc]
  refine bind_congr fun tableName => bind_congr fun columnCount => bind_congr fun specs =>
    bind_congr fun indexCount => bind_congr fun indexes => bind_congr fun catalog => ?_
  change (match catalog.getTable tableName with
    | none => _
    | some table => _) = _
  cases catalog.getTable tableName with
  | none => rfl
  | some table => simp only [bind_assoc, pure_bind]

theorem mem_rowIds {table : TableDef} {n : ℕ} {seen : List RowId} {c : Cursor UInt8} {id : RowId}
    (h : id ∈ seen) : id ∈ (rowIds table n seen c).1 := by
  induction n generalizing seen c with
  | zero => exact h
  | succ n ih =>
    rw [rowIds]
    split
    · exact h
    · split
      · exact h
      · exact ih (List.mem_append_left _ h)

/-- **The loop over the rows** overflows if the largest id is among theirs,
and otherwise ends behind them or with an error of the decoder. -/
theorem loop_decodeRow (n : ℕ) (store : RowStore) (c : Cursor UInt8) {table : TableDef}
    {seen : List RowId} (htable : store.table = table) (hseen : store.ids = seen)
    (h : largestId ∉ seen) :
    let listed := rowIds table n seen c
    (largestId ∈ listed.1 ∧
        (Reader.loop n decodeRow store).run c = .error (.panic .integerOverflow)) ∨
      largestId ∉ listed.1 ∧
        ((∃ c' store', listed.2 = some c' ∧ (Reader.loop n decodeRow store).run c = .ok (store', c')) ∨
          ∃ e, listed.2 = none ∧ (Reader.loop n decodeRow store).run c = .error e ∧ Refuses e) := by
  induction n generalizing store c table seen with
  | zero => exact .inr ⟨h, .inl ⟨c, store, rfl, rfl⟩⟩
  | succ n ih =>
    intro listed
    subst htable hseen
    have hstep : (Reader.loop (n + 1) decodeRow store).run c = readRow.run c >>= fun row =>
        (store.insertWithId row.1.1 row.1.2) >>= fun store' =>
          (Reader.loop n decodeRow store').run row.2 := by
      rw [Reader.loop, decodeRow_eq, StateT.run_bind, StateT.run_bind, bind_assoc]
      refine bind_congr fun row => ?_
      cases store.insertWithId row.1.1 row.1.2 <;> rfl
    rw [hstep]
    cases hrow : readRow.run c with
    | error e =>
      have hlisted : listed = (store.ids, none) := by
        simp only [listed, rowIds, hrow]
      rw [hlisted]
      exact .inr ⟨h, .inr ⟨e, rfl, rfl, failsWith_readRow c e hrow⟩⟩
    | ok row =>
      obtain ⟨⟨id, values⟩, c'⟩ := row
      rw [ok_bind]
      by_cases hrefused : id ∈ store.ids ∨ validateValues store.table values ≠ .ok ()
      · have hlisted : listed = (store.ids, none) := by
          simp only [listed, rowIds, hrow, if_pos hrefused]
        obtain ⟨e, he, hrefuses⟩ := insertWithId_refused hrefused
        rw [hlisted, he]
        exact .inr ⟨h, .inr ⟨e, rfl, rfl, hrefuses⟩⟩
      · have hlisted : listed = rowIds store.table n (store.ids ++ [id]) c' := by
          simp only [listed, rowIds, hrow, if_neg hrefused]
        rw [not_or, not_not] at hrefused
        obtain ⟨hlargest, hother⟩ := insertWithId_new hrefused.1 hrefused.2
        rw [hlisted]
        by_cases hid : id = largestId
        · refine .inl ⟨mem_rowIds (List.mem_append_right _ (List.mem_singleton.2 hid.symm)), ?_⟩
          rw [hlargest hid]
          rfl
        · obtain ⟨store', hstore, htable, hids⟩ := hother hid
          rw [hstore, ok_bind]
          refine ih store' c' htable hids ?_
          exact fun hmem => (List.mem_append.1 hmem).elim h fun heq =>
            hid (List.mem_singleton.1 heq).symm

/-- **So does the loop over the tables.** -/
theorem loop_decodeTable (n : ℕ) (snapshot : DatabaseSnapshot) (c : Cursor UInt8) :
    (largestId ∈ tableIds n snapshot.catalog c ∧
        (Reader.loop n decodeTable snapshot).run c = .error (.panic .integerOverflow)) ∨
      largestId ∉ tableIds n snapshot.catalog c ∧
        Outcome.FailsWith Refuses ((Reader.loop n decodeTable snapshot).run c) := by
  induction n generalizing snapshot c with
  | zero => exact .inr ⟨List.not_mem_nil, .ok _⟩
  | succ n ih =>
    rw [Reader.loop, StateT.run_bind, decodeTable_eq, StateT.run_bind, tableIds]
    cases htable : (readTable snapshot.catalog).run c with
    | error e => exact .inr ⟨List.not_mem_nil, .error (failsWith_readTable _ c e htable)⟩
    | ok result =>
      obtain ⟨⟨catalog, table, nextId, rowCount⟩, c'⟩ := result
      simp only [ok_bind, StateT.run_bind]
      have hrows := @loop_decodeRow rowCount { RowStore.init table with nextId := nextId } c' table []
        rfl rfl List.not_mem_nil
      rcases hrows with ⟨hmem, hrun⟩ | ⟨hmem, ⟨c'', store, hleft, hrun⟩ | ⟨e, hleft, hrun, he⟩⟩
      · rw [hrun]
        exact .inl ⟨List.mem_append_left _ hmem, rfl⟩
      · rw [hrun, hleft]
        have hmore := ih ⟨catalog, (DatabaseSnapshot.refreshStoreTablePointers
          { snapshot with catalog := catalog }).stores ++ [store]⟩ c''
        refine hmore.imp (fun h => ⟨List.mem_append_right _ h.1, h.2⟩) fun h => ⟨?_, h.2⟩
        exact fun hin => (List.mem_append.1 hin).elim hmem h.1
      · rw [hrun, hleft]
        refine .inr ⟨?_, .error he⟩
        rwa [Option.map_none, Option.getD_none, List.append_nil]

/-- **The decoder overflows exactly where the file lists the largest id.** -/
theorem decodeSnapshot_cases (bytes : Bytes) :
    (largestId ∈ listedIds bytes ∧ decodeSnapshot bytes = .error (.panic .integerOverflow)) ∨
      largestId ∉ listedIds bytes ∧ Outcome.FailsWith Refuses (decodeSnapshot bytes) := by
  rw [← machineDecodeSnapshot_eq, machineDecodeSnapshot, listedIds]
  cases hpayload : machinePayload bytes with
  | error e => exact .inr ⟨List.not_mem_nil, .error (failsWith_payload bytes e hpayload)⟩
  | ok payload =>
    rw [ok_bind, decodePayload, StateT.run_bind]
    dsimp only
    cases hcount : readCount.run (Cursor.init payload) with
    | error e => exact .inr ⟨List.not_mem_nil, .error (failsWith_count _ e hcount)⟩
    | ok result =>
      obtain ⟨tableCount, c⟩ := result
      simp only [ok_bind, StateT.run_bind]
      rcases loop_decodeTable tableCount {} c with ⟨hmem, hrun⟩ | ⟨hmem, hfails⟩
      · rw [hrun]
        exact .inl ⟨hmem, rfl⟩
      · refine .inr ⟨hmem, .bind (.bind hfails fun tables _ => ?_) fun decoded _ => ?_⟩
        · have hviews : Reader.FailsWith Refuses (do
              let viewCount ← readCount
              let snapshot ← Reader.loop viewCount decodeView tables.1.refreshStoreTablePointers
              let procedureCount ← readCount
              Reader.loop procedureCount decodeProcedure snapshot) :=
            failsWith_count.next fun viewCount =>
              (Reader.FailsWith.loop failsWith_view viewCount _).next fun _ =>
                failsWith_count.next fun procedureCount =>
                  .loop failsWith_procedure procedureCount _
          exact hviews tables.2
        · split
          · exact .ok _
          · exact .error (by decide)

/-! ## Safety -/

/-- **Decoding is safe up to the largest row id.** A cursor over the file,
or over a part of it, takes slices within its bytes and refuses what is
too long; so does `decodeSnapshot` with the payload. It comes back with a
snapshot or with one of its own errors if, and only if, the largest id is
not among the row ids that the file lists. -/
theorem decoding_safe_iff {bytes : Bytes} (hsize : bytes.length < UInt64.size) :
    (∀ c : Cursor UInt8, c.bytes.length ≤ bytes.length → ∀ len,
      machineReadBytes c.bytes c.index len =
        if len ≤ c.rest.length then .ok (c.rest.take len, c.index + len)
        else .error .truncatedPayload) ∧
      machineDecodeSnapshot bytes = decodeSnapshot bytes ∧
      ((∀ e, decodeSnapshot bytes = .error e → e ∈ decodeErrors) ↔
        largestId ∉ listedIds bytes) := by
  refine ⟨fun c hc len => ?_, machineDecodeSnapshot_eq bytes, ?_⟩
  · rw [machineReadBytes_eq (Nat.lt_of_le_of_lt hc hsize), readBytes, StateT.run, Reader.take,
      c.length_rest]
    by_cases hlong : len > c.bytes.length - c.index
    · rw [dif_pos hlong, if_neg (Nat.not_le.2 hlong)]
      rfl
    · rw [dif_neg hlong, if_pos (Nat.not_lt.1 hlong)]
      rfl
  · rcases decodeSnapshot_cases bytes with ⟨hmem, hrun⟩ | ⟨hmem, hfails⟩
    · refine iff_of_false (fun hsafe => ?_) (not_not.2 hmem)
      exact absurd (hsafe _ hrun) (by decide)
    · exact iff_of_true hfails hmem

/-- A table with one integer column and one row, which is `NULL`. -/
def oneRow (id : RowId) : Bytes :=
  let name (text : String) := bytesOfU32 1 ++ ascii text
  let column := name "v" ++ [1, 1, 0, 0, 0]
  let row := bytesOfU64 id ++ bytesOfU32 1 ++ [0]
  let table := name "t" ++ bytesOfU32 1 ++ column ++ bytesOfU32 0 ++ bytesOfU64 1 ++
    bytesOfU32 1 ++ row
  bytesOfU32 1 ++ table ++ bytesOfU32 0 ++ bytesOfU32 0

/-- The file of that table. -/
def oneRowFile (id : RowId) : Bytes := header (oneRow id) ++ oneRow id

/-- The second largest id is read. -/
theorem decoding_safe_below :
    (∀ e, decodeSnapshot (oneRowFile (largestId - 1)) = .error e → e ∈ decodeErrors) ∧
      ((decodeSnapshot (oneRowFile (largestId - 1))).map fun snapshot =>
        snapshot.stores.map fun store => store.rows.map Row.id) = .ok [[largestId - 1]] := by
  exact ⟨((decoding_safe_iff (by decide)).2.2).2 (by decide +kernel), by decide +kernel⟩

/-- **The largest id ends the process**: the store adds one to it. -/
theorem largest_id_ends_process :
    decodeSnapshot (oneRowFile largestId) = .error (.panic .integerOverflow) := by
  decide +kernel

end Persistence

end Shoveler
