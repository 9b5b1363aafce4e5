import Shoveler.Storage.Accepted
import Shoveler.Storage.Checksum

/-!
# The snapshot format

Three properties of `encodeSnapshot` and `decodeSnapshot` taken together.
What is encoded is decoded to the same snapshot (`snapshot_round_trip`);
whatever bytes are decoded, the snapshot is in good order
(`decoded_in_order`); and a file that was cut off, grew, or had one byte
changed is never decoded (`damage_refused`), because a checksum tells
payloads apart that differ in one byte.
-/

namespace Shoveler

open Persistence Outcome List

/-! ## Round trip -/

/-- **A snapshot that decoding can rebuild comes back as it was**, in every
field, whenever it can be encoded. -/
theorem snapshot_round_trip {s : DatabaseSnapshot} {bytes : Bytes} (h : s.Sound)
    (hencode : encodeSnapshot s = .ok bytes) : decodeSnapshot bytes = .ok s :=
  h.decodesBack bytes hencode

/-- Columns of every type, with a key that counts by itself and a default. -/
def sampleColumns : List ColumnDef := [
  { name := ascii "id", columnType := .integer, nullable := false, primaryKey := true
    autoIncrement := true },
  { name := ascii "body", columnType := .text, nullable := false
    defaultValue := some (.text (ascii "seed")) },
  { name := ascii "score", columnType := .float },
  { name := ascii "done", columnType := .boolean },
  { name := ascii "raw", columnType := .blob },
  { name := ascii "place", columnType := .vector { dimension := 2 } }]

/-- A primary index and another one. -/
def sampleIndexes : List IndexDef := [
  { name := ascii "PRIMARY", columns := [ascii "ID"], kind := .primary },
  { name := ascii "by_body", columns := [ascii "body", ascii "score"] }]

/-- The table made of them. -/
def sampleTable : TableDef where
  name := ascii "Notes"
  columns := sampleColumns
  indexes := sampleIndexes
  wellFormed := @TableDef.build_wellFormed
    { name := ascii "Notes", columns := sampleColumns.map ColumnDef.toSpec
      indexes := sampleIndexes.map IndexDef.toSpec } _ _ (by decide +kernel)

/-- A row of values, and a row with the nulls the columns allow. -/
def sampleRows : List Row := [
  ⟨7, [.integer (-3), .text (ascii "first"), .float 0x7FF8000000000001, .boolean true,
    .blob [0, 255], .vector ⟨.float32, 2, [0x3F800000, 0x7FC00001], by decide, rfl⟩]⟩,
  ⟨2, [.integer 4, .text [], .null, .null, .null, .null]⟩]

/-- The table with its rows, a view and a procedure. -/
def sampleSnapshot : DatabaseSnapshot where
  catalog := {
    tables := [sampleTable]
    views := [⟨ascii "recent", ascii "SELECT * FROM Notes"⟩]
    procedures := [⟨ascii "tidy", ascii "BEGIN DELETE FROM Notes; END"⟩] }
  stores := [{ table := sampleTable, rows := sampleRows, nextId := 8 }]

theorem sampleSnapshot_sound : sampleSnapshot.Sound where
  aligned := rfl
  valid := by
    intro store hstore
    obtain rfl := mem_singleton.1 hstore
    exact ⟨by decide +kernel, by decide +kernel, by decide +kernel⟩
  distinct := by decide +kernel
  rebuilds := by
    intro table htable
    obtain rfl := mem_singleton.1 htable
    exact ⟨_, TableDef.cloneTableDef_eq_ok.2 ⟨by decide +kernel, rfl⟩⟩

theorem sampleSnapshot_encodes : ∃ bytes, encodeSnapshot sampleSnapshot = .ok bytes :=
  exists_ok (by decide +kernel)

theorem snapshot_round_trip_sample :
    sampleSnapshot.Sound ∧ ∃ bytes, encodeSnapshot sampleSnapshot = .ok bytes ∧
      decodeSnapshot bytes = .ok sampleSnapshot := by
  obtain ⟨bytes, hencode⟩ := sampleSnapshot_encodes
  exact ⟨sampleSnapshot_sound, bytes, hencode, snapshot_round_trip sampleSnapshot_sound hencode⟩

/-! ## What is accepted -/

/-- **A value a column may hold**: null where it is nullable, and otherwise
a value of its type, a vector with the column's dimension. -/
def ColumnDef.Holds (c : ColumnDef) : Value → Prop
  | .null => c.nullable = true
  | .integer _ => c.columnType = .integer
  | .float _ => c.columnType = .float
  | .boolean _ => c.columnType = .boolean
  | .text _ => c.columnType = .text
  | .blob _ => c.columnType = .blob
  | .vector v => c.columnType = .vector { elementType := v.elementType, dimension := v.dimension }

theorem ColumnDef.holds_of_validateValue {c : ColumnDef} {v : Value}
    (h : c.validateValue v = .ok ()) : c.Holds v := by
  cases v with
  | null =>
    rw [ColumnDef.validateValue] at h
    split at h
    · assumption
    · cases h
  | integer | float | boolean | text | blob =>
    unfold ColumnDef.validateValue at h
    unfold ColumnDef.Holds
    cases hc : c.columnType with
    | integer | float | boolean | text | blob | vector =>
      simp_all [ColumnType.acceptsValue]
  | vector v =>
    unfold ColumnDef.validateValue at h
    unfold ColumnDef.Holds
    cases hc : c.columnType with
    | integer | float | boolean | text | blob => simp_all [ColumnType.acceptsValue]
    | vector t =>
      rw [hc] at h
      obtain ⟨hagree, -⟩ := ite_error_eq_ok.1 h
      rw [not_or, not_not, not_not] at hagree
      have htype : VectorType.mk t.elementType t.dimension = ⟨v.elementType, v.dimension⟩ := by
        rw [hagree.1, hagree.2]
      exact congrArg ColumnType.vector htype

/-- A row that passes `validateValues` has one value for each column, which
the column may hold. -/
theorem Row.Conforms.forall₂_holds {table : TableDef} {row : Row} (h : row.Conforms table) :
    List.Forall₂ ColumnDef.Holds table.columns row.values := by
  have heach : ∀ (columns : List ColumnDef) (values : List Value),
      values.length = columns.length → validateEach columns values = .ok () →
      List.Forall₂ ColumnDef.Holds columns values := by
    intro columns
    induction columns with
    | nil =>
      intro values hlength _
      rw [eq_nil_of_length_eq_zero hlength]
      exact .nil
    | cons column columns ih =>
      intro values hlength hvalid
      cases values with
      | nil => cases hlength
      | cons value values =>
        obtain ⟨⟨⟩, hvalue, hrest⟩ := bind_eq_ok.1 hvalid
        exact .cons (ColumnDef.holds_of_validateValue hvalue)
          (ih values (Nat.succ.inj hlength) hrest)
  rw [Row.Conforms, validateValues, ite_error_eq_ok, not_not] at h
  exact heach _ _ h.1 h.2

/-- **Everything the decoder accepts is in good order**, whatever the bytes
are: each store belongs to the table at its place, every row has a value
for each column that the column may hold, row ids are distinct and below
the next one, no name is used twice, and every definition has distinct
column names, at most one primary index, and indexes over columns it has.
A row with the last id there is stops the decoder, so no row has it. -/
theorem decoded_in_order {bytes : Bytes} {s : DatabaseSnapshot} (h : decodeSnapshot bytes = .ok s) :
    s.stores.map RowStore.table = s.catalog.tables ∧
    (∀ store ∈ s.stores,
      (∀ row ∈ store.rows, List.Forall₂ ColumnDef.Holds store.table.columns row.values) ∧
      (store.rows.map Row.id).Nodup ∧ ∀ row ∈ store.rows, row.id < store.nextId) ∧
    s.catalog.keys.Nodup ∧
    ∀ table ∈ s.catalog.tables,
      (table.columns.map ColumnDef.key).Nodup ∧
      table.indexes.countP (fun index => index.kind = .primary) ≤ 1 ∧
      ∀ index ∈ table.indexes, ∀ name ∈ index.columns,
        ∃ column ∈ table.columns, column.key = foldCase name := by
  have hformed := wellFormed_of_decodeSnapshot h
  refine ⟨hformed.aligned, fun store hstore => ?_, hformed.distinct, fun table _ => ?_⟩
  · have hvalid := hformed.valid store hstore
    exact ⟨fun row hrow => (hvalid.conform row hrow).forall₂_holds, hvalid.distinct, hvalid.below⟩
  · refine ⟨table.wellFormed.names, table.wellFormed.onePrimary, fun index hindex name hname => ?_⟩
    exact mem_map.1 ((table.wellFormed.covered index hindex).2 name hname)

/-- The rows of the sample, read back from its file. -/
theorem decoded_in_order_sample :
    ∃ bytes, decodeSnapshot bytes = .ok sampleSnapshot ∧
      ∀ row ∈ sampleRows, List.Forall₂ ColumnDef.Holds sampleColumns row.values := by
  obtain ⟨bytes, hencode⟩ := sampleSnapshot_encodes
  have hdecode := sampleSnapshot_sound.decodesBack bytes hencode
  obtain ⟨-, hstores, -⟩ := decoded_in_order hdecode
  exact ⟨bytes, hdecode, (hstores _ mem_cons_self).1⟩

/-! ## What is refused -/

/-- A byte string `decodeSnapshot` refuses for its header. -/
def Refused (bytes : Bytes) : Prop := ∃ e ∈ headerErrors, decodeSnapshot bytes = .error e

/-- Headers that agree stand in front of payloads of the same length with
the same checksum. -/
theorem header_inj {payload payload' : Bytes} (hfits : payload.length < UInt64.size)
    (hfits' : payload'.length < UInt64.size) (h : header payload = header payload') :
    payload.length = payload'.length ∧ Crc32.hash payload = Crc32.hash payload' := by
  obtain ⟨-, -, hlength, hsum⟩ := headerOf_inj rfl h
  refine ⟨?_, hsum⟩
  rw [← UInt64.toNat_inj, UInt64.toNat_ofNat_of_lt' hfits, UInt64.toNat_ofNat_of_lt' hfits'] at hlength
  exact hlength

/-- A payload cut off behind its header, or grown, is refused. -/
theorem refused_of_length_ne {payload bytes : Bytes} (hfits : payload.length < UInt64.size)
    (h : ∀ payload', bytes = header payload' ++ payload' →
      header payload' = header payload ∧ payload'.length ≠ payload.length) : Refused bytes := by
  refine decodeSnapshot_unframed fun payload' hfits' heq => ?_
  obtain ⟨hheader, hne⟩ := h payload' heq
  exact hne (header_inj hfits' hfits hheader).1

/-- **A proper prefix of a snapshot file is refused.** -/
theorem refused_of_isPrefix {payload bytes : Bytes} (hfits : payload.length < UInt64.size)
    (hbefore : bytes <+: header payload ++ payload) (hne : bytes ≠ header payload ++ payload) :
    Refused bytes := by
  refine refused_of_length_ne hfits fun payload' heq => ?_
  subst heq
  obtain ⟨rest, hrest⟩ := hbefore
  rw [append_assoc] at hrest
  obtain ⟨hheader, hpayload⟩ := append_inj hrest (by rw [length_header, length_header])
  refine ⟨hheader, fun hlength => hne ?_⟩
  have hnil : rest = [] := by
    rw [← length_eq_zero_iff]
    have := congrArg length hpayload
    rw [length_append] at this
    omega
  rw [hnil, append_nil] at hpayload
  rw [hpayload]

/-- **A snapshot file with anything behind it is refused.** -/
theorem refused_of_extended {payload more : Bytes} (hfits : payload.length < UInt64.size)
    (hmore : more ≠ []) : Refused (header payload ++ payload ++ more) := by
  refine refused_of_length_ne hfits fun payload' heq => ?_
  rw [append_assoc] at heq
  obtain ⟨hheader, hpayload⟩ := append_inj heq (by rw [length_header, length_header])
  refine ⟨hheader.symm, ?_⟩
  have hpos := length_pos_iff.2 hmore
  rw [← hpayload, length_append]
  omega

/-- **A snapshot file with one byte changed is refused.** In the header the
payload is still the same and has only one header; in the payload the
header asks for another checksum. -/
theorem refused_of_changed {payload : Bytes} (hfits : payload.length < UInt64.size) {i : ℕ}
    {byte : UInt8} (hi : i < (header payload ++ payload).length)
    (hbyte : byte ≠ (header payload ++ payload)[i]) :
    Refused ((header payload ++ payload).set i byte) := by
  refine decodeSnapshot_unframed fun payload' hfits' heq => ?_
  have hchanged : (header payload ++ payload).set i byte ≠ header payload ++ payload := by
    intro hsame
    have hset : ((header payload ++ payload).set i byte)[i]? = some byte :=
      getElem?_set_self hi
    rw [hsame, getElem?_eq_getElem hi, Option.some.injEq] at hset
    exact hbyte hset.symm
  by_cases hheader : i < (header payload).length
  · rw [set_append_left _ _ hheader] at heq hchanged
    obtain ⟨-, hpayload⟩ := append_inj heq (by
      rw [length_set, length_header, length_header])
    rw [hpayload] at heq hchanged
    exact hchanged heq
  · have hplace := Nat.not_lt.1 hheader
    rw [set_append_right _ _ hplace] at heq
    obtain ⟨hsame, hpayload⟩ := append_inj heq (by rw [length_header, length_header])
    have hsum := (header_inj hfits hfits' hsame).2
    generalize hj : i - (header payload).length = j at hpayload
    have hlt : j < payload.length := by
      rw [length_append] at hi
      omega
    rw [getElem_append_right hplace] at hbyte
    simp only [hj] at hbyte
    rw [← hpayload, set_eq_take_append_cons_drop, if_pos hlt] at hsum
    have hsplit : payload = payload.take j ++ payload[j] :: payload.drop (j + 1) := by
      rw [← drop_eq_getElem_cons hlt, take_append_drop]
    refine Crc32.hash_ne_of_ne hbyte.symm (payload.take j) (payload.drop (j + 1)) ?_
    rw [← hsplit, hsum]

/-- **Damage is detected.** Of a file that `encodeSnapshot` has written,
every proper prefix, every extension, and every copy with one byte changed
is refused. -/
theorem damage_refused {s : DatabaseSnapshot} {bytes : Bytes}
    (h : encodeSnapshot s = .ok bytes) :
    (∀ shorter, shorter <+: bytes → shorter ≠ bytes → Refused shorter) ∧
    (∀ more, more ≠ [] → Refused (bytes ++ more)) ∧
    ∀ i byte, (hi : i < bytes.length) → byte ≠ bytes[i] → Refused (bytes.set i byte) := by
  obtain ⟨payload, -, hfits, rfl⟩ := encodeSnapshot_eq_ok.1 h
  exact ⟨fun shorter hbefore hne => refused_of_isPrefix hfits hbefore hne,
    fun more hmore => refused_of_extended hfits hmore,
    fun i byte hi hbyte => refused_of_changed hfits hi hbyte⟩

/-- The file of the sample cut off in its payload, with one byte more, and
with a byte of its payload changed. -/
theorem damage_refused_sample :
    ∃ bytes, encodeSnapshot sampleSnapshot = .ok bytes ∧ Refused (bytes.take 40) ∧
      Refused (bytes ++ [0]) ∧ Refused (bytes.set 40 0xAA) := by
  have hbyte : (encodeSnapshot sampleSnapshot).toOption.map (fun bytes => bytes[40]?) =
      some (some 0) := by decide +kernel
  obtain ⟨bytes, hencode⟩ := sampleSnapshot_encodes
  rw [hencode] at hbyte
  obtain ⟨hlt, hzero⟩ := List.getElem?_eq_some_iff.1 (Option.some.inj hbyte)
  obtain ⟨hshorter, hlonger, hchanged⟩ := damage_refused hencode
  refine ⟨bytes, hencode, hshorter _ (List.take_prefix _ _) fun hsame => ?_,
    hlonger _ (cons_ne_nil _ _), hchanged 40 0xAA hlt (by rw [hzero]; decide)⟩
  have hlength := congrArg length hsame
  rw [length_take] at hlength
  omega

end Shoveler
