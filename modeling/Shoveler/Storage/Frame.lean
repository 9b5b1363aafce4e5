import Shoveler.Storage.RoundTrip

/-!
# The header of a snapshot

What stands in front of a payload, and what the decoder asks of it. A
byte string is decoded only if it is a payload behind the header that
`encodeSnapshot` writes in front of it (`decodeSnapshot_eq_ok`): the magic
word, the version, the length and the checksum of just that payload. So
the decoder and the encoder agree on what a snapshot file is before a
byte of the payload is looked at.
-/

namespace Shoveler

open Outcome List

namespace Persistence

variable {bytes word : Bytes}

/-! ## Words and their bytes -/

theorem length_bytesOfU32 (v : UInt32) : (bytesOfU32 v).length = 4 := rfl

theorem length_bytesOfU64 (v : UInt64) : (bytesOfU64 v).length = 8 := rfl

theorem bytesOfU32_u32OfBytes {v : UInt32} (h : u32OfBytes bytes = some v) :
    bytesOfU32 v = bytes := by
  unfold u32OfBytes at h
  split at h
  · rename_i b₀ b₁ b₂ b₃
    have h0 := b₀.toNat_lt
    have h1 := b₁.toNat_lt
    have h2 := b₂.toNat_lt
    have h3 := b₃.toNat_lt
    have hsum : v.toNat =
        b₀.toNat + b₁.toNat * 2 ^ 8 + b₂.toNat * 2 ^ 16 + b₃.toNat * 2 ^ 24 := by
      rw [← Option.some.inj h]
      simp only [UInt32.toNat_or, UInt32.toNat_shiftLeft, UInt8.toNat_toUInt32, UInt32.reduceToNat,
        Nat.reduceMod]
      rw [or_byte (k := 8) (by omega) h1 (by decide), or_byte (k := 16) (by omega) h2 (by decide),
        or_byte (k := 24) (by omega) h3 (by decide)]
    have hbyte : ∀ n : ℕ, n &&& 255 = n % 2 ^ 8 := fun n => Nat.and_two_pow_sub_one_eq_mod n 8
    simp only [bytesOfU32, cons.injEq, ← UInt8.toNat_inj, UInt32.toNat_toUInt8,
      UInt32.toNat_and, UInt32.toNat_shiftRight, UInt32.reduceToNat, Nat.reduceMod, hbyte,
      Nat.shiftRight_eq_div_pow, hsum]
    refine ⟨?_, ?_, ?_, ?_, trivial⟩ <;> omega
  · cases h

theorem bytesOfU64_u64OfBytes {v : UInt64} (h : u64OfBytes bytes = some v) :
    bytesOfU64 v = bytes := by
  unfold u64OfBytes at h
  split at h
  · rename_i b₀ b₁ b₂ b₃ b₄ b₅ b₆ b₇
    have h0 := b₀.toNat_lt
    have h1 := b₁.toNat_lt
    have h2 := b₂.toNat_lt
    have h3 := b₃.toNat_lt
    have h4 := b₄.toNat_lt
    have h5 := b₅.toNat_lt
    have h6 := b₆.toNat_lt
    have h7 := b₇.toNat_lt
    have hsum : v.toNat =
        b₀.toNat + b₁.toNat * 2 ^ 8 + b₂.toNat * 2 ^ 16 + b₃.toNat * 2 ^ 24 + b₄.toNat * 2 ^ 32 +
          b₅.toNat * 2 ^ 40 + b₆.toNat * 2 ^ 48 + b₇.toNat * 2 ^ 56 := by
      rw [← Option.some.inj h]
      simp only [UInt64.toNat_or, UInt64.toNat_shiftLeft, UInt8.toNat_toUInt64, UInt64.reduceToNat,
        Nat.reduceMod]
      rw [or_byte (k := 8) (by omega) h1 (by decide), or_byte (k := 16) (by omega) h2 (by decide),
        or_byte (k := 24) (by omega) h3 (by decide), or_byte (k := 32) (by omega) h4 (by decide),
        or_byte (k := 40) (by omega) h5 (by decide), or_byte (k := 48) (by omega) h6 (by decide),
        or_byte (k := 56) (by omega) h7 (by decide)]
    have hbyte : ∀ n : ℕ, n &&& 255 = n % 2 ^ 8 := fun n => Nat.and_two_pow_sub_one_eq_mod n 8
    simp only [bytesOfU64, cons.injEq, ← UInt8.toNat_inj, UInt64.toNat_toUInt8,
      UInt64.toNat_and, UInt64.toNat_shiftRight, UInt64.reduceToNat, Nat.reduceMod, hbyte,
      Nat.shiftRight_eq_div_pow, hsum]
    refine ⟨?_, ?_, ?_, ?_, ?_, ?_, ?_, ?_, trivial⟩ <;> omega
  · cases h

/-- Any four bytes are those of a word. -/
theorem exists_bytesOfU32 (h : bytes.length = 4) : ∃ v, bytesOfU32 v = bytes := by
  obtain ⟨b₀, b₁, b₂, b₃, rfl⟩ : ∃ b₀ b₁ b₂ b₃, bytes = [b₀, b₁, b₂, b₃] := by
    match bytes, h with
    | [b₀, b₁, b₂, b₃], _ => exact ⟨b₀, b₁, b₂, b₃, rfl⟩
  exact ⟨_, bytesOfU32_u32OfBytes rfl⟩

/-- And any eight bytes those of a long one. -/
theorem exists_bytesOfU64 (h : bytes.length = 8) : ∃ v, bytesOfU64 v = bytes := by
  obtain ⟨b₀, b₁, b₂, b₃, b₄, b₅, b₆, b₇, rfl⟩ :
      ∃ b₀ b₁ b₂ b₃ b₄ b₅ b₆ b₇, bytes = [b₀, b₁, b₂, b₃, b₄, b₅, b₆, b₇] := by
    match bytes, h with
    | [b₀, b₁, b₂, b₃, b₄, b₅, b₆, b₇], _ => exact ⟨b₀, b₁, b₂, b₃, b₄, b₅, b₆, b₇, rfl⟩
  exact ⟨_, bytesOfU64_u64OfBytes rfl⟩

theorem bytesOfU32_injective : Function.Injective bytesOfU32 := by
  intro v v' h
  have hv := u32OfBytes_bytesOfU32 v
  rw [h, u32OfBytes_bytesOfU32] at hv
  exact (Option.some.inj hv).symm

theorem bytesOfU64_injective : Function.Injective bytesOfU64 := by
  intro v v' h
  have hv := u64OfBytes_bytesOfU64 v
  rw [h, u64OfBytes_bytesOfU64] at hv
  exact (Option.some.inj hv).symm

/-! ## The header -/

/-- A header of any content: a word, a version, a length and a checksum. -/
def headerOf (word : Bytes) (version : UInt32) (length : UInt64) (checksum : UInt32) : Bytes :=
  word ++ (bytesOfU32 version ++ (bytesOfU64 length ++ bytesOfU32 checksum))

/-- The header `encodeSnapshot` writes in front of a payload. -/
def header (payload : Bytes) : Bytes :=
  headerOf magic currentVersion (UInt64.ofNat payload.length) (Crc32.hash payload)

theorem length_headerOf (h : word.length = magic.length) (version : UInt32) (length : UInt64)
    (checksum : UInt32) :
    (headerOf word version length checksum).length = headerSize := by
  rw [headerOf, length_append, length_append, length_append, h, length_bytesOfU32,
    length_bytesOfU64, length_bytesOfU32, headerSize]

theorem length_header (payload : Bytes) : (header payload).length = headerSize :=
  length_headerOf rfl _ _ _

theorem drop_headerOf (h : word.length = magic.length) (version : UInt32) (length : UInt64)
    (checksum : UInt32) (payload : Bytes) :
    (headerOf word version length checksum ++ payload).drop headerSize = payload := by
  rw [← length_headerOf h version length checksum, drop_left]

/-- Headers agree only where all their parts do. -/
theorem headerOf_inj {word' : Bytes} {version version' : UInt32} {length length' : UInt64}
    {checksum checksum' : UInt32} (hword : word.length = word'.length)
    (h : headerOf word version length checksum = headerOf word' version' length' checksum') :
    word = word' ∧ version = version' ∧ length = length' ∧ checksum = checksum' := by
  obtain ⟨h1, h⟩ := append_inj h hword
  obtain ⟨h2, h⟩ := append_inj h (by rw [length_bytesOfU32, length_bytesOfU32])
  obtain ⟨h3, h4⟩ := append_inj h (by rw [length_bytesOfU64, length_bytesOfU64])
  exact ⟨h1, bytesOfU32_injective h2, bytesOfU64_injective h3, bytesOfU32_injective h4⟩

/-- **What is long enough starts with a header of some content.** -/
theorem exists_headerOf (h : headerSize ≤ bytes.length) :
    ∃ word version length checksum payload, word.length = magic.length ∧
      bytes = headerOf word version length checksum ++ payload := by
  have hsize : headerSize = 26 := by decide
  have hmagic : magic.length = 10 := by decide
  have hlength : ∀ i n, i + n ≤ 26 → ((bytes.drop i).take n).length = n := by
    intro i n hin
    rw [length_take, length_drop]
    omega
  obtain ⟨version, hversion⟩ := exists_bytesOfU32 (hlength 10 4 (by omega))
  obtain ⟨length, hlen⟩ := exists_bytesOfU64 (hlength 14 8 (by omega))
  obtain ⟨checksum, hsum⟩ := exists_bytesOfU32 (hlength 22 4 (by omega))
  refine ⟨(bytes.drop 0).take 10, version, length, checksum, bytes.drop 26,
    by rw [hlength 0 10 (by omega), hmagic], ?_⟩
  have hsplit : ∀ i n, bytes.drop i = (bytes.drop i).take n ++ bytes.drop (i + n) := by
    intro i n
    rw [← drop_drop, take_append_drop]
  rw [headerOf, hversion, hlen, hsum, append_assoc, append_assoc, append_assoc,
    ← hsplit 22 4, ← hsplit 14 8, ← hsplit 10 4, ← hsplit 0 10, drop_zero]

/-- The decoder reads the length and the checksum off a header of its own
kind. -/
theorem reads_header (length : UInt64) (checksum : UInt32) :
    Reads decodeHeader (headerOf magic currentVersion length checksum) (length, checksum) := by
  refine (reads_bytes rfl).bind ?_
  rw [if_neg (not_not.2 rfl)]
  refine (reads_u32 currentVersion).bind ?_
  rw [if_neg (not_not.2 rfl)]
  exact (reads_u64 length).bind ((reads_u32 checksum).finish (.pure _))

/-- The errors of a file whose header does not fit what follows it. -/
def headerErrors : List Error :=
  [.invalidHeader, .unsupportedVersion, .payloadLengthMismatch, .payloadChecksumMismatch]

/-- And refuses every other. -/
theorem decodeHeader_refuses {word : Bytes} {version : UInt32} {length : UInt64}
    {checksum : UInt32} (hword : word.length = magic.length)
    (h : word ≠ magic ∨ version ≠ currentVersion) (payload : Bytes) :
    ∃ e ∈ headerErrors,
      decodeHeader.run (Cursor.init (headerOf word version length checksum ++ payload)) =
        .error e := by
  obtain ⟨c, hrun, hrest⟩ := reads_bytes hword
    (Cursor.init (headerOf word version length checksum ++ payload)) _
    (by rw [Cursor.rest_init, headerOf, append_assoc])
  rw [decodeHeader, StateT.run_bind, hrun, ok_bind]
  by_cases hmagic : word = magic
  · obtain ⟨c', hrun', -⟩ := reads_u32 version c _ (by rw [hrest, append_assoc])
    have hversion : version ≠ currentVersion := h.resolve_left (not_not.2 hmagic)
    refine ⟨.unsupportedVersion, by decide, ?_⟩
    simp only [hmagic, ne_eq, not_true_eq_false, if_false]
    rw [StateT.run_bind, hrun', ok_bind, if_pos hversion]
    rfl
  · refine ⟨.invalidHeader, by decide, ?_⟩
    rw [if_pos hmagic]
    rfl

/-! ## Framed payloads -/

/-- **What `encodeSnapshot` writes**: a payload behind its header. -/
theorem encodeSnapshot_eq_ok {s : DatabaseSnapshot} :
    encodeSnapshot s = .ok bytes ↔
      ∃ payload, encodePayload s = .ok payload ∧ payload.length < UInt64.size ∧
        bytes = header payload ++ payload := by
  have hframe : ∀ payload : Bytes, magic ++ bytesOfU32 currentVersion ++
      bytesOfU64 (UInt64.ofNat payload.length) ++ bytesOfU32 (Crc32.hash payload) ++ payload =
      header payload ++ payload := by
    intro payload
    simp only [header, headerOf, append_assoc]
  unfold encodeSnapshot
  simp only [bind_eq_ok, ite_error_eq_ok, Nat.not_le, appendSlice, appendU32,
    appendU64, nil_append, ok_bind, Except.ok.injEq, hframe, ge_iff_le]
  exact exists_congr fun payload => and_congr_right fun _ => and_congr_right fun _ => eq_comm

/-- **A byte string that is no payload behind its header is refused**
before the payload is looked at. -/
theorem decodeSnapshot_unframed
    (h : ∀ payload : Bytes, payload.length < UInt64.size → bytes ≠ header payload ++ payload) :
    ∃ e ∈ headerErrors, decodeSnapshot bytes = .error e := by
  by_cases hsize : bytes.length < headerSize
  · exact ⟨.invalidHeader, by decide, by rw [decodeSnapshot, if_pos hsize]⟩
  obtain ⟨word, version, length, checksum, payload, hword, rfl⟩ :=
    exists_headerOf (Nat.not_lt.1 hsize)
  by_cases hkind : word = magic ∧ version = currentVersion
  · obtain ⟨rfl, rfl⟩ := hkind
    obtain ⟨c, hrun, -⟩ := reads_header length checksum
      (Cursor.init (headerOf magic currentVersion length checksum ++ payload)) payload rfl
    have hdrop := drop_headerOf hword currentVersion length checksum payload
    have hleft : (headerOf magic currentVersion length checksum ++ payload).length - headerSize =
        payload.length := by
      rw [← length_drop, hdrop]
    simp only [decodeSnapshot, if_neg hsize, hrun, ok_bind, hdrop, hleft]
    by_cases hlength : length.toNat = payload.length
    · refine ⟨.payloadChecksumMismatch, by decide, ?_⟩
      have hsum : Crc32.hash payload ≠ checksum := by
        rintro rfl
        refine h payload (hlength ▸ length.toNat_lt) ?_
        rw [header, ← hlength, UInt64.ofNat_toNat]
      rw [if_neg (not_not.2 hlength), if_pos hsum]
    · exact ⟨.payloadLengthMismatch, by decide, if_pos hlength⟩
  · obtain ⟨e, hmem, he⟩ := @decodeHeader_refuses word version length checksum hword
      (Classical.not_and_iff_not_or_not.1 hkind) payload
    refine ⟨e, hmem, ?_⟩
    rw [decodeSnapshot, if_neg hsize, he]
    rfl

/-- **A payload behind its header is decoded**, and must be used up. -/
theorem decodeSnapshot_framed {payload : Bytes} (h : payload.length < UInt64.size) :
    decodeSnapshot (header payload ++ payload) = (do
      let (snapshot, cursor) ← decodePayload.run (Cursor.init payload)
      if cursor.finished then .ok snapshot else .error .payloadLengthMismatch) := by
  obtain ⟨c, hrun, -⟩ := reads_header (UInt64.ofNat payload.length) (Crc32.hash payload)
    (Cursor.init (header payload ++ payload)) payload rfl
  have hdrop : (header payload ++ payload).drop headerSize = payload :=
    drop_headerOf rfl _ _ _ payload
  have hleft : (header payload ++ payload).length - headerSize = payload.length := by
    rw [← length_drop, hdrop]
  have hlong : ¬(header payload ++ payload).length < headerSize := by
    rw [length_append, length_header]
    omega
  have hlength : (UInt64.ofNat payload.length).toNat = payload.length :=
    UInt64.toNat_ofNat_of_lt' h
  simp only [decodeSnapshot, if_neg hlong, hrun, ok_bind, hdrop, hleft, hlength, ne_eq,
    not_true_eq_false, if_false]

/-- **What `decodeSnapshot` accepts**: a payload behind its header, which
the payload decoder takes in to the last byte. -/
theorem decodeSnapshot_eq_ok {s : DatabaseSnapshot} :
    decodeSnapshot bytes = .ok s ↔
      ∃ payload, bytes = header payload ++ payload ∧ payload.length < UInt64.size ∧
        ∃ c, decodePayload.run (Cursor.init payload) = .ok (s, c) ∧ c.finished = true := by
  constructor
  · intro h
    obtain ⟨payload, hfits, rfl⟩ :
        ∃ payload : Bytes, payload.length < UInt64.size ∧ bytes = header payload ++ payload := by
      by_contra hnone
      obtain ⟨e, -, he⟩ := decodeSnapshot_unframed fun payload hfits heq =>
        hnone ⟨payload, hfits, heq⟩
      rw [he] at h
      cases h
    rw [decodeSnapshot_framed hfits] at h
    obtain ⟨⟨s', cursor⟩, hdecode, h⟩ := bind_eq_ok.1 h
    by_cases hfinished : cursor.finished = true
    · simp only [if_pos hfinished, Except.ok.injEq] at h
      exact ⟨payload, rfl, hfits, cursor, h ▸ hdecode, hfinished⟩
    · simp only [if_neg hfinished, reduceCtorEq] at h
  · rintro ⟨payload, rfl, hfits, cursor, hdecode, hfinished⟩
    rw [decodeSnapshot_framed hfits, hdecode, ok_bind]
    exact if_pos hfinished

end Persistence

/-- A snapshot that decoding gives back, if it can be encoded. -/
def DatabaseSnapshot.DecodesBack (s : DatabaseSnapshot) : Prop :=
  ∀ bytes, Persistence.encodeSnapshot s = .ok bytes → Persistence.decodeSnapshot bytes = .ok s

/-- **What decoding can rebuild it gives back.** -/
theorem DatabaseSnapshot.Sound.decodesBack {s : DatabaseSnapshot} (h : s.Sound) :
    s.DecodesBack := by
  intro bytes hencode
  obtain ⟨payload, hpayload, hfits, rfl⟩ := Persistence.encodeSnapshot_eq_ok.1 hencode
  obtain ⟨c, hrun, hfinished⟩ := (Persistence.reads_payload h hpayload).run_init
  exact Persistence.decodeSnapshot_eq_ok.2 ⟨payload, rfl, hfits, c, hrun, hfinished⟩

end Shoveler
