import PiSecure.Theory.Decoding

/-! # Round trips of the peer messages

Decoding the encoding of a message returns what was sent. Of an address the
family and the count of failures are not sent, and of a header the height. A
payload of headers is recognised by its length, so nothing shorter or longer
decodes.
-/

namespace PiSecure

open Reading

variable {data : Bytes}

/-! ## Fields -/

@[simp] theorem readLe_leBytes (count value : Nat) :
    readLe (leBytes count value) = value % 256 ^ count := by
  induction count generalizing value with
  | zero => rw [Nat.pow_zero, Nat.mod_one]; rfl
  | succ count ih =>
      rw [leBytes, readLe, ih, Nat.pow_succ, Nat.mul_comm (256 ^ count), Nat.mod_mul,
        UInt8.toNat_ofNat']

@[simp] theorem length_writeUint32 (value : UInt32) : (writeUint32 value).length = 4 :=
  length_leBytes 4 _

@[simp] theorem length_writeUint64 (value : UInt64) : (writeUint64 value).length = 8 :=
  length_leBytes 8 _

theorem readLe_writeUint32 (value : UInt32) : readLe (writeUint32 value) = value.toNat := by
  rw [writeUint32, u32Bytes, readLe_leBytes]
  exact Nat.mod_eq_of_lt value.toNat_lt

theorem readLe_writeUint64 (value : UInt64) : readLe (writeUint64 value) = value.toNat := by
  rw [writeUint64, u64Bytes, readLe_leBytes]
  exact Nat.mod_eq_of_lt value.toNat_lt

theorem reads_uint32 (data : Bytes) (value : UInt32) :
    Reads data (readUint32 data) value (writeUint32 value) := by
  have read := (reads_take data (writeUint32 value)).map
    fun bytes => UInt32.ofNat (readLe bytes)
  rwa [length_writeUint32, readLe_writeUint32, UInt32.ofNat_toNat] at read

theorem reads_uint64 (data : Bytes) (value : UInt64) :
    Reads data (readUint64 data) value (writeUint64 value) := by
  have read := (reads_take data (writeUint64 value)).map
    fun bytes => UInt64.ofNat (readLe bytes)
  rwa [length_writeUint64, readLe_writeUint64, UInt64.ofNat_toNat] at read

theorem ofPrefix_bytes (digest : Digest) : Digest.ofPrefix digest.bytes = digest := by
  apply Digest.ext_bytes
  change (digest.bytes ++ _).take 32 = digest.bytes
  rw [← digest.size_eq, List.take_left]

theorem reads_digest (data : Bytes) (digest : Digest) :
    Reads data (readDigest data) digest digest.bytes := by
  have read := (reads_take data digest.bytes).map Digest.ofPrefix
  rwa [digest.size_eq, ofPrefix_bytes] at read

/-! ## Lengths in front -/

private theorem toNat_prefix_byte {value : Nat} (small : value < 0xFD) :
    (UInt8.ofNat value).toNat = value := by
  rw [UInt8.toNat_ofNat']
  omega

/-- A written length is read back, whatever follows it. -/
theorem splitLength_writeVarInt {value : Nat} (word : value < 2 ^ 64) (rest : Bytes) :
    splitLength (writeVarInt value ++ rest) = (value, rest) := by
  have number : ∀ count, (leBytes count value ++ rest).take count = leBytes count value := by
    intro count
    exact List.take_left' (length_leBytes count value)
  have behind : ∀ count, (leBytes count value ++ rest).drop count = rest := by
    intro count
    exact List.drop_left' (length_leBytes count value)
  have fits : ∀ count, count ≤ (leBytes count value ++ rest).length := by
    intro count
    rw [List.length_append, length_leBytes]
    omega
  unfold writeVarInt
  split
  next small =>
    rw [List.singleton_append, splitLength, toNat_prefix_byte small, if_pos small]
  split
  next short =>
    rw [List.cons_append, splitLength, if_neg (by decide), u16Bytes,
      if_pos ⟨by decide, fits 2⟩, number, behind, readLe_leBytes, Nat.mod_eq_of_lt (by omega)]
  split
  next middle =>
    rw [List.cons_append, splitLength, if_neg (by decide), u32Bytes,
      if_neg (fun wrong => absurd wrong.1 (by decide)), if_pos ⟨by decide, fits 4⟩, number,
      behind, readLe_leBytes, Nat.mod_eq_of_lt (by omega)]
  · rw [List.cons_append, splitLength, if_neg (by decide), u64Bytes,
      if_neg (fun wrong => absurd wrong.1 (by decide)),
      if_neg (fun wrong => absurd wrong.1 (by decide)), if_pos ⟨by decide, fits 8⟩, number,
      behind, readLe_leBytes, Nat.mod_eq_of_lt (by omega)]

theorem length_writeVarInt_pos (value : Nat) : 0 < (writeVarInt value).length := by
  unfold writeVarInt
  split
  · exact Nat.one_pos
  split
  · exact Nat.succ_pos _
  split
  · exact Nat.succ_pos _
  · exact Nat.succ_pos _

theorem reads_varInt {value : Nat} (word : value < 2 ^ 64) :
    Reads data (readVarInt data) value (writeVarInt value) := by
  apply reads_of_ends
  intro offset rest place
  refine (readVarInt_ends place).mono ?_
  rintro read moved ⟨rfl, behind⟩
  rw [splitLength_writeVarInt word] at behind ⊢
  have length := place.move.length
  have same : moved + rest.length = data.length := behind.length
  exact ⟨rfl, by omega⟩

theorem reads_string {text : Bytes} (word : text.length < 2 ^ 64) :
    Reads data (readString data) text (writeString text) := by
  apply reads_of_ends
  intro offset rest place
  rw [writeString, List.append_assoc] at place
  have fits := place.move.fits
  rw [readString, ends_bind, (reads_varInt word).ends place, ends_bind, ends_get,
    if_neg (by omega), (reads_take data text).ends place.move, writeString, List.length_append]
  exact ⟨rfl, by omega⟩

/-- A length that is cut off is read as zero. -/
theorem splitLength_cut {value : Nat} {front cut : Bytes}
    (written : front ++ cut = writeVarInt value) (shorter : cut ≠ []) :
    (splitLength front).1 = 0 := by
  cases front with
  | nil => rfl
  | cons first front =>
      have positive : 0 < cut.length := List.length_pos_iff.mpr shorter
      have parts : ∀ {byte : UInt8} {count : Nat},
          first :: (front ++ cut) = byte :: leBytes count value →
            first = byte ∧ front.length < count := by
        intro byte count same
        obtain ⟨head, tail⟩ := List.cons.inj same
        have length := congrArg List.length tail
        rw [List.length_append, length_leBytes] at length
        exact ⟨head, by omega⟩
      rw [List.cons_append] at written
      unfold writeVarInt at written
      split at written
      next small =>
        obtain ⟨_, tail⟩ := List.cons.inj written
        exact absurd (List.append_eq_nil_iff.mp tail).2 shorter
      split at written
      next short =>
        obtain ⟨rfl, less⟩ := parts written
        rw [splitLength, if_neg (by decide), if_neg (by omega),
          if_neg (fun wrong => absurd wrong.1 (by decide)),
          if_neg (fun wrong => absurd wrong.1 (by decide))]
      split at written
      next middle =>
        obtain ⟨rfl, less⟩ := parts written
        rw [splitLength, if_neg (by decide), if_neg (fun wrong => absurd wrong.1 (by decide)),
          if_neg (by omega), if_neg (fun wrong => absurd wrong.1 (by decide))]
      · obtain ⟨rfl, less⟩ := parts written
        rw [splitLength, if_neg (by decide), if_neg (fun wrong => absurd wrong.1 (by decide)),
          if_neg (fun wrong => absurd wrong.1 (by decide)), if_neg (by omega)]

/-! ## Messages of one field after the other -/

theorem decode_of_reads {Message : Type} {reader : Bytes → Reader (Option Message)}
    {message : Option Message} (reads : Reads data (reader data) message data) :
    decode reader data = some message := by
  have place : At data 0 (data ++ []) := by
    rw [List.append_nil]
    exact At.start data
  rw [decode, reads.run place]
  rfl

theorem length_flatMap {Value : Type} {encode : Value → Bytes} {size : Nat}
    (values : List Value) (sized : ∀ value ∈ values, (encode value).length = size) :
    (values.flatMap encode).length = values.length * size := by
  induction values with
  | nil => rw [List.flatMap_nil, List.length_nil, List.length_nil, Nat.zero_mul]
  | cons first others ih =>
      rw [List.forall_mem_cons] at sized
      rw [List.flatMap_cons, List.length_append, sized.1, ih sized.2, List.length_cons,
        Nat.succ_mul, Nat.add_comm]

theorem deserializePing_serializePing (nonce : UInt64) :
    decode deserializePing (serializePing nonce) = some (some nonce) := by
  apply decode_of_reads
  rw [deserializePing, if_neg (by rw [serializePing, length_writeUint64]; decide)]
  exact (reads_uint64 _ nonce).map some

theorem deserializeVersion_serializeVersion (version services : UInt32) (timestamp : UInt64)
    (addrRecv addrFrom : PeerAddr) (nonce : UInt64) {userAgent : Bytes}
    (word : userAgent.length < 2 ^ 64) (startHeight : UInt32) :
    decode deserializeVersion
        (serializeVersion version services timestamp addrRecv addrFrom nonce userAgent
          startHeight) =
      some (some ⟨version, services, timestamp, userAgent, some startHeight⟩) := by
  apply decode_of_reads
  generalize payload : serializeVersion version services timestamp addrRecv addrFrom nonce
    userAgent startHeight = data
  have parts : data = writeUint32 version ++ (writeUint64 services.toUInt64 ++
      (writeUint64 timestamp ++ ((writeUint64 addrRecv.services.toUInt64 ++
        writeUint64 addrFrom.services.toUInt64) ++ (writeUint64 nonce ++
          (writeString userAgent ++ writeUint32 startHeight))))) := by
    simp only [← payload, serializeVersion, List.append_assoc]
  have long : ¬data.length < 40 := by
    rw [parts]
    simp only [List.length_append, length_writeUint32, length_writeUint64]
    omega
  have narrowed : services.toUInt64.toUInt32 = services := UInt32.toUInt32_toUInt64 services
  have wide := (reads_uint64 data services.toUInt64).map UInt64.toUInt32
  rw [narrowed] at wide
  have skipped := reads_skip data
    (writeUint64 addrRecv.services.toUInt64 ++ writeUint64 addrFrom.services.toUInt64)
  rw [List.length_append, length_writeUint64, length_writeUint64] at skipped
  have height := (reads_uint32 data startHeight).ofIf
  rw [length_writeUint32] at height
  suffices reads : Reads data (deserializeVersion data)
      (some ⟨version, services, timestamp, userAgent, some startHeight⟩) _ from
    parts ▸ reads
  rw [deserializeVersion, if_neg long]
  refine (reads_uint32 data version).bind (wide.bind ((reads_uint64 data timestamp).bind ?_))
  refine skipped.bind ((reads_uint64 data nonce).bind ((reads_string word).bind ?_))
  exact height.andPure rfl

/-! ## Messages of a counted list -/

/-- What is sent of an address. -/
def PeerAddr.sent (addr : PeerAddr) : PeerAddr := { addr with sinFamily := AF_INET, failures := 0 }

/-- What is sent of a header. -/
def BlockHeader.sent (header : BlockHeader) : BlockHeader := { header with height := 0 }

theorem length_serializePeerAddr (addr : PeerAddr) : (serializePeerAddr addr).length = 18 := by
  simp only [serializePeerAddr, List.length_append, length_writeUint32, length_writeUint64,
    List.length_cons, List.length_nil]

theorem length_serializeInvVect (inv : InvVect) : (serializeInvVect inv).length = 36 := by
  rw [serializeInvVect, List.length_append, length_writeUint32, inv.hash.size_eq]

theorem length_serializeHeader (header : BlockHeader) :
    (serializeHeader header).length = kCompactHeaderBytes := by
  simp only [serializeHeader, List.length_append, length_writeUint32, length_writeUint64,
    Digest.size_eq]
  rfl

theorem reads_byte (byte : UInt8) : Reads data (readLe <$> take data 1) byte.toNat [byte] :=
  (reads_take data [byte]).map readLe

theorem reads_peerAddr (data : Bytes) (addr : PeerAddr) :
    Reads data (readPeerAddr data) addr.sent (serializePeerAddr addr) := by
  have below := addr.sinPort.toNat_lt
  have port : UInt16.ofNat ((UInt8.ofNat (addr.sinPort.toNat / 256)).toNat * 256 +
      (UInt8.ofNat addr.sinPort.toNat).toNat) = addr.sinPort := by
    rw [UInt8.toNat_ofNat', UInt8.toNat_ofNat', Nat.mod_eq_of_lt (by omega),
      Nat.div_add_mod' addr.sinPort.toNat 256, UInt16.ofNat_toNat]
  simp only [serializePeerAddr, List.append_assoc]
  refine (reads_uint64 data _).bind ((reads_uint32 data _).bind ((reads_uint32 data _).bind ?_))
  apply Reads.bind (reads_byte (UInt8.ofNat (addr.sinPort.toNat / 256)))
  apply Reads.andPure (reads_byte (UInt8.ofNat addr.sinPort.toNat))
  rw [port]
  rfl

theorem reads_invVect (data : Bytes) (inv : InvVect) :
    Reads data (readInvVect data) inv (serializeInvVect inv) :=
  (reads_uint32 data inv.type).bind ((reads_digest data inv.hash).andPure rfl)

/-- A list with its length in front is not empty. -/
theorem isEmpty_counted (count : Nat) (body : Bytes) :
    ¬(writeVarInt count ++ body).isEmpty = true := by
  have positive := length_writeVarInt_pos count
  rw [List.isEmpty_iff, List.append_eq_nil_iff]
  rintro ⟨empty, _⟩
  rw [empty] at positive
  exact absurd positive (Nat.lt_irrefl 0)

theorem deserializeAddr_serializeAddr {addrs : List PeerAddr} (few : addrs.length ≤ 1000) :
    decode deserializeAddr (serializeAddr addrs) = some (some (addrs.map PeerAddr.sent)) := by
  apply decode_of_reads
  generalize payload : serializeAddr addrs = data
  suffices reads : Reads data (deserializeAddr data) (some (addrs.map PeerAddr.sent))
      (serializeAddr addrs) from payload ▸ reads
  have long : ¬data.isEmpty = true := payload ▸ isEmpty_counted _ _
  rw [deserializeAddr, if_neg long]
  refine (reads_varInt (by omega)).bind ?_
  rw [if_neg (by omega)]
  exact Reads.many addrs (fun addr _ => length_serializePeerAddr addr)
    fun addr _ => (reads_peerAddr data addr).map some

theorem deserializeInv_serializeInv {invs : List InvVect} (few : invs.length ≤ MAX_INV_SIZE) :
    decode deserializeInv (serializeInv invs) = some (some invs) := by
  have bound : MAX_INV_SIZE = 50000 := rfl
  apply decode_of_reads
  generalize payload : serializeInv invs = data
  suffices reads : Reads data (deserializeInv data) (some invs) (serializeInv invs) from
    payload ▸ reads
  have long : ¬data.isEmpty = true := payload ▸ isEmpty_counted _ _
  rw [deserializeInv, if_neg long]
  refine (reads_varInt (by omega)).bind ?_
  rw [if_neg (by omega)]
  have fields := Reads.many invs (fun inv _ => length_serializeInvVect inv)
    fun inv _ => (reads_invVect data inv).map some
  rwa [List.map_id'] at fields

theorem deserializeGetHeaders_serializeGetHeaders {locatorHashes : List Digest}
    (few : locatorHashes.length ≤ 500) (hashStop : Digest) :
    decode deserializeGetHeaders (serializeGetHeaders locatorHashes hashStop) =
      some (some (locatorHashes, some hashStop)) := by
  apply decode_of_reads
  generalize payload : serializeGetHeaders locatorHashes hashStop = data
  have parts : data = writeUint32 PROTOCOL_VERSION ++ (writeVarInt locatorHashes.length ++
      (locatorHashes.flatMap Digest.bytes ++ hashStop.bytes)) := by
    simp only [← payload, serializeGetHeaders, List.append_assoc]
  have long : ¬data.length < 37 := by
    have positive := length_writeVarInt_pos locatorHashes.length
    rw [parts]
    simp only [List.length_append, length_writeUint32, Digest.size_eq]
    omega
  suffices reads : Reads data (deserializeGetHeaders data) (some (locatorHashes, some hashStop)) _
    from parts ▸ reads
  have version := reads_skip data (writeUint32 PROTOCOL_VERSION)
  have stop := (reads_digest data hashStop).ofIf
  have fields := Reads.many locatorHashes (fun hash _ => hash.size_eq)
    fun hash _ => (reads_digest data hash).map some
  rw [length_writeUint32] at version
  rw [hashStop.size_eq] at stop
  rw [List.map_id'] at fields
  rw [deserializeGetHeaders, if_neg long]
  refine version.bind ((reads_varInt (by omega)).bind ?_)
  rw [if_neg (by omega)]
  exact fields.bind (stop.andPure rfl)

/-! ## Headers -/

theorem reads_compactHeader (data : Bytes) (header : BlockHeader) :
    Reads data (readCompactHeader data) (some header.sent) (serializeHeader header) := by
  have fields : Reads data (readHeaderFields data) { header with hash := Digest.zero, height := 0 }
      (writeUint32 header.version ++ (header.prevBlockHash.bytes ++ (header.merkleRoot.bytes ++
        (writeUint64 header.timestamp ++ (writeUint32 header.difficulty ++
          writeUint64 header.nonce))))) := by
    refine (reads_uint32 data _).bind ((reads_digest data _).bind ((reads_digest data _).bind ?_))
    exact (reads_uint64 data _).bind
      ((reads_uint32 data _).bind ((reads_uint64 data _).andPure rfl))
  apply reads_of_ends
  intro offset rest place
  have size := length_serializeHeader header
  have parts : serializeHeader header = (writeUint32 header.version ++
      (header.prevBlockHash.bytes ++ (header.merkleRoot.bytes ++ (writeUint64 header.timestamp ++
        (writeUint32 header.difficulty ++ writeUint64 header.nonce))))) ++ header.hash.bytes := by
    simp only [serializeHeader, List.append_assoc]
  rw [parts, List.append_assoc] at place
  rw [parts, List.length_append] at size
  rw [readCompactHeader, ends_bind, ends_get, ends_bind, fields.ends place, ends_bind,
    (reads_digest data header.hash).ends place.move, ends_bind, ends_get, if_neg (by omega),
    ends_pure,
    parts, @List.length_append _ _ header.hash.bytes]
  exact ⟨rfl, Nat.add_assoc _ _ _⟩

theorem serializeHeaders_eq (headers : List BlockHeader) :
    serializeHeaders headers = writeVarInt headers.length ++ headers.flatMap serializeHeader := by
  refine if_pos (List.all_eq_true.mpr ?_)
  intro header _
  rw [length_serializeHeader]
  rfl

theorem deserializeHeaders_serializeHeaders {headers : List BlockHeader} (one : headers ≠ [])
    (few : headers.length ≤ 2000) :
    decode deserializeHeaders (serializeHeaders headers) =
      some (some (headers.map BlockHeader.sent, (serializeHeaders headers).length)) := by
  have positive : 0 < headers.length := List.length_pos_iff.mpr one
  have body := length_flatMap headers fun header _ => length_serializeHeader header
  apply decode_of_ends
  rw [serializeHeaders_eq]
  generalize payload : writeVarInt headers.length ++ headers.flatMap serializeHeader = data
  have long : ¬data.isEmpty = true := payload ▸ isEmpty_counted _ _
  have start : At data 0 (writeVarInt headers.length ++
      (headers.flatMap serializeHeader ++ [])) := by
    rw [List.append_nil, payload]
    exact At.start data
  have fields := Reads.many headers (fun header _ => length_serializeHeader header)
    fun header _ => reads_compactHeader data header
  have total := start.move.move.length
  rw [List.length_nil, Nat.add_zero] at total
  rw [deserializeHeaders, if_neg long, ends_bind, (reads_varInt (by omega)).ends start,
    if_neg (by omega), ends_bind, ends_get, if_neg (by omega), ends_bind,
    fields.ends start.move, ends_bind, ends_get, if_neg (by omega), ends_pure, total]

/-- A payload of headers that decodes has exactly the length of its headers
behind the count. -/
theorem deserializeHeaders_sized {payload : Bytes} {message : List BlockHeader × Nat}
    (decoded : decode deserializeHeaders payload = some (some message)) :
    (splitLength payload).1 ≠ 0 ∧ (splitLength payload).1 ≤ 2000 ∧
      (splitLength payload).2.length = (splitLength payload).1 * kCompactHeaderBytes := by
  have ends : Ends (deserializeHeaders payload) 0 fun read _ => read = some message := by
    obtain ⟨⟨read, moved⟩, run, same⟩ := Option.map_eq_some_iff.mp decoded
    exact ⟨read, moved, run, same⟩
  rw [deserializeHeaders] at ends
  split at ends
  · cases ends_pure.mp ends
  rw [ends_bind] at ends
  obtain ⟨count, offset, _, ⟨rfl, place⟩, ends⟩ := (readVarInt_ends (At.start payload)).and ends
  split at ends
  · cases ends_pure.mp ends
  next counted =>
    rw [ends_bind, ends_get] at ends
    split at ends
    · cases ends_pure.mp ends
    next sized =>
      have length := place.length
      omega

theorem refuses_of_unsized {payload : Bytes}
    (unsized : (splitLength payload).1 ≠ 0 →
      (splitLength payload).2.length ≠ (splitLength payload).1 * kCompactHeaderBytes) :
    decode deserializeHeaders payload = some none := by
  obtain ⟨message, decoded⟩ := Option.isSome_iff_exists.mp (deserializeHeaders_inside payload)
  cases message with
  | none => exact decoded
  | some message =>
      obtain ⟨counted, _, sized⟩ := deserializeHeaders_sized decoded
      exact absurd sized (unsized counted)

theorem deserializeHeaders_extension {headers : List BlockHeader} (few : headers.length ≤ 2000)
    {more : Bytes} (longer : more ≠ []) :
    decode deserializeHeaders (serializeHeaders headers ++ more) = some none := by
  have body := length_flatMap headers fun header _ => length_serializeHeader header
  have positive : 0 < more.length := List.length_pos_iff.mpr longer
  apply refuses_of_unsized
  have length := @List.length_append _ (headers.flatMap serializeHeader) more
  rw [serializeHeaders_eq, List.append_assoc, splitLength_writeVarInt (by omega)]
  intro _
  change (headers.flatMap serializeHeader ++ more).length ≠ headers.length * kCompactHeaderBytes
  omega

theorem deserializeHeaders_prefix {headers : List BlockHeader} (few : headers.length ≤ 2000)
    {front cut : Bytes} (parted : front ++ cut = serializeHeaders headers) (shorter : cut ≠ []) :
    decode deserializeHeaders front = some none := by
  have body := length_flatMap headers fun header _ => length_serializeHeader header
  have positive : 0 < cut.length := List.length_pos_iff.mpr shorter
  rw [serializeHeaders_eq] at parted
  apply refuses_of_unsized
  intro counted
  obtain ⟨tail, written, kept⟩ | ⟨tail, written, kept⟩ := List.append_eq_append_iff.mp parted
  · by_cases whole : tail = []
    · subst whole
      rw [List.append_nil] at written
      have length := congrArg List.length kept
      rw [List.nil_append] at length
      have read := @splitLength_writeVarInt headers.length (by omega) []
      rw [List.append_nil, written] at read
      rw [read]
      change 0 ≠ headers.length * kCompactHeaderBytes
      omega
    · exact absurd (splitLength_cut written.symm whole) counted
  · have length := congrArg List.length kept
    rw [List.length_append] at length
    rw [written, splitLength_writeVarInt (by omega)]
    change tail.length ≠ headers.length * kCompactHeaderBytes
    omega

/-! ## All messages -/

/-- Every message within the limits of the protocol is read back as it was sent,
and of a payload of headers nothing shorter or longer is read. -/
theorem wire_round_trip :
    (∀ (version services : UInt32) (timestamp : UInt64) (addrRecv addrFrom : PeerAddr)
        (nonce : UInt64) (userAgent : Bytes) (startHeight : UInt32),
      userAgent.length < 2 ^ 64 →
      decode deserializeVersion
          (serializeVersion version services timestamp addrRecv addrFrom nonce userAgent
            startHeight) =
        some (some ⟨version, services, timestamp, userAgent, some startHeight⟩)) ∧
    (∀ addrs : List PeerAddr, addrs.length ≤ 1000 →
      decode deserializeAddr (serializeAddr addrs) = some (some (addrs.map PeerAddr.sent))) ∧
    (∀ invs : List InvVect, invs.length ≤ MAX_INV_SIZE →
      decode deserializeInv (serializeInv invs) = some (some invs) ∧
        decode deserializeInv (serializeGetData invs) = some (some invs)) ∧
    (∀ (locatorHashes : List Digest) (hashStop : Digest), locatorHashes.length ≤ 500 →
      decode deserializeGetHeaders (serializeGetHeaders locatorHashes hashStop) =
        some (some (locatorHashes, some hashStop))) ∧
    (∀ headers : List BlockHeader, headers ≠ [] → headers.length ≤ 2000 →
      decode deserializeHeaders (serializeHeaders headers) =
          some (some (headers.map BlockHeader.sent, (serializeHeaders headers).length)) ∧
        (∀ front cut, front ++ cut = serializeHeaders headers → cut ≠ [] →
          decode deserializeHeaders front = some none) ∧
        ∀ more, more ≠ [] →
          decode deserializeHeaders (serializeHeaders headers ++ more) = some none) := by
  refine ⟨?_, ?_, ?_, ?_, ?_⟩
  · intro version services timestamp addrRecv addrFrom nonce userAgent startHeight word
    exact deserializeVersion_serializeVersion version services timestamp addrRecv addrFrom nonce
      word startHeight
  · intro addrs few
    exact deserializeAddr_serializeAddr few
  · intro invs few
    exact ⟨deserializeInv_serializeInv few, deserializeInv_serializeInv few⟩
  · intro locatorHashes hashStop few
    exact deserializeGetHeaders_serializeGetHeaders few hashStop
  · intro headers one few
    refine ⟨deserializeHeaders_serializeHeaders one few, ?_, ?_⟩
    · intro front cut parted shorter
      exact deserializeHeaders_prefix few parted shorter
    · intro more longer
      exact deserializeHeaders_extension few longer

/-- An address with its failures, and a locator without a hash. -/
theorem wire_round_trip_samples :
    decode deserializeAddr (serializeAddr [⟨AF_INET, 16777343, 36895, 7, 1, 3⟩]) =
        some (some [⟨AF_INET, 16777343, 36895, 7, 1, 0⟩]) ∧
      decode deserializeGetHeaders (serializeGetHeaders [] Digest.zero) =
        some (some ([], some Digest.zero)) :=
  ⟨wire_round_trip.2.1 [⟨AF_INET, 16777343, 36895, 7, 1, 3⟩] (by decide),
    wire_round_trip.2.2.2.1 [] Digest.zero (by decide)⟩

/-- The failures that are counted for an address are not sent. -/
theorem addr_failures_lost :
    decode deserializeAddr (serializeAddr [⟨AF_INET, 16777343, 36895, 7, 1, 3⟩]) ≠
      some (some [⟨AF_INET, 16777343, 36895, 7, 1, 3⟩]) := by
  decide

end PiSecure
