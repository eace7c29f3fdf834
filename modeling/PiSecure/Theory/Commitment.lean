import PiSecure.General.Framing
import PiSecure.Theory.Books

/-! # What ids and signatures commit to

The canonical bytes of a transaction can be read in one way only, as long as no
text in it is longer than its 16-bit length field can say. For a parsed
transaction they fix everything but the signatures, which is also what the
signed text fixes.
-/

namespace PiSecure

open Framing

/-! ## Fields -/

section Fields

theorem delimits_leBytes (count : Nat) : Delimits (leBytes count) (· < 256 ^ count) :=
  Delimits.of_length _ (fun {value} _ => length_leBytes count value)
    fun firstBelow secondBelow same => by
    have residues := leBytes_inj same
    rwa [Nat.mod_eq_of_lt firstBelow, Nat.mod_eq_of_lt secondBelow] at residues

/-- The UTF-8 bytes of a text determine it. -/
theorem Text.bytes_injective : Function.Injective Text.bytes := by
  intro first second same
  induction first generalizing second with
  | nil =>
      cases second with
      | nil => rfl
      | cons c rest =>
          have length := congrArg List.length same
          rw [Text.length_bytes, Text.length_bytes, Text.size_cons, Text.size_nil] at length
          have positive := c.utf8Size_pos
          omega
  | cons c rest ih =>
      cases second with
      | nil =>
          have length := congrArg List.length same
          rw [Text.length_bytes, Text.length_bytes, Text.size_cons, Text.size_nil] at length
          have positive := c.utf8Size_pos
          omega
      | cons d others =>
          have front : String.utf8EncodeChar c ++ Text.bytes rest =
              String.utf8EncodeChar d ++ Text.bytes others := same
          have decoded := congrArg (fun bytes => bytes.toByteArray.utf8DecodeChar? 0) front
          simp only [List.toByteArray_append, ByteArray.utf8DecodeChar?_utf8EncodeChar_append,
            Option.some.injEq] at decoded
          subst decoded
          rw [ih (List.append_cancel_left front)]

/-- Texts that fit their 16-bit length field. -/
theorem delimits_sizedText : Delimits sizedText fun text => text.size < 2 ^ 16 := by
  have sized := (delimits_sized (delimits_leBytes 2)).comap _ Text.bytes_injective
  simp only [Text.length_bytes] at sized
  exact sized

/-- Inputs, up to their signatures. -/
theorem delimits_outpoint :
    Delimits (fun point : Outpoint => point.1.bytes ++ u32Bytes point.2.toNat) fun _ => True := by
  refine Delimits.of_length 36 ?_ ?_
  · rintro ⟨prev, vout⟩ _
    rw [List.length_append, prev.size_eq, u32Bytes, length_leBytes]
  · rintro ⟨prev, vout⟩ ⟨other, index⟩ _ _ same
    obtain ⟨hash, place⟩ := List.append_inj same (by rw [prev.size_eq, other.size_eq])
    have prevEq : prev = other := Digest.ext_bytes hash
    have voutEq : vout = index :=
      UInt32.toNat_inj.mp (u32Bytes_inj vout.toNat_lt index.toNat_lt place)
    rw [prevEq, voutEq]

theorem inputBytes_eq (inputs : List TxIn) :
    inputBytes inputs = (inputs.map TxIn.outpoint).flatMap fun point =>
      point.1.bytes ++ u32Bytes point.2.toNat := by
  rw [inputBytes, List.flatMap_map]
  rfl

/-- Outputs whose address fits its length field. -/
theorem delimits_output :
    Delimits (fun output : TxOut => u64Bytes output.value.toNat ++ sizedText output.address)
      fun output => output.address.size < 2 ^ 16 := by
  have fields := ((delimits_leBytes 8).andThen fun _ _ => delimits_sizedText).comap
    (fun output : TxOut => (output.value.toNat, output.address)) (by
      rintro ⟨value, address⟩ ⟨other, place⟩ same
      obtain ⟨values, rfl⟩ := Prod.mk.inj same
      exact congrArg (TxOut.mk · address) (UInt64.toNat_inj.mp values))
  exact fields.mono fun output fits => ⟨output.value.toNat_lt, fits⟩

end Fields
/-! ## The front of canonical bytes -/

/-- What the first part of canonical bytes fixes. -/
structure SameFront (first second : Tx) : Prop where
  version : first.version = second.version
  coinbase : first.coinbase = second.coinbase
  inputs : first.inputs.map TxIn.outpoint = second.inputs.map TxIn.outpoint
  outputs : first.outputs = second.outputs
  fee : first.fee = second.fee
  height : first.coinbase = true → first.height = second.height

/-- A transaction whose counts and addresses fit their fields. -/
structure Tx.Fits (tx : Tx) : Prop where
  version : tx.version < 2 ^ 32
  height : tx.height < 2 ^ 32
  inputs : tx.inputs.length < 2 ^ 32
  outputs : tx.outputs.length < 2 ^ 32
  addresses : ∀ output ∈ tx.outputs, output.address.size < 2 ^ 16

/-- Equal canonical bytes have the same front and the same suffixes. -/
theorem canonicalTx_front {first second : Tx} (firstFits : first.Fits) (secondFits : second.Fits)
    (same : canonicalTx first = canonicalTx second) :
    SameFront first second ∧
      flagBytes first ++ regBytes first = flagBytes second ++ regBytes second := by
  have nested : ∀ tx : Tx, canonicalTx tx = Text.bytes "TX1".toList ++ (u32Bytes tx.version ++
      ([if tx.coinbase then 1 else 0] ++
        ((leBytes 4 (tx.inputs.map TxIn.outpoint).length ++ (tx.inputs.map TxIn.outpoint).flatMap
            fun point => point.1.bytes ++ u32Bytes point.2.toNat) ++
          ((leBytes 4 tx.outputs.length ++ outputBytes tx.outputs) ++ (u64Bytes tx.fee.toNat ++
            (u32Bytes (if tx.coinbase then tx.height else 0) ++
              (flagBytes tx ++ regBytes tx))))))) := fun tx => by
    rw [List.length_map, ← inputBytes_eq]
    simp only [canonicalTx, u32Bytes, List.append_assoc]
  rw [nested, nested] at same
  have afterTag := List.append_cancel_left same
  obtain ⟨version, afterVersion⟩ :=
    (delimits_leBytes 4).read firstFits.version secondFits.version afterTag
  obtain ⟨kind, afterKind⟩ := List.append_inj afterVersion rfl
  have counts : ∀ {list : List TxIn}, list.length < 2 ^ 32 →
      (list.map TxIn.outpoint).length < 256 ^ 4 := fun below => by rwa [List.length_map]
  obtain ⟨inputs, afterInputs⟩ := (delimits_outpoint.counted (delimits_leBytes 4)).read
    ⟨counts firstFits.inputs, fun _ _ => trivial⟩ ⟨counts secondFits.inputs, fun _ _ => trivial⟩
    afterKind
  obtain ⟨outputs, afterOutputs⟩ := (delimits_output.counted (delimits_leBytes 4)).read
    ⟨firstFits.outputs, firstFits.addresses⟩ ⟨secondFits.outputs, secondFits.addresses⟩ afterInputs
  obtain ⟨fee, afterFee⟩ :=
    (delimits_leBytes 8).read first.fee.toNat_lt second.fee.toNat_lt afterOutputs
  have heightBelow : ∀ tx : Tx, tx.Fits → (if tx.coinbase then tx.height else 0) < 256 ^ 4 := by
    intro tx fits
    split
    · exact fits.height
    · decide
  obtain ⟨height, suffixes⟩ := (delimits_leBytes 4).read (heightBelow first firstFits)
    (heightBelow second secondFits) afterFee
  have kinds : first.coinbase = second.coinbase := by
    cases firstKind : first.coinbase <;> cases secondKind : second.coinbase <;>
      simp [firstKind, secondKind] at kind ⊢
  refine ⟨⟨version, kinds, inputs, outputs, UInt64.toNat_inj.mp fee, fun isCoinbase => ?_⟩,
    suffixes⟩
  rwa [if_pos isCoinbase, if_pos (kinds ▸ isCoinbase)] at height

/-! ## Suffixes -/

section Suffixes

/-- Sixty-four digits encode thirty-two bytes. -/
theorem decodeHex_of_hex64 {text : Text} (valid : hex64 text = true) :
    ∃ bytes, decodeHex text = some bytes ∧ bytes.length = 32 := by
  rw [hex64, Bool.and_eq_true, decide_eq_true_eq, List.all_eq_true] at valid
  obtain ⟨size, digits⟩ := valid
  have one : ∀ c : Char, (nybble c).isSome → c.utf8Size = 1 := by
    intro c isDigit
    obtain ⟨value, read⟩ := Option.isSome_iff_exists.mp isDigit
    have bound : c.toNat < 128 := by
      unfold nybble at read
      split at read
      next digit => exact Nat.lt_of_le_of_lt digit.2 (by decide)
      · split at read
        next letter => exact Nat.lt_of_le_of_lt letter.2 (by decide)
        · split at read
          next letter => exact Nat.lt_of_le_of_lt letter.2 (by decide)
          · cases read
    have low : c.val.toNat ≤ 127 := Nat.le_of_lt_succ bound
    exact if_pos (UInt32.le_iff_toNat_le.mpr low)
  have length : ∀ text : Text, (∀ c ∈ text, (nybble c).isSome) → Text.size text = text.length := by
    intro text all
    induction text with
    | nil => rfl
    | cons c rest ih =>
        rw [List.forall_mem_cons] at all
        rw [Text.size_cons, ih all.2, one c all.1, List.length_cons, Nat.add_comm]
  have decoded : ∀ (count : Nat) (text : Text), text.length = 2 * count →
      (∀ c ∈ text, (nybble c).isSome) →
      ∃ bytes, decodeHex text = some bytes ∧ bytes.length = count := by
    intro count
    induction count with
    | zero =>
        intro text none _
        rw [List.length_eq_zero_iff.mp none]
        exact ⟨[], rfl, rfl⟩
    | succ count ih =>
        intro text long all
        rcases text with _ | ⟨high, _ | ⟨low, rest⟩⟩
        · rw [List.length_nil] at long
          omega
        · rw [List.length_singleton] at long
          omega
        · rw [List.forall_mem_cons, List.forall_mem_cons] at all
          rw [List.length_cons, List.length_cons] at long
          obtain ⟨upper, highRead⟩ := Option.isSome_iff_exists.mp all.1
          obtain ⟨lower, lowRead⟩ := Option.isSome_iff_exists.mp all.2.1
          obtain ⟨bytes, restRead, sized⟩ := ih rest (by omega) all.2.2
          refine ⟨UInt8.ofNat (upper * 16 + lower) :: bytes, ?_, ?_⟩
          · simp only [decodeHex, highRead, lowRead, restRead]
          · rw [List.length_cons, sized]
  exact decoded 32 text (by rw [← length text digits, size]) digits

/-- Digests and keys in the flag suffix. -/
theorem delimits_hexField : Delimits (fun text : Text => (decodeHex text).getD [])
    fun text => hex64 text = true ∧ lowerHex text = text := by
  refine Delimits.of_length 32 ?_ ?_
  · rintro text ⟨valid, _⟩
    obtain ⟨bytes, decoded, length⟩ := decodeHex_of_hex64 valid
    rw [decoded]
    exact length
  · rintro first second ⟨firstValid, firstLower⟩ ⟨secondValid, secondLower⟩ same
    obtain ⟨bytes, decoded, _⟩ := decodeHex_of_hex64 firstValid
    obtain ⟨others, otherDecoded, _⟩ := decodeHex_of_hex64 secondValid
    rw [decoded, otherDecoded, Option.getD_some, Option.getD_some] at same
    rw [hexByte_of_decodeHex decoded firstLower, hexByte_of_decodeHex otherDecoded secondLower,
      same]

/-- What the suffixes of canonical bytes fix: the registration and the flag
operation. -/
structure SameSuffix (first second : Tx) : Prop where
  reg : first.reg = second.reg
  name : first.name = second.name
  regAddress : first.regAddress = second.regAddress
  flagKind : first.flagKind = second.flagKind
  flagId : first.flagId = second.flagId
  commitment : first.commitment = second.commitment
  awardsPubkey : first.awardsPubkey = second.awardsPubkey
  maxClaims : first.maxClaims = second.maxClaims
  expiresHeight : first.expiresHeight = second.expiresHeight
  bountyUnits : first.bountyUnits = second.bountyUnits
  note : first.note = second.note
  recipient : first.recipient = second.recipient
  escrowLock : first.escrowLock = second.escrowLock

/-- A transaction whose typed part has the shape of a parsed one and whose
registered texts fit their fields. -/
structure Tx.SuffixFits (tx : Tx) : Prop where
  register : tx.RegisterShape
  flag : tx.FlagShape
  name : tx.name.size < 2 ^ 16
  address : tx.regAddress.size < 2 ^ 16

theorem sizedText_pair {first second third fourth : Text} (firstFits : first.size < 2 ^ 16)
    (secondFits : second.size < 2 ^ 16) (thirdFits : third.size < 2 ^ 16)
    (fourthFits : fourth.size < 2 ^ 16)
    (same : sizedText first ++ sizedText second = sizedText third ++ sizedText fourth) :
    first = third ∧ second = fourth := by
  obtain ⟨rfl, tail⟩ := delimits_sizedText.read firstFits thirdFits same
  have last := @Delimits.read _ _ _ _ delimits_sizedText _ _ [] [] secondFits fourthFits
    (by rw [List.append_nil, List.append_nil, tail])
  exact ⟨rfl, last.1⟩

/-- A flag transaction registers a name. -/
theorem Tx.SuffixFits.reg {tx : Tx} (fits : tx.SuffixFits) (flagged : tx.flagKind ≠ .none) :
    tx.reg = true := by
  by_contra plain
  have shape := fits.register
  rw [Tx.RegisterShape, if_neg plain] at shape
  exact flagged shape.2.2

private theorem small_of_flagId {tx : Tx} (valid : flagIdOk tx.flagId = true) :
    tx.flagId.size < 2 ^ 16 := by
  simp only [flagIdOk, Bool.and_eq_true, decide_eq_true_eq] at valid
  omega

/-- The kind of a transaction can be read off the front of its suffixes. -/
private theorem kind_of_suffix (tx : Tx) :
    tx.flagKind =
      if (flagBytes tx ++ regBytes tx).head? = some 70 then
        if (flagBytes tx ++ regBytes tx)[4]? = some 49 then .create else .claim
      else .none := by
  cases kind : tx.flagKind with
  | none =>
      cases registers : tx.reg <;> simp only [flagBytes, kind, regBytes, registers] <;> rfl
  | create =>
      simp only [flagBytes, kind, List.append_assoc]
      rfl
  | claim =>
      simp only [flagBytes, kind, List.append_assoc]
      rfl

/-- Equal register suffixes register the same name. -/
private theorem regBytes_inj {first second : Tx} (firstFits : first.SuffixFits)
    (secondFits : second.SuffixFits) (same : regBytes first = regBytes second) :
    first.reg = second.reg ∧ first.name = second.name ∧ first.regAddress = second.regAddress := by
  have plain : ∀ {tx : Tx}, tx.SuffixFits → tx.reg = false → tx.name = [] ∧ tx.regAddress = [] := by
    intro tx fits unregistered
    have shape := fits.register
    rw [Tx.RegisterShape, if_neg (by rw [unregistered]; exact Bool.false_ne_true)] at shape
    exact ⟨shape.1, shape.2.1⟩
  cases firstReg : first.reg <;> cases secondReg : second.reg <;>
    simp only [regBytes, firstReg, secondReg] at same
  · obtain ⟨firstName, firstAddress⟩ := plain firstFits firstReg
    obtain ⟨secondName, secondAddress⟩ := plain secondFits secondReg
    exact ⟨rfl, firstName.trans secondName.symm, firstAddress.trans secondAddress.symm⟩
  · cases same
  · cases same
  · simp only [↓reduceIte, List.append_assoc] at same
    have texts := List.append_cancel_left same
    exact ⟨rfl, sizedText_pair firstFits.name firstFits.address secondFits.name secondFits.address
      texts⟩

/-- The fields of a createflag suffix. -/
private theorem createBytes_inj {first second : Tx} {rest more : Bytes}
    (firstKind : first.flagKind = .create) (secondKind : second.flagKind = .create)
    (firstShape : first.FlagShape) (secondShape : second.FlagShape)
    (same : flagBytes first ++ rest = flagBytes second ++ more) :
    (first.flagId = second.flagId ∧ first.commitment = second.commitment ∧
      first.awardsPubkey = second.awardsPubkey ∧ first.maxClaims = second.maxClaims ∧
      first.expiresHeight = second.expiresHeight ∧ first.bountyUnits = second.bountyUnits ∧
      first.note = second.note) ∧ rest = more := by
  simp only [Tx.FlagShape, firstKind] at firstShape
  simp only [Tx.FlagShape, secondKind] at secondShape
  obtain ⟨firstId, firstCommitment, firstKey, firstNote, _, _⟩ := firstShape
  obtain ⟨secondId, secondCommitment, secondKey, secondNote, _, _⟩ := secondShape
  simp only [flagBytes, firstKind, secondKind, List.append_assoc] at same
  have afterTag := List.append_cancel_left same
  obtain ⟨flagId, afterId⟩ :=
    delimits_sizedText.read (small_of_flagId firstId) (small_of_flagId secondId) afterTag
  obtain ⟨commitment, afterCommitment⟩ :=
    delimits_hexField.read firstCommitment secondCommitment afterId
  obtain ⟨key, afterKey⟩ := delimits_hexField.read firstKey secondKey afterCommitment
  obtain ⟨claims, afterClaims⟩ :=
    (delimits_leBytes 4).read first.maxClaims.toNat_lt second.maxClaims.toNat_lt afterKey
  obtain ⟨expires, afterExpires⟩ := (delimits_leBytes 4).read first.expiresHeight.toNat_lt
    second.expiresHeight.toNat_lt afterClaims
  obtain ⟨bounty, afterBounty⟩ := (delimits_leBytes 8).read first.bountyUnits.toNat_lt
    second.bountyUnits.toNat_lt afterExpires
  have small : ∀ {note : Text}, note.size ≤ 80 → note.size < 2 ^ 16 :=
    fun bound => Nat.lt_of_le_of_lt bound (by decide)
  obtain ⟨note, rests⟩ :=
    delimits_sizedText.read (small firstNote) (small secondNote) afterBounty
  exact ⟨⟨flagId, commitment, key, UInt32.toNat_inj.mp claims, UInt32.toNat_inj.mp expires,
    UInt64.toNat_inj.mp bounty, note⟩, rests⟩

/-- The fields of a claimflag suffix. -/
private theorem claimBytes_inj {first second : Tx} {rest more : Bytes}
    (firstKind : first.flagKind = .claim) (secondKind : second.flagKind = .claim)
    (firstShape : first.FlagShape) (secondShape : second.FlagShape)
    (same : flagBytes first ++ rest = flagBytes second ++ more) :
    (first.flagId = second.flagId ∧ first.recipient = second.recipient) ∧ rest = more := by
  simp only [Tx.FlagShape, firstKind] at firstShape
  simp only [Tx.FlagShape, secondKind] at secondShape
  have small : ∀ {address : Text}, isLongAddress address = true → address.size < 2 ^ 16 := by
    intro address long
    simp only [isLongAddress, Bool.and_eq_true, decide_eq_true_eq] at long
    omega
  simp only [flagBytes, firstKind, secondKind, List.append_assoc] at same
  have afterTag := List.append_cancel_left same
  obtain ⟨flagId, afterId⟩ := delimits_sizedText.read (small_of_flagId firstShape.1)
    (small_of_flagId secondShape.1) afterTag
  obtain ⟨recipient, rests⟩ := delimits_sizedText.read (small firstShape.2.2.2.2.2.2.2.1)
    (small secondShape.2.2.2.2.2.2.2.1) afterId
  exact ⟨⟨flagId, recipient⟩, rests⟩

/-- Equal suffixes register the same name and do the same to the same flag. -/
theorem suffix_inj {first second : Tx} (firstFits : first.SuffixFits)
    (secondFits : second.SuffixFits)
    (same : flagBytes first ++ regBytes first = flagBytes second ++ regBytes second) :
    SameSuffix first second := by
  have kinds : first.flagKind = second.flagKind := by
    rw [kind_of_suffix first, kind_of_suffix second, same]
  have firstShape := firstFits.flag
  have secondShape := secondFits.flag
  cases kind : first.flagKind with
  | none =>
      have other : second.flagKind = .none := kinds ▸ kind
      simp only [flagBytes, kind, other, List.nil_append] at same
      obtain ⟨reg, name, regAddress⟩ := regBytes_inj firstFits secondFits same
      simp only [Tx.FlagShape, kind] at firstShape
      simp only [Tx.FlagShape, other] at secondShape
      obtain ⟨a1, a2, a3, a4, a5, a6, a7, a8, a9⟩ := firstShape
      obtain ⟨b1, b2, b3, b4, b5, b6, b7, b8, b9⟩ := secondShape
      exact ⟨reg, name, regAddress, kinds, a1.trans b1.symm, a2.trans b2.symm, a3.trans b3.symm,
        a4.trans b4.symm, a5.trans b5.symm, a6.trans b6.symm, a7.trans b7.symm, a8.trans b8.symm,
        a9.trans b9.symm⟩
  | create =>
      have other : second.flagKind = .create := kinds ▸ kind
      obtain ⟨⟨flagId, commitment, key, claims, expires, bounty, note⟩, regs⟩ :=
        createBytes_inj kind other firstShape secondShape same
      obtain ⟨reg, name, regAddress⟩ := regBytes_inj firstFits secondFits regs
      simp only [Tx.FlagShape, kind] at firstShape
      simp only [Tx.FlagShape, other] at secondShape
      obtain ⟨_, _, _, _, firstRecipient, firstLock⟩ := firstShape
      obtain ⟨_, _, _, _, secondRecipient, secondLock⟩ := secondShape
      rw [claims, bounty, secondLock] at firstLock
      exact ⟨reg, name, regAddress, kinds, flagId, commitment, key, claims, expires, bounty, note,
        firstRecipient.trans secondRecipient.symm, (Except.ok.inj firstLock).symm⟩
  | claim =>
      have other : second.flagKind = .claim := kinds ▸ kind
      obtain ⟨⟨flagId, recipient⟩, regs⟩ := claimBytes_inj kind other firstShape secondShape same
      obtain ⟨reg, name, regAddress⟩ := regBytes_inj firstFits secondFits regs
      simp only [Tx.FlagShape, kind] at firstShape
      simp only [Tx.FlagShape, other] at secondShape
      obtain ⟨_, a2, a3, a4, a5, a6, a7, _, a9⟩ := firstShape
      obtain ⟨_, b2, b3, b4, b5, b6, b7, _, b9⟩ := secondShape
      exact ⟨reg, name, regAddress, kinds, flagId, a2.trans b2.symm, a3.trans b3.symm,
        a4.trans b4.symm, a5.trans b5.symm, a6.trans b6.symm, a7.trans b7.symm, recipient,
        a9.trans b9.symm⟩

end Suffixes

/-! ## Parsed transactions -/

section Parsed

theorem size_foldRegAddress (address : Text) :
    Text.size (foldRegAddress address) = Text.size address := by
  unfold foldRegAddress
  split
  next long =>
    have front : Text.size (address.take 3) = 3 := by
      rw [← size_lowerAscii, long.2]
      rfl
    have total := size_take_add_drop 3 address
    rw [Text.size_append, size_lowerHex, ← total, front]
    rfl
  · rfl

/-- The texts that a transaction registers are members of its document. -/
private theorem parseKind_texts {obj : Json} {fee : UInt64} {typed : Tx} {bound : Nat}
    (parsed : parseKind obj { fee := fee } = .ok typed)
    (member : ∀ {key : String} {text : Text}, obj.text? key = some text → text.size ≤ bound) :
    typed.name.size ≤ bound ∧ typed.regAddress.size ≤ bound := by
  unfold parseKind at parsed
  split at parsed
  · cases parsed
    exact ⟨Nat.zero_le _, Nat.zero_le _⟩
  · split at parsed
    · cases parsed
    · split at parsed
      · cases parsed
      · split at parsed
        next name address nameRead addressRead =>
          cases parsed
          exact ⟨member nameRead, (size_foldRegAddress address).trans_le (member addressRead)⟩
        · cases parsed

/-- The texts that a transaction registers fit their length fields. -/
theorem parseUserTx_texts {host : Host} {obj : Json} {height : Nat} {tx : Tx}
    (parsed : parseUserTx host obj height = .ok tx) :
    tx.name.size < 2 ^ 16 ∧ tx.regAddress.size < 2 ^ 16 := by
  have small := (parseUserTx_ok parsed).2.2
  have limit : kMaxTxJsonBytes = 2 ^ 16 := rfl
  have member : ∀ {key : String} {text : Text}, obj.text? key = some text →
      text.size ≤ 2 ^ 16 - 1 := by
    intro key text read
    obtain ⟨value, found, isText⟩ := Option.bind_eq_some_iff.mp read
    have shorter := Json.dumpSize_lt_of_get? found
    cases value with
    | string inner =>
        cases isText
        have quoted := Json.dumpSize_string text
        omega
    | _ => cases isText
  unfold parseUserTx at parsed
  split at parsed
  · cases parsed
  · split at parsed
    · cases parsed
    · split at parsed
      · cases parsed
      · split at parsed
        · cases parsed
        · split at parsed
          · cases parsed
          · split at parsed
            · cases parsed
            next typed readKind =>
              obtain ⟨name, address⟩ := parseKind_texts readKind member
              obtain ⟨_, _, _, _, _, rfl⟩ := parseBody_ok parsed
              exact ⟨Nat.lt_of_le_of_lt name (by decide), Nat.lt_of_le_of_lt address (by decide)⟩

/-- Every output takes ten bytes at least. -/
theorem length_outputBytes_ge (outputs : List TxOut) :
    10 * outputs.length ≤ (outputBytes outputs).length := by
  induction outputs with
  | nil => exact Nat.le_refl _
  | cons output rest ih =>
      change _ ≤ ((u64Bytes output.value.toNat ++ sizedText output.address) ++
        outputBytes rest).length
      rw [List.length_append, List.length_append, sizedText, List.length_append, u64Bytes, u16Bytes,
        length_leBytes, length_leBytes, List.length_cons]
      omega

theorem length_outputs_le (tx : Tx) : tx.outputs.length ≤ (canonicalTx tx).length := by
  have each := length_outputBytes_ge tx.outputs
  simp only [canonicalTx, List.length_append]
  omega

/-- What canonical bytes and signed bytes both fix. -/
structure SameContent (first second : Tx) : Prop extends SameFront first second,
  SameSuffix first second

/-- Canonical bytes depend on nothing but the content. -/
theorem SameContent.canonicalTx_eq {first second : Tx} (same : SameContent first second) :
    canonicalTx first = canonicalTx second := by
  have counts : first.inputs.length = second.inputs.length := by
    rw [← List.length_map (f := TxIn.outpoint), same.inputs, List.length_map]
  have height : (if first.coinbase then first.height else 0) =
      if second.coinbase then second.height else 0 := by
    rw [← same.coinbase]
    split
    next isCoinbase => exact same.height isCoinbase
    · rfl
  have flags : flagBytes first = flagBytes second := by
    simp only [flagBytes, same.flagKind, same.flagId, same.commitment, same.awardsPubkey,
      same.maxClaims, same.expiresHeight, same.bountyUnits, same.note, same.recipient]
  have regs : regBytes first = regBytes second := by
    simp only [regBytes, same.reg, same.name, same.regAddress]
  simp only [canonicalTx, same.version, same.coinbase, counts, inputBytes_eq, same.inputs,
    same.outputs, same.fee, flags, regs]
  rw [← same.coinbase, height, same.coinbase]

/-- A transaction whose canonical bytes can be read in one way. -/
structure Tx.Sized (tx : Tx) : Prop where
  front : tx.Fits
  suffix : tx.SuffixFits

theorem parseUserTx_sized {host : Host} {obj : Json} {height : Nat} {tx : Tx}
    (read : parseUserTx host obj height = .ok tx) : tx.Sized := by
  obtain ⟨parsed, bounded, _⟩ := parseUserTx_ok read
  obtain ⟨name, address⟩ := parseUserTx_texts read
  refine ⟨⟨?_, ?_, ?_, ?_, ?_⟩, ⟨parsed.register, parsed.flag, name, address⟩⟩
  · rw [parsed.version]
    decide
  · rw [parsed.user.2]
    decide
  · exact Nat.lt_of_le_of_lt parsed.inputs (by decide)
  · exact Nat.lt_of_le_of_lt (Nat.le_trans (length_outputs_le tx) bounded) (by decide)
  · exact fun output listed =>
      Nat.lt_of_le_of_lt (parsed.outputs.2 output listed).2.2 (by decide)

/-- Resolving the output names of a transaction keeps its bytes readable. -/
theorem resolveOutputNames_sized {host : Host} {obj : Json} {height : Nat} {tx : Tx}
    {names : NameTable}
    (sound : names.Sound) (read : parseUserTx host obj height = .ok tx) :
    (names.resolveOutputNames host tx).Sized := by
  have parsed := (parseUserTx_ok read).1
  have sized := parseUserTx_sized read
  rw [resolveOutputNames_eq names parsed.txid]
  refine ⟨⟨sized.front.version, sized.front.height, sized.front.inputs, ?_, ?_⟩,
    ⟨sized.suffix.register, sized.suffix.flag, sized.suffix.name, sized.suffix.address⟩⟩
  · rw [List.length_map]
    exact sized.front.outputs
  · intro output listed
    obtain ⟨original, member, rfl⟩ := List.mem_map.mp listed
    exact Nat.lt_of_le_of_lt (resolveOutput_valid sound (parsed.outputs.2 original member)).2.2
      (by decide)

/-- Transactions with the same canonical bytes agree in everything but their
signatures and keys. -/
theorem Tx.Sized.sameContent {first second : Tx} (firstSized : first.Sized)
    (secondSized : second.Sized)
    (same : canonicalTx first = canonicalTx second) : SameContent first second := by
  obtain ⟨front, suffixes⟩ := canonicalTx_front firstSized.front secondSized.front same
  exact ⟨front, suffix_inj firstSized.suffix secondSized.suffix suffixes⟩

/-- The document that a wallet signs. -/
def signBody (tx : Tx) : Json :=
  .ofMembers <|
    [("fee", .unsigned tx.fee), ("inputs", .array (tx.inputs.map signedInput)),
      ("outputs", .array (tx.outputs.map outputToJson)),
      ("version", .unsigned (UInt64.ofNat tx.version))] ++
    regMembers tx ++ flagMembers tx

theorem signPayload_eq (tx : Tx) : signPayload tx = Text.bytes (signBody tx).dump := rfl

/-- The signed document depends on nothing but the content. -/
theorem SameContent.signBody_eq {first second : Tx} (same : SameContent first second) :
    signBody first = signBody second := by
  have inputs : ∀ tx : Tx, tx.inputs.map signedInput = (tx.inputs.map TxIn.outpoint).map
      fun point : Outpoint => Json.ofMembers
        [("prev_txid", .string (toHex point.1)), ("vout", .unsigned point.2.toUInt64)] :=
          fun tx => by
    rw [List.map_map]
    rfl
  simp only [signBody, regMembers, flagMembers, inputs, same.inputs, same.outputs, same.fee,
    same.version, same.reg, same.name, same.regAddress, same.flagKind, same.flagId,
    same.commitment, same.awardsPubkey, same.maxClaims, same.expiresHeight, same.bountyUnits,
    same.note, same.recipient]

/-- The signed document fixes the content of parsed transactions. -/
theorem sameContent_of_signBody {host : Host} {height otherHeight : Nat} {first second : Tx}
    (firstParsed : first.Parsed host height) (secondParsed : second.Parsed host otherHeight)
    (same : signBody first = signBody second) : SameContent first second := by
  have typed : ∀ tx : Tx, Typed (signBody tx) tx := fun tx => typed_ofMembers tx <| by
    simp only [typedKeys, List.forall_mem_cons]
    exact ⟨rfl, rfl, rfl, rfl, rfl, rfl, rfl, rfl, rfl, rfl, rfl,
      fun _ none => absurd none List.not_mem_nil⟩
  have base : ∀ tx : Tx,
      (signBody tx).get? "fee" = some (.unsigned tx.fee) ∧
        (signBody tx).get? "inputs" = some (.array (tx.inputs.map signedInput)) ∧
        (signBody tx).get? "outputs" = some (.array (tx.outputs.map outputToJson)) := by
    intro tx
    simp only [signBody, Json.get?_ofMembers, regMembers, flagMembers]
    cases tx.reg <;> cases tx.flagKind <;> exact ⟨rfl, rfl, rfl⟩
  obtain ⟨firstFee, firstInputs, firstOutputs⟩ := base first
  obtain ⟨secondFee, secondInputs, secondOutputs⟩ := base second
  rw [same] at firstFee firstInputs firstOutputs
  have fee : first.fee = second.fee :=
    Json.unsigned.inj (Option.some.inj (firstFee.symm.trans secondFee))
  have inputs : first.inputs.map TxIn.outpoint = second.inputs.map TxIn.outpoint := by
    have items := Json.array.inj (Option.some.inj (firstInputs.symm.trans secondInputs))
    have read : ∀ input : TxIn,
        (parseInput (signedInput input)).toOption.map TxIn.outpoint = some input.outpoint := by
      intro input
      rw [show parseInput (signedInput input) = .ok ⟨input.prev, input.vout, [], []⟩ from
        parseInput_inputToJson ⟨input.prev, input.vout, [], []⟩]
      rfl
    have points := congrArg (List.filterMap fun item =>
      (parseInput item).toOption.map TxIn.outpoint) items
    simpa only [List.filterMap_map, Function.comp_def, read, List.filterMap_eq_map'] using points
  have outputs : first.outputs = second.outputs := by
    have items := Json.array.inj (Option.some.inj (firstOutputs.symm.trans secondOutputs))
    have read := parseOutputs_outputToJson height firstParsed.outputs.1 firstParsed.outputs.2
    rw [items, parseOutputs_outputToJson height secondParsed.outputs.1
      secondParsed.outputs.2] at read
    exact (Except.ok.inj read).symm
  have parts : typedPart first = typedPart second := by
    have firstTyped := parseKind_typed firstParsed (typed first)
    have secondTyped := parseKind_typed secondParsed (typed second)
    rw [same, fee, secondTyped] at firstTyped
    exact (Except.ok.inj firstTyped).symm
  have field : ∀ {α : Type} (view : Tx → α), view (typedPart first) = view (typedPart second) :=
    fun view => congrArg view parts
  exact ⟨⟨field Tx.version, field Tx.coinbase, inputs, outputs, fee, fun _ => field Tx.height⟩,
    ⟨field Tx.reg, field Tx.name, field Tx.regAddress, field Tx.flagKind, field Tx.flagId,
      field Tx.commitment, field Tx.awardsPubkey, field Tx.maxClaims, field Tx.expiresHeight,
      field Tx.bountyUnits, field Tx.note, field Tx.recipient, field Tx.escrowLock⟩⟩

/-- **Ids and signatures.** Two parsed transactions have the same canonical bytes
exactly when they have the same signed bytes, and then they agree in everything
but their signatures and keys. Of the JSON library it is used that the two
signed documents are not written as the same text when they differ. -/
theorem canonicalTx_eq_iff {host : Host} {obj other : Json} {height otherHeight : Nat}
    {first second : Tx} (firstParsed : parseUserTx host obj height = .ok first)
    (secondParsed : parseUserTx host other otherHeight = .ok second)
    (dumped : (signBody first).dump = (signBody second).dump → signBody first = signBody second) :
    (canonicalTx first = canonicalTx second ↔ signPayload first = signPayload second) ∧
      (canonicalTx first = canonicalTx second → SameContent first second) := by
  have content : canonicalTx first = canonicalTx second → SameContent first second :=
    (parseUserTx_sized firstParsed).sameContent (parseUserTx_sized secondParsed)
  refine ⟨⟨fun same => ?_, fun same => ?_⟩, content⟩
  · rw [signPayload_eq, signPayload_eq, (content same).signBody_eq]
  · rw [signPayload_eq, signPayload_eq] at same
    exact (sameContent_of_signBody (parseUserTx_ok firstParsed).1 (parseUserTx_ok secondParsed).1
      (dumped (Text.bytes_injective same))).canonicalTx_eq

/-- A spend of one output, with or without a signature. -/
private def plainSpend (signature : Text) : Tx :=
  let spend : Tx := {
    fee := 1
    inputs := [⟨Digest.zero, 0, signature, []⟩]
    outputs := [⟨5, "alice".toList⟩] }
  { spend with txid := txidOf (Host.ofTables [] []) spend }

theorem canonicalTx_eq_iff_signature :
    SameContent (plainSpend []) (plainSpend "aa".toList) ∧
      signPayload (plainSpend []) = signPayload (plainSpend "aa".toList) := by
  have fee : (1 : UInt64) ≠ 0 ∧ minFeeForHeight 1 ≤ 1 := by decide
  have outputs : ∀ output ∈ [(⟨5, "alice".toList⟩ : TxOut)],
      output.value ≠ 0 ∧ output.address ≠ [] ∧ output.address.size ≤ 256 := by decide
  have parsed : ∀ signature, (plainSpend signature).Parsed (Host.ofTables [] []) 1 := fun _ =>
    ⟨rfl, ⟨rfl, rfl⟩, fee, ⟨rfl, rfl, rfl⟩, ⟨rfl, rfl, rfl, rfl, rfl, rfl, rfl, rfl, rfl⟩,
      Nat.le_of_ble_eq_true rfl, ⟨List.cons_ne_nil _ _, outputs⟩, rfl⟩
  have settled := canonicalTx_eq_iff
    (parseUserTx_txToJson_of_small (parsed []) (by decide +kernel))
    (parseUserTx_txToJson_of_small (parsed "aa".toList) (by decide +kernel)) (fun _ => rfl)
  exact ⟨settled.2 rfl, settled.1.mp rfl⟩

end Parsed

end PiSecure
