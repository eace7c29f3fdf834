import PiSecure.Theory.Books
import PiSecure.Theory.Mining
import PiSecure.Theory.NameRegistry

/-! # Three ways to take in the names of a block

A mined block remembers grants while it is checked and its registrations without
overwriting; a synced block overwrites; a replay reads the plain registrations and
then the snapshot of the stored block. The three leave one name-to-address map when
the registrations of the block are settled.
-/

namespace PiSecure

/-- The entry of a registration. -/
def Tx.entry (tx : Tx) : Text × Text := (foldName tx.name, tx.regAddress)

/-- Whether the JSON of a registration has the type of one. -/
def Tx.isPlain (tx : Tx) : Bool := tx.flagKind = .none

/-- The registrations among transactions. -/
def registrations (txs : List Tx) : List Tx := txs.filter Tx.reg

/-- The entry of a record. -/
def NameRec.entry (rec : NameRec) : Text × Text := (foldName rec.name, rec.address)

/-- A registration that `remember_name` reads as valid. -/
def Tx.Registrable (tx : Tx) : Prop :=
  validShortname tx.name = true ∧ isLongAddress tx.regAddress = true

/-- Registrations that no two ways take in differently: one that is turned down, first
come, first served, is turned down for its address, by what was bound before the
block or by a plain registration, and has no reserved name. -/
structure SettledNames (names : NameTable) (txs : List Tx) : Prop where
  settled : names.registry.Settled Tx.entry Tx.isPlain (registrations txs)
  unreserved : ∀ before tx after, registrations txs = before ++ tx :: after →
    names.registry.TurnedDown Tx.entry before tx → isReservedName tx.name = false

/-! ## The checks of a block -/

section Checks

variable {host : Host} {node : Node} {localPolicy : Bool} {height : Nat} {prior : List Tx}
  {staged flags : FlagBook} {names next : NameTable} {tx : Tx} {txs : List Tx}

/-- What an admitted registration did: at most the grant of a reserved name was
remembered. -/
theorem admitRegister_ok
    (admitted : admitRegister host node.namesFile node.storage.utxo tx localPolicy prior names =
      (next, .ok ())) :
    (tx.reg = true → tx.Registrable) ∧
      (next = names ∨ (localPolicy = true ∧ tx.reg = true ∧ isReservedName tx.name = true ∧
        next = names.rememberOrKeep tx.name tx.regAddress "reserved_bind".toList [] false)) := by
  unfold admitRegister at admitted
  split at admitted
  next other =>
    cases admitted
    exact ⟨fun registers => absurd registers other, .inl rfl⟩
  next registers =>
    split at admitted
    · cases admitted
    next valid =>
      split at admitted
      · cases admitted
      next long =>
        refine ⟨fun _ => ⟨not_not.mp valid, not_not.mp long⟩, ?_⟩
        split at admitted
        · cases admitted
        · split at admitted
          · cases admitted
          · split at admitted
            next reserved =>
              split at admitted
              next granted matched =>
                cases admitted
                unfold NameTable.grantMatches at matched
                split at matched
                · cases matched
                · split at matched
                  · cases matched
                    exact .inr ⟨reserved.2, not_not.mp registers, reserved.1, rfl⟩
                  · cases matched
              · cases admitted
            · cases admitted
              exact .inl rfl

/-- The registrations of a checked block are valid, and the checks enrol at most
entries of reserved names early, when the block is mined. -/
theorem checkTxs_names (distinct : names.Distinct)
    (passed : checkTxs host node localPolicy height txs prior staged names = (next, .ok flags)) :
    (∀ tx ∈ registrations txs, tx.Registrable) ∧
      ∃ early, next.registry = names.registry.enrolAll false early ∧
        ∀ entry ∈ early, localPolicy = true ∧
          ∃ tx ∈ registrations txs, isReservedName tx.name = true ∧ tx.entry = entry := by
  induction txs generalizing prior staged names with
  | nil =>
      cases passed
      exact ⟨fun _ impossible => absurd impossible List.not_mem_nil, [], rfl,
        fun _ impossible => absurd impossible List.not_mem_nil⟩
  | cons first rest ih =>
      rw [checkTxs] at passed
      split at passed
      · cases passed
      next middle booked checked =>
        have firstPassed := checkTx_ok.mp checked
        obtain ⟨valid, remembered⟩ := admitRegister_ok firstPassed.registered
        have written : names.Written middle := by
          have all := checkTx_written host node localPolicy height prior staged first names
          rwa [checked] at all
        obtain ⟨others, early, same, each⟩ := ih (written.distinct distinct) passed
        have inRest : ∀ tx ∈ registrations rest, tx ∈ registrations (first :: rest) :=
          fun tx listed =>
          List.mem_filter.mpr ⟨List.mem_cons_of_mem _ (List.mem_filter.mp listed).1,
            (List.mem_filter.mp listed).2⟩
        refine ⟨fun tx listed => ?_, ?_⟩
        · obtain ⟨member, registers⟩ := List.mem_filter.mp listed
          rcases List.mem_cons.mp member with rfl | later
          · exact valid registers
          · exact others tx (List.mem_filter.mpr ⟨later, registers⟩)
        · have later : ∀ entry ∈ early, localPolicy = true ∧
              ∃ tx ∈ registrations (first :: rest), isReservedName tx.name = true ∧
                tx.entry = entry := fun entry listed => by
            obtain ⟨mined, tx, isRest, found⟩ := each entry listed
            exact ⟨mined, tx, inRest tx isRest, found⟩
          rcases remembered with kept | ⟨mined, registers, reserved, grown⟩
          · subst kept
            exact ⟨early, same, later⟩
          · refine ⟨first.entry :: early, ?_, fun entry listed => ?_⟩
            · obtain ⟨name, long⟩ := valid registers
              rw [same, grown, distinct.registry_rememberOrKeep name long]
              rfl
            · rcases List.mem_cons.mp listed with rfl | isEarly
              · exact ⟨mined, first, List.mem_filter.mpr ⟨List.mem_cons_self, registers⟩,
                  reserved, rfl⟩
              · exact later entry isEarly

/-- The registrations of a block enrol their entries; a synced block overwrites. -/
theorem confirmNames_registry (distinct : names.Distinct)
    (valid : ∀ tx ∈ registrations txs, tx.Registrable) :
    (confirmNames localPolicy names txs).registry =
      names.registry.enrolAll (!localPolicy) ((registrations txs).map Tx.entry) := by
  induction txs generalizing names with
  | nil => rfl
  | cons first rest ih =>
      rw [confirmNames, List.foldl_cons]
      by_cases registers : first.reg = true
      · have split : registrations (first :: rest) = first :: registrations rest :=
          List.filter_cons_of_pos registers
        rw [split, List.forall_mem_cons] at valid
        rw [if_pos registers, split]
        have written := NameTable.written_rememberOrKeep names first.name first.regAddress
          (nameKind first.name) (toHex first.txid) (!localPolicy)
        refine (ih (written.distinct distinct) valid.2).trans ?_
        rw [distinct.registry_rememberOrKeep valid.1.1 valid.1.2]
        rfl
      · have split : registrations (first :: rest) = registrations rest :=
          List.filter_cons_of_neg registers
        rw [split] at valid
        rw [if_neg registers, split]
        exact ih distinct valid

end Checks

/-! ## Replaying a stored block -/

section Replay

variable {names : NameTable} {txs : List Tx}

theorem foldBoundAddress_of_long {address : Text} (long : isLongAddress address = true) :
    NameTable.foldBoundAddress address = address := by
  obtain ⟨_, front, kept⟩ := isLongAddress_parts long
  rw [NameTable.foldBoundAddress, if_pos long, kept, ← front, List.take_append_drop]

/-- Absorbing a row with a name, an address and a txid remembers the name. -/
theorem absorbRecord_eq (names : NameTable) {row : Json} {name address txid : Text} (chain : Bool)
    (named : row.text? "name" = some name) (located : row.text? "address" = some address)
    (identified : row.valueOr "txid" Json.asText? [] = some txid) :
    ∃ kind, names.absorbRecord row chain =
      some (names.rememberOrKeep name (NameTable.foldBoundAddress address) kind txid chain) := by
  unfold NameTable.absorbRecord
  rw [named, located]
  dsimp only
  rw [identified]
  exact ⟨_, rfl⟩

/-- The type in the JSON of a transaction is that of a registration when it registers
a name and has no flag. -/
private theorem type_txToJson (tx : Tx) :
    ∃ kind, (txToJson tx).valueOr "type" Json.asText? [] = some kind ∧
      (kind = "register".toList ↔ tx.reg = true ∧ tx.isPlain = true) := by
  have typed : (txToJson tx).get? "type" =
      Json.lookup "type" (regMembers tx ++ flagMembers tx).reverse :=
    (typed_txToJson tx).get "type" List.mem_cons_self
  have written : ∀ text, Json.lookup "type" (regMembers tx ++ flagMembers tx).reverse =
      some (.string text) → (txToJson tx).valueOr "type" Json.asText? [] = some text :=
    fun text found => Json.valueOr_of_get? (typed.trans found) _ _
  unfold Tx.isPlain
  rw [regMembers, flagMembers] at typed written
  cases registers : tx.reg <;> cases flagged : tx.flagKind <;>
    rw [registers, flagged] at typed written
  case false.none =>
    exact ⟨[], Json.valueOr_of_absent rfl typed _ _, by decide⟩
  all_goals exact ⟨_, written _ rfl, by decide⟩

/-- The name, the address and the id in the JSON of a registration. -/
private theorem binding_txToJson {tx : Tx} (registers : tx.reg = true) :
    (txToJson tx).text? "name" = some tx.name ∧
      (txToJson tx).text? "address" = some tx.regAddress ∧
      (txToJson tx).valueOr "txid" Json.asText? [] = some (toHex tx.txid) := by
  have members := txToJson_get? tx
  simp only [txMembers, regMembers, flagMembers, registers] at members
  have identified : (txToJson tx).get? "txid" = some (.string (toHex tx.txid)) := by
    rw [members]
    cases tx.flagKind <;> rfl
  refine ⟨?_, ?_, Json.valueOr_of_get? identified _ _⟩
  · rw [Json.text?, members]
    cases tx.flagKind <;> rfl
  · rw [Json.text?, members]
    cases tx.flagKind <;> rfl

/-- A registration in a stored block is absorbed when its JSON has the type of one. -/
theorem absorbRegisters_cons (names : NameTable) (tx : Tx) (rest : List Json) :
    (tx.reg = true ∧ tx.isPlain = true ∧ ∃ kind txid,
      names.absorbRegisters (txToJson tx :: rest) =
        (names.rememberOrKeep tx.name (NameTable.foldBoundAddress tx.regAddress) kind txid
          true).absorbRegisters rest) ∨
    (¬(tx.reg = true ∧ tx.isPlain = true) ∧
      names.absorbRegisters (txToJson tx :: rest) = names.absorbRegisters rest) := by
  have isObject : (txToJson tx).isObject = true := rfl
  obtain ⟨kind, typed, isRegister⟩ := type_txToJson tx
  rw [NameTable.absorbRegisters, if_neg (not_not.mpr isObject), typed]
  dsimp only
  by_cases plain : tx.reg = true ∧ tx.isPlain = true
  · obtain ⟨name, address, txid⟩ := binding_txToJson plain.1
    obtain ⟨label, absorbed⟩ := absorbRecord_eq names true name address txid
    rw [if_neg (not_not.mpr (isRegister.mpr plain)), absorbed]
    exact .inl ⟨plain.1, plain.2, label, toHex tx.txid, rfl⟩
  · rw [if_pos fun same => plain (isRegister.mp same)]
    exact .inr ⟨plain, rfl⟩

/-- Replay enrols the plain registrations of a stored block first. -/
theorem absorbRegisters_registry (distinct : names.Distinct)
    (valid : ∀ tx ∈ registrations txs, tx.Registrable) :
    ∃ next : NameTable, names.absorbRegisters (txs.map txToJson) = (next, true) ∧ next.Distinct ∧
      next.registry = names.registry.enrolAll true
        (((registrations txs).filter Tx.isPlain).map Tx.entry) := by
  induction txs generalizing names with
  | nil => exact ⟨names, rfl, distinct, rfl⟩
  | cons first rest ih =>
      have validRest : ∀ tx ∈ registrations rest, tx.Registrable := fun tx listed =>
        valid tx (List.mem_filter.mpr ⟨List.mem_cons_of_mem _ (List.mem_filter.mp listed).1,
          (List.mem_filter.mp listed).2⟩)
      rw [List.map_cons]
      rcases absorbRegisters_cons names first (rest.map txToJson) with
        ⟨registers, plain, kind, txid, absorbed⟩ | ⟨skipped, absorbed⟩
      · have own := valid first (List.mem_filter.mpr ⟨List.mem_cons_self, registers⟩)
        rw [foldBoundAddress_of_long own.2] at absorbed
        have written := NameTable.written_rememberOrKeep names first.name first.regAddress kind txid
          true
        obtain ⟨next, ended, kept, same⟩ := ih (written.distinct distinct) validRest
        refine ⟨next, absorbed.trans ended, kept, same.trans ?_⟩
        rw [distinct.registry_rememberOrKeep own.1 own.2, registrations, registrations,
          List.filter_cons_of_pos registers, List.filter_cons_of_pos plain]
        rfl
      · obtain ⟨next, ended, kept, same⟩ := ih distinct validRest
        refine ⟨next, absorbed.trans ended, kept, same.trans ?_⟩
        by_cases registers : first.reg = true
        · have notPlain : ¬first.isPlain = true := fun plain => skipped ⟨registers, plain⟩
          rw [registrations, registrations, List.filter_cons_of_pos registers,
            List.filter_cons_of_neg notPlain]
        · rw [registrations, registrations, List.filter_cons_of_neg registers]

/-- Absorbing the rows of a snapshot enrols their entries. -/
theorem absorbRows_registry {rows : List NameRec} (distinct : names.Distinct)
    (sound : ∀ rec ∈ rows, rec.Sound) :
    (names.absorbRows true (rows.map NameTable.rowToJson)).1.registry =
      names.registry.enrolAll true (rows.map NameRec.entry) := by
  induction rows generalizing names with
  | nil => rfl
  | cons rec rest ih =>
      rw [List.forall_mem_cons] at sound
      have members : ∀ key, (NameTable.rowToJson rec).get? key = Json.lookup key
          ([("name", Json.string rec.name), ("address", .string rec.address),
            ("kind", .string rec.kind)] ++
            (if rec.txid.isEmpty then [] else [("txid", Json.string rec.txid)])).reverse :=
        fun key => Json.get?_ofMembers _ _
      have name : (NameTable.rowToJson rec).text? "name" = some rec.name := by
        rw [Json.text?, members]
        cases rec.txid <;> rfl
      have address : (NameTable.rowToJson rec).text? "address" = some rec.address := by
        rw [Json.text?, members]
        cases rec.txid <;> rfl
      have txid : ∃ txid, (NameTable.rowToJson rec).valueOr "txid" Json.asText? [] = some txid := by
        cases given : rec.txid with
        | nil =>
            have absent : (NameTable.rowToJson rec).get? "txid" = none := by
              rw [members, given]
              rfl
            exact ⟨[], Json.valueOr_of_absent rfl absent _ _⟩
        | cons c text =>
            have found : (NameTable.rowToJson rec).get? "txid" = some (.string (c :: text)) := by
              rw [members, given]
              rfl
            exact ⟨c :: text, Json.valueOr_of_get? found _ _⟩
      obtain ⟨txid, identified⟩ := txid
      obtain ⟨kind, absorbed⟩ := absorbRecord_eq names true name address identified
      rw [foldBoundAddress_of_long sound.1.2] at absorbed
      have written := NameTable.written_rememberOrKeep names rec.name rec.address kind txid true
      rw [List.map_cons, NameTable.absorbRows, absorbed]
      dsimp only
      rw [ih (written.distinct distinct) sound.2, distinct.registry_rememberOrKeep sound.1.1
        sound.1.2]
      rfl

/-- The rows after one registration: its own, and those of other names. -/
theorem mem_snapshotTx {rows : List NameRec} {tx : Tx} (registers : tx.reg = true) (rec : NameRec) :
    rec ∈ NameTable.snapshotTx rows tx ↔
      rec = ⟨tx.name, tx.regAddress, nameKind tx.name, toHex tx.txid⟩ ∨
        (rec ∈ rows ∧ foldName rec.name ≠ foldName tx.name) := by
  rw [NameTable.snapshotTx, if_neg (not_not.mpr registers)]
  dsimp only
  by_cases present : (rows.any fun rec => foldName rec.name == foldName tx.name) = true
  · rw [if_pos present, List.mem_map]
    constructor
    · rintro ⟨old, member, rfl⟩
      by_cases same : (foldName old.name == foldName tx.name) = true
      · exact .inl (if_pos same)
      · rw [if_neg same]
        exact .inr ⟨member, fun equal => same (beq_iff_eq.mpr equal)⟩
    · rintro (rfl | ⟨member, other⟩)
      · obtain ⟨old, listed, same⟩ := List.any_eq_true.mp present
        exact ⟨old, listed, if_pos same⟩
      · exact ⟨rec, member, if_neg fun same => other (eq_of_beq same)⟩
  · rw [if_neg present, List.mem_append, List.mem_singleton]
    have others : rec ∈ rows → foldName rec.name ≠ foldName tx.name := fun member same =>
      present (List.any_eq_true.mpr ⟨rec, member, beq_iff_eq.mpr same⟩)
    constructor
    · rintro (member | same)
      · exact .inr ⟨member, others member⟩
      · exact .inl same
    · rintro (same | ⟨member, _⟩)
      · exact .inr same
      · exact .inl member

/-- The rows of a snapshot: the last entry of every name that the block registers, and
rows of the table before it. -/
theorem snapshotTx_rows (table : NameTable) (txs : List Tx) :
    (∀ rec ∈ txs.foldl NameTable.snapshotTx table,
      Registry.Latest Tx.entry (registrations txs) rec.entry ∨ rec ∈ table) ∧
    ∀ row, Registry.Latest Tx.entry (registrations txs) row →
      ∃ rec ∈ txs.foldl NameTable.snapshotTx table, rec.entry = row := by
  induction txs using List.reverseRecOn with
  | nil =>
      refine ⟨fun rec listed => .inr listed, fun row latest => ?_⟩
      obtain ⟨before, tx, after, split, _⟩ := latest
      exact absurd split.symm (List.append_ne_nil_of_right_ne_nil _ (List.cons_ne_nil _ _))
  | append_singleton before tx ih =>
      obtain ⟨rows, covered⟩ := ih
      rw [List.foldl_append, List.foldl_cons, List.foldl_nil]
      by_cases registers : tx.reg = true
      · have split : registrations (before ++ [tx]) = registrations before ++ [tx] := by
          rw [registrations, List.filter_append, List.filter_cons_of_pos registers, List.filter_nil]
          rfl
        rw [split]
        refine ⟨fun rec listed => ?_, fun row latest => ?_⟩
        · rcases (mem_snapshotTx registers rec).mp listed with rfl | ⟨member, other⟩
          · exact .inl (Registry.latest_snoc.mpr (.inl rfl))
          · exact (rows rec member).imp_left fun latest =>
              Registry.latest_snoc.mpr (.inr ⟨other, latest⟩)
        · rcases Registry.latest_snoc.mp latest with rfl | ⟨other, earlier⟩
          · exact ⟨_, (mem_snapshotTx registers _).mpr (.inl rfl), rfl⟩
          · obtain ⟨rec, member, rfl⟩ := covered row earlier
            exact ⟨rec, (mem_snapshotTx registers rec).mpr (.inr ⟨member, other⟩), rfl⟩
      · have split : registrations (before ++ [tx]) = registrations before := by
          rw [registrations, List.filter_append, List.filter_cons_of_neg registers, List.filter_nil,
            List.append_nil]
          rfl
        rw [split, NameTable.snapshotTx, if_pos registers]
        exact ⟨rows, covered⟩

/-- The rows of a snapshot are sound. -/
theorem snapshotTx_sound {table : NameTable} (sound : table.Sound)
    (valid : ∀ tx ∈ registrations txs, tx.Registrable) :
    ∀ rec ∈ txs.foldl NameTable.snapshotTx table, rec.Sound := by
  induction txs generalizing table with
  | nil => exact sound
  | cons first rest ih =>
      rw [List.foldl_cons]
      refine ih ?_ fun tx listed => valid tx (List.mem_filter.mpr
        ⟨List.mem_cons_of_mem _ (List.mem_filter.mp listed).1, (List.mem_filter.mp listed).2⟩)
      by_cases registers : first.reg = true
      · intro rec listed
        rcases (mem_snapshotTx registers rec).mp listed with rfl | ⟨member, _⟩
        · exact valid first (List.mem_filter.mpr ⟨List.mem_cons_self, registers⟩)
        · exact sound rec member
      · rw [NameTable.snapshotTx, if_pos registers]
        exact sound

end Replay

/-! ## The three ways -/

section Ways

variable {host : Host}

/-- The names that first come, first served leaves after the registrations of a block. -/
noncomputable def servedNames (names : NameTable) (txs : List Tx) : Registry Text Text :=
  names.registry.left Tx.entry (registrations txs)

/-- What the checks of an accepted block say about its registrations. -/
theorem Accepted.checked_names (accepted : Accepted host)
    (distinct : accepted.node.names.Distinct) :
    (∀ tx ∈ registrations accepted.txs, tx.Registrable) ∧
      ∃ early, accepted.names.registry = accepted.node.names.registry.enrolAll false early ∧
        ∀ entry ∈ early, accepted.localPolicy = true ∧
          ∃ tx ∈ registrations accepted.txs, isReservedName tx.name = true ∧ tx.entry = entry :=
  checkTxs_names distinct accepted.passes.txs

/-- The names that were checked with settled registrations are among those served. -/
theorem Accepted.names_within (accepted : Accepted host)
    (distinct : accepted.node.names.Distinct)
    (settled : SettledNames accepted.node.names accepted.txs) :
    ∃ early, accepted.names.registry = accepted.node.names.registry.enrolAll false early ∧
      (∀ entry ∈ early, accepted.localPolicy = true ∧
        (servedNames accepted.node.names accepted.txs).Holds entry) ∧
      accepted.names.registry.Within (servedNames accepted.node.names accepted.txs) := by
  obtain ⟨_, early, same, each⟩ := accepted.checked_names distinct
  have holds : ∀ entry ∈ early, accepted.localPolicy = true ∧
      (servedNames accepted.node.names accepted.txs).Holds entry := by
    intro entry listed
    obtain ⟨mined, tx, registers, reserved, rfl⟩ := each entry listed
    obtain ⟨before, after, split⟩ := List.append_of_mem registers
    refine ⟨mined, Registry.holds_of_not_turnedDown split fun turned => ?_⟩
    have free := settled.unreserved before tx after split turned
    rw [reserved] at free
    cases free
  refine ⟨early, same, holds, ?_⟩
  rw [same]
  exact (Registry.within_enrolAll_false _ _).enrolAll_agreed (distinct.oneName.enrolAll false _)
    fun entry listed => (holds entry listed).2

/-- An accepted block with settled registrations leaves the names that are served. -/
theorem Accepted.confirmed_names (accepted : Accepted host)
    (distinct : accepted.node.names.Distinct)
    (settled : SettledNames accepted.node.names accepted.txs) :
    (confirmNames accepted.localPolicy accepted.names accepted.txs).registry =
      servedNames accepted.node.names accepted.txs := by
  obtain ⟨valid, _⟩ := accepted.checked_names distinct
  obtain ⟨early, same, holds, _⟩ := accepted.names_within distinct settled
  rw [confirmNames_registry (accepted.names_written.distinct distinct) valid, same]
  cases policy : accepted.localPolicy with
  | true =>
      exact Registry.enrolAll_early distinct.oneName fun entry listed => (holds entry listed).2
  | false =>
      have none : early = [] := List.eq_nil_iff_forall_not_mem.mpr fun entry listed => by
        have mined := (holds entry listed).1
        rw [policy] at mined
        cases mined
      rw [none]
      exact settled.settled.enrolAll_true distinct.oneName

/-- Replaying the stored document of such a block leaves the same names. -/
theorem Accepted.absorbed_names (accepted : Accepted host)
    (distinct : accepted.node.names.Distinct) (sound : accepted.node.names.Sound)
    (settled : SettledNames accepted.node.names accepted.txs) :
    (accepted.node.names.absorbBlock accepted.stored).1.registry =
      servedNames accepted.node.names accepted.txs := by
  obtain ⟨valid, _⟩ := accepted.checked_names distinct
  obtain ⟨_, _, _, within⟩ := accepted.names_within distinct settled
  obtain ⟨plain, registered, plainDistinct, same⟩ := absorbRegisters_registry distinct valid
  obtain ⟨rows, covered⟩ := snapshotTx_rows accepted.names accepted.txs
  have snapshot : (accepted.stored.array? "names").getD [] =
      (accepted.txs.foldl NameTable.snapshotTx accepted.names).map NameTable.rowToJson := by
    rw [Json.array?, accepted.stored_get? _
      (accepted.names.snapshotIncluding accepted.txs) rfl]
    rfl
  have checked := accepted.names_written.distinct distinct
  rw [NameTable.absorbBlock, accepted.stored_txs, registered]
  dsimp only
  rw [snapshot, absorbRows_registry plainDistinct
    (snapshotTx_sound (accepted.names_written.sound sound) valid), same]
  refine settled.settled.enrolAll_rows distinct.oneName (fun row listed => ?_) fun row latest => ?_
  · obtain ⟨rec, member, rfl⟩ := List.mem_map.mp listed
    refine (rows rec member).imp_right fun old => ?_
    exact within _ _ (checked.registry_iff.mpr ⟨rec, old, rfl, rfl⟩)
  · obtain ⟨rec, member, same⟩ := covered row latest
    exact List.mem_map.mpr ⟨rec, member, same⟩

/-- The block of an acceptance is the submitted object. -/
theorem acceptance_block {moment : Moment} {localPolicy : Bool} {node : Node} {params : Json}
    {accepted : Accepted host}
    (passed : acceptance host moment localPolicy node params = some accepted) :
    accepted.block = asObjectParam host params := by
  unfold acceptance at passed
  split at passed
  next member members given =>
    split at passed
    · cases passed
      exact given.symm
    · cases passed
  · cases passed

/-- A miner that resolves for a mined block resolves for a synced one. -/
theorem submittedMiner_synced {names : NameTable} {wallet : Text} {miner : Text × Text}
    (mined : submittedMiner names true wallet = .ok miner) :
    submittedMiner names false wallet = .ok miner := by
  unfold submittedMiner at mined ⊢
  cases resolved : names.resolveMiner wallet with
  | ok found =>
      rw [resolved] at mined
      exact mined
  | error why =>
      rw [resolved] at mined
      dsimp only at mined
      rw [if_neg (not_not.mpr rfl)] at mined
      split at mined <;> cases mined

/-- A block that is accepted both ways has one list of transactions and one hash. -/
theorem acceptances_agree {moment later : Moment} {node : Node} {params : Json}
    {mined synced : Accepted host} (mines : acceptance host moment true node params = some mined)
    (syncs : acceptance host later false node params = some synced) :
    synced.txs = mined.txs ∧ synced.hash = mined.hash := by
  obtain ⟨_, minedPolicy, minedNode⟩ := acceptance_of mines
  obtain ⟨_, syncedPolicy, syncedNode⟩ := acceptance_of syncs
  have sameBlock := (acceptance_block syncs).trans (acceptance_block mines).symm
  obtain ⟨payout, drafted⟩ := mined.passes.drafted
  obtain ⟨syncedPayout, syncedDrafted⟩ := synced.passes.drafted
  have fields : synced.checked.draft.fields = mined.checked.draft.fields := by
    have read := syncedDrafted.fields
    rw [sameBlock, drafted.fields] at read
    exact (Except.ok.inj read).symm
  have txs : synced.checked.draft.txs = mined.checked.draft.txs := by
    have read := syncedDrafted.txs
    rw [sameBlock, syncedNode, fields, ← minedNode, drafted.txs] at read
    exact (Except.ok.inj read).symm
  have payouts : syncedPayout = payout := by
    have miner := drafted.miner
    rw [minedPolicy] at miner
    have read := syncedDrafted.miner
    rw [syncedPolicy, syncedNode, fields, ← minedNode, submittedMiner_synced miner] at read
    exact (congrArg Prod.snd (Except.ok.inj read)).symm
  have cbOuts : synced.checked.draft.cbOuts = mined.checked.draft.cbOuts := by
    have read := syncedDrafted.cbOuts
    rw [payouts, fields, drafted.cbOuts] at read
    exact (Except.ok.inj read).symm
  have cb : synced.checked.draft.cb = mined.checked.draft.cb := by
    have read := syncedDrafted.cb
    rw [cbOuts, fields, drafted.cb] at read
    exact (Except.ok.inj read).symm
  have prev : synced.checked.draft.prev = mined.checked.draft.prev := by
    have same := synced.prev_eq.trans (syncedNode ▸ minedNode ▸ mined.prev_eq.symm)
    exact same
  refine ⟨txs, ?_⟩
  obtain ⟨root, digest, _⟩ := checkWork_ok.mp mined.passes.work
  obtain ⟨syncedRoot, syncedDigest, _⟩ := checkWork_ok.mp synced.passes.work
  change synced.checked.digest = mined.checked.digest
  rw [digest, syncedDigest, root, syncedRoot, Draft.ids, Draft.ids, cb, txs, Draft.pihash,
    Draft.pihash,
    fields, prev]

/-- The names after a submission that connects a block. -/
theorem submitted_names {moment : Moment} {localPolicy : Bool} {node : Node} {params : Json}
    {accepted : Accepted host}
    (passed : acceptance host moment localPolicy node params = some accepted)
    (fresh : node.storage.blockIndex accepted.hash = none) :
    (rpcSubmitblock host moment localPolicy node params).1.names =
      confirmNames accepted.localPolicy accepted.names accepted.txs := by
  rw [rpcSubmitblock_of_some passed, fresh, (acceptance_of passed).policy_eq]
  exact connectBlock_names _ _ _ _ _

/-- **One name table.** At a node that a run reaches, a block that is not stored yet,
that is accepted as a mined and as a synced block, and whose registrations are settled,
leaves one name-to-address map: as a mined block, as a synced block, and when either
stored document is replayed. -/
theorem names_agree {wallets : Wallets} {calls : List Call} {log : List (Accepted host)}
    {node : Node} (run : (nodeMachine host).Runs (fun _ _ => True) (Node.empty wallets) calls log
      node)
    {moment later : Moment} {params : Json} {mined synced : Accepted host}
    (mines : acceptance host moment true node params = some mined)
    (syncs : acceptance host later false node params = some synced)
    (fresh : node.storage.blockIndex mined.hash = none)
    (settled : SettledNames node.names mined.txs) :
    (rpcSubmitblock host later false node params).1.names.registry =
        (rpcSubmitblock host moment true node params).1.names.registry ∧
      (node.names.absorbBlock mined.stored).1.registry =
        (rpcSubmitblock host moment true node params).1.names.registry ∧
      (node.names.absorbBlock synced.stored).1.registry =
        (rpcSubmitblock host moment true node params).1.names.registry := by
  obtain ⟨distinct, sound⟩ := names_distinct run
  obtain ⟨txs, hash⟩ := acceptances_agree mines syncs
  have minedNode := (acceptance_of mines).node_eq
  have syncedNode := (acceptance_of syncs).node_eq
  have served := mined.confirmed_names (minedNode.symm ▸ distinct) (minedNode.symm ▸ settled)
  have replayed := mined.absorbed_names (minedNode.symm ▸ distinct) (minedNode.symm ▸ sound)
    (minedNode.symm ▸ settled)
  have settledSynced : SettledNames synced.node.names synced.txs := by
    rw [txs, syncedNode]
    exact settled
  have syncedServed := synced.confirmed_names (syncedNode.symm ▸ distinct) settledSynced
  have syncedReplayed := synced.absorbed_names (syncedNode.symm ▸ distinct)
    (syncedNode.symm ▸ sound) settledSynced
  rw [minedNode] at served replayed
  rw [syncedNode, txs] at syncedServed syncedReplayed
  rw [submitted_names mines fresh, submitted_names syncs (hash.symm ▸ fresh), served, txs,
    syncedServed]
  exact ⟨rfl, replayed, syncedReplayed⟩

end Ways

/-! ## Blocks that register a name -/

/-- What is bound under an empty table after some registrations is one of them. -/
theorem mem_of_left {txs : List Tx} {name address : Text}
    (bound : (NameTable.registry []).left Tx.entry txs name = some address) :
    ∃ tx ∈ txs, tx.entry = (name, address) := by
  induction txs using List.reverseRecOn with
  | nil => cases bound
  | append_singleton before tx ih =>
      rw [Registry.left_snoc] at bound
      rcases Registry.enrol_false_cases ((NameTable.registry []).left Tx.entry before) tx.entry with
        same | ⟨_, _, same⟩
      · rw [same] at bound
        obtain ⟨other, member, entry⟩ := ih bound
        exact ⟨other, List.mem_append_left _ member, entry⟩
      · rw [same, Function.update_apply] at bound
        split at bound
        next named =>
          refine ⟨tx, List.mem_append_right _ (List.mem_singleton_self tx), ?_⟩
          rw [named, ← Option.some.inj bound]
        next =>
          obtain ⟨other, member, entry⟩ := ih bound
          exact ⟨other, List.mem_append_left _ member, entry⟩

/-- Registrations of different names for different addresses under an empty table are
settled. -/
theorem settledNames_distinct {names : NameTable} {txs : List Tx} (unnamed : names = [])
    (apart : ((registrations txs).map fun tx => tx.entry.1).Nodup)
    (owners : ((registrations txs).map fun tx => tx.entry.2).Nodup) : SettledNames names txs := by
  subst unnamed
  have kept : ∀ before tx after, registrations txs = before ++ tx :: after →
      ¬(NameTable.registry []).TurnedDown Tx.entry before tx := by
    intro before tx after split
    rw [split, List.map_append, List.map_cons, List.nodup_append] at apart owners
    have free : (NameTable.registry []).left Tx.entry before tx.entry.1 = none := by
      refine Option.eq_none_iff_forall_ne_some.mpr fun address bound => ?_
      obtain ⟨other, member, entry⟩ := mem_of_left bound
      exact apart.2.2 _ (List.mem_map.mpr ⟨other, member, congrArg Prod.fst entry⟩) _
        List.mem_cons_self rfl
    have nowhere : ¬((NameTable.registry []).left Tx.entry before).Elsewhere tx.entry := by
      rintro ⟨name, _, bound⟩
      obtain ⟨other, member, entry⟩ := mem_of_left bound
      exact owners.2.2 _ (List.mem_map.mpr ⟨other, member, congrArg Prod.snd entry⟩) _
        List.mem_cons_self rfl
    refine not_not.mpr ?_
    rw [Registry.left_snoc, Registry.enrol_free free nowhere]
    exact Function.update_self _ _ _
  exact ⟨⟨fun before tx after split turned => absurd turned (kept before tx after split),
    fun before tx after split turned => absurd turned (kept before tx after split)⟩,
    fun before tx after split turned => absurd turned (kept before tx after split)⟩

/-- A second block with two registrations is taken in one way as a mined and as a synced
one. -/
theorem names_agree_naming :
    ∃ (calls : List Call) (log : List (Accepted namingHost)) (node : Node)
      (mined synced : Accepted namingHost),
      (nodeMachine namingHost).Runs (fun _ _ => True) (Node.empty fun _ => none) calls log node ∧
      (registrations mined.txs).length = 2 ∧
      acceptance namingHost sampleMoment true node namingBlock.json = some mined ∧
      acceptance namingHost sampleMoment false node namingBlock.json = some synced ∧
      (rpcSubmitblock namingHost sampleMoment false node namingBlock.json).1.names.registry =
        (rpcSubmitblock namingHost sampleMoment true node namingBlock.json).1.names.registry ∧
      (node.names.absorbBlock mined.stored).1.registry =
        (rpcSubmitblock namingHost sampleMoment true node namingBlock.json).1.names.registry ∧
      (node.names.absorbBlock synced.stored).1.registry =
        (rpcSubmitblock namingHost sampleMoment true node namingBlock.json).1.names.registry := by
  have computed : (acceptance namingHost sampleMoment true (openedNode namingHost)
        namingBlock.json).any (fun mined => (registrations mined.txs).map Tx.entry ==
          [("alice".toList, sampleAddress), ("bob".toList, validatorAddress)] &&
          ((openedNode namingHost).storage.blockIndex mined.hash).isNone) = true ∧
      (acceptance namingHost sampleMoment false (openedNode namingHost)
        namingBlock.json).isSome = true ∧ (openedNode namingHost).names = [] := by
    rw [namingHost_opened]
    decide +kernel
  obtain ⟨minedShown, syncedShown, unnamed⟩ := computed
  obtain ⟨mined, mines, shown⟩ := Option.any_eq_true _ _ |>.mp minedShown
  obtain ⟨synced, syncs⟩ := Option.isSome_iff_exists.mp syncedShown
  rw [Bool.and_eq_true, beq_iff_eq, Option.isNone_iff_eq_none] at shown
  obtain ⟨entries, fresh⟩ := shown
  have settled : SettledNames (openedNode namingHost).names mined.txs := by
    refine settledNames_distinct unnamed ?_ ?_
    · change ((registrations mined.txs).map (Prod.fst ∘ Tx.entry)).Nodup
      rw [← List.map_map, entries]
      decide +kernel
    · change ((registrations mined.txs).map (Prod.snd ∘ Tx.entry)).Nodup
      rw [← List.map_map, entries]
      decide +kernel
  have two : (registrations mined.txs).length = 2 := by
    rw [← List.length_map Tx.entry, entries]
    rfl
  have run := openedNode_run namingHost (fun _ _ => True) trivial
  exact ⟨_, _, _, mined, synced, run, two, mines, syncs,
    names_agree run mines syncs fresh settled⟩

/-- The coinbase of a first block whose miner and validator register one name. -/
def partingTxid : Digest :=
  ⟨[0xb7, 0x7c, 0x20, 0x89, 0x78, 0x6f, 0x10, 0x6a, 0xe9, 0xd7, 0xb3, 0x0b, 0xa5, 0x25, 0x42, 0x8d,
    0x35, 0x34, 0x64, 0xf6, 0x41, 0x7f, 0x18, 0x3c, 0x08, 0xe6, 0xbe, 0x03, 0x40, 0xb1, 0x7f, 0xce],
    rfl⟩

def partingSignatures : Bytes × Bytes :=
  ([0xb4, 0x1b, 0x0c, 0x64, 0xeb, 0x27, 0xf6, 0x24, 0x9c, 0xc4, 0x75, 0xf8, 0x53, 0xa6, 0x0c, 0xf0,
    0x9b, 0xe5, 0x8d, 0xd6, 0x9c, 0x07, 0x10, 0xa8, 0x93, 0x1e, 0x2e, 0xfa, 0x9e, 0xb4, 0x61, 0x42,
    0x3c, 0x31, 0x1e, 0x71, 0x1f, 0x36, 0xf0, 0x5a, 0x86, 0x73, 0xf5, 0xdf, 0xd3, 0x6f, 0x55, 0x29,
    0x1a, 0xc2, 0xd2, 0xef, 0x61, 0x70, 0x20, 0x41, 0x92, 0x36, 0x49, 0xd4, 0x79, 0xf1, 0xcf, 0x0d],
   [0xe7, 0xb1, 0x2e, 0x0d, 0xef, 0x05, 0x38, 0xc8, 0x54, 0x92, 0x16, 0x09, 0x92, 0xc4, 0xc0, 0xa4,
    0x7a, 0x39, 0x58, 0x02, 0xf6, 0x97, 0xa9, 0x8c, 0x81, 0xe4, 0xb4, 0x74, 0x7b, 0x3b, 0x0c, 0xe5,
    0xf6, 0x34, 0x6d, 0xea, 0x08, 0x77, 0xe6, 0xc1, 0x2f, 0x03, 0xcc, 0x3b, 0x3d, 0xc8, 0x9c, 0x0d,
    0x55, 0xa6, 0x9b, 0x23, 0x6a, 0xcf, 0xa2, 0xa6, 0x19, 0x5b, 0xc9, 0x62, 0x6e, 0xa4, 0x03, 0x0b])

/-- The registrations of one name for two addresses, each by the owner. -/
def partingTxs (first second firstKey secondKey : Bytes) : List Json :=
  [registerJson "alice".toList sampleAddress (signedSpend partingTxid 0 first firstKey),
    registerJson "alice".toList validatorAddress (signedSpend partingTxid 1 second secondKey)]

/-- A first block with two registrations of one name. -/
def partingBlock : MinedBlock where
  height := 1
  prev := Digest.zero
  root := ⟨[0xab, 0x46, 0x3e, 0xf5, 0x46, 0x86, 0x6a, 0x75, 0x15, 0xb8, 0x2c, 0x2d, 0x0e, 0x29,
    0xc3, 0x9d, 0x6a, 0x4b, 0x9c, 0xc6, 0x58, 0xe2, 0xbe, 0x45, 0x97, 0xbf, 0x22, 0x78, 0x18,
    0x44, 0x17, 0x2f], rfl⟩
  stamp := 100
  difficulty := 4
  coinbase := sampleCoinbase 1
    [⟨"miner".toList, sampleAddress, 217⟩, ⟨"validator".toList, validatorAddress, 2⟩]
  txs := partingTxs partingSignatures.1 partingSignatures.2 samplePublicKey validatorKey
  work := sampleWork 23
    ⟨[0x03, 0x63, 0x60, 0xbe, 0x7c, 0x72, 0x44, 0x2b, 0x29, 0x0e, 0x97, 0x15, 0xa6,
    0xba, 0xc5, 0x56, 0x9a, 0x16, 0x60, 0xcd, 0x04, 0xdb, 0x32, 0xa1, 0xfd, 0xfe, 0xcd, 0xbf, 0x6d,
    0x65, 0x88, 0x60], rfl⟩

/-- A host that knows both signatures. -/
def partingHost : Host :=
  Host.ofTables
    (List.zipWith (fun signed tx => (signed.1, signed.2, tx.dump.bytes))
      [(samplePublicKey, partingSignatures.1), (validatorKey, partingSignatures.2)]
      (partingTxs [] [] [] [])) []

/-- The address of a name after an accepted submission to an empty node. -/
def addressAfter (host : Host) (localPolicy : Bool) (block : Json) (name : Text) : Option Text :=
  match rpcSubmitblock host sampleMoment localPolicy (Node.empty fun _ => none) block with
  | (next, .accepted _ _ _) => next.names.registry (foldName name)
  | (_, .refused _) => none

/-- A name has an address only after an acceptance. -/
theorem addressAfter_some {host : Host} {localPolicy : Bool} {block : Json} {name address : Text}
    (located : addressAfter host localPolicy block name = some address) :
    ∃ accepted, acceptance host sampleMoment localPolicy (Node.empty fun _ => none) block =
        some accepted ∧
      (rpcSubmitblock host sampleMoment localPolicy (Node.empty fun _ => none)
        block).1.names.registry
        (foldName name) = some address := by
  unfold addressAfter at located
  rcases outcome : rpcSubmitblock host sampleMoment localPolicy (Node.empty fun _ => none)
    block with
    ⟨next, verdict⟩
  rw [outcome] at located
  cases verdict with
  | accepted hash height duplicate =>
      obtain ⟨accepted, passed, _⟩ := rpcSubmitblock_accepted outcome
      exact ⟨accepted, passed, located⟩
  | refused refusal => cases located

/-- **Two name tables.** A block that registers one name twice is accepted both ways, and
leaves the name to the first address as a mined block, to the second as a synced one. -/
theorem names_part :
    ∃ (host : Host) (params : Json) (mined synced : Accepted host),
      acceptance host sampleMoment true (Node.empty fun _ => none) params = some mined ∧
      acceptance host sampleMoment false (Node.empty fun _ => none) params = some synced ∧
      (rpcSubmitblock host sampleMoment true (Node.empty fun _ => none) params).1.names.registry ≠
        (rpcSubmitblock host sampleMoment false (Node.empty fun _ => none)
          params).1.names.registry := by
  have computed : addressAfter partingHost true partingBlock.json "alice".toList =
        some sampleAddress ∧
      addressAfter partingHost false partingBlock.json "alice".toList = some validatorAddress := by
    decide +kernel
  obtain ⟨minedTo, syncedTo⟩ := computed
  obtain ⟨mined, mines, minedAddress⟩ := addressAfter_some minedTo
  obtain ⟨synced, syncs, syncedAddress⟩ := addressAfter_some syncedTo
  refine ⟨partingHost, partingBlock.json, mined, synced, mines, syncs, fun same => ?_⟩
  rw [same, syncedAddress] at minedAddress
  exact absurd (Option.some.inj minedAddress) (by decide +kernel)

end PiSecure
