import PiSecure.Model.Submit

/-! # Records of the name table

Every record binds a valid shortname to a long address: all writes go through
`remember_name`, which checks both. What one such write keeps, every operation on
the table keeps.
-/

namespace PiSecure

/-- A record that `remember_name` could have made. -/
def NameRec.Sound (rec : NameRec) : Prop :=
  validShortname rec.name = true ∧ isLongAddress rec.address = true

namespace NameTable

/-- A table of sound records. -/
def Sound (table : NameTable) : Prop := ∀ rec ∈ table, rec.Sound

theorem sound_empty : Sound [] := fun _ impossible => nomatch impossible

theorem Sound.updateName {table : NameTable} (sound : table.Sound) (name : Text)
    {change : NameRec → NameRec} (kept : ∀ rec, rec.Sound → (change rec).Sound) :
    (table.updateName name change).Sound := by
  induction table with
  | nil => exact sound_empty
  | cons first rest ih =>
      rw [Sound, List.forall_mem_cons] at sound
      rw [NameTable.updateName]
      split
      · exact List.forall_mem_cons.mpr ⟨kept first sound.1, sound.2⟩
      · exact List.forall_mem_cons.mpr ⟨sound.1, ih sound.2⟩

/-- Remembering a name keeps the table sound. -/
theorem Sound.remember {table next : NameTable} (sound : table.Sound)
    {name address kind txid : Text}
    {overwrite : Bool} (remembered : table.remember name address kind txid overwrite = .ok next) :
    next.Sound := by
  unfold NameTable.remember at remembered
  split at remembered
  · cases remembered
  next valid =>
    rw [not_or, not_not, not_not] at valid
    split at remembered
    · cases remembered
    · split at remembered
      · split at remembered
        · cases remembered
          exact sound.updateName name fun rec isSound => isSound
        · split at remembered
          · cases remembered
          · cases remembered
            exact sound.updateName name fun _ _ => valid
      · cases remembered
        intro rec member
        rcases List.mem_append.mp member with older | isNew
        · exact sound rec older
        · rw [List.mem_singleton.mp isNew]
          exact valid

/-! ## Writes -/

/-- One table becomes another by remembering names. -/
inductive Written (table : NameTable) : NameTable → Prop where
  | refl : Written table table
  | remember {middle next : NameTable} {name address kind txid : Text} {overwrite : Bool} :
      Written table middle → middle.remember name address kind txid overwrite = .ok next →
      Written table next

/-- What every write keeps survives all of them. -/
theorem Written.keeps {Inv : NameTable → Prop}
    (kept : ∀ {table next name address kind txid overwrite}, Inv table →
      NameTable.remember table name address kind txid overwrite = .ok next → Inv next)
    {table next : NameTable} (written : Written table next) (holds : Inv table) : Inv next := by
  induction written with
  | refl => exact holds
  | remember _ remembered ih => exact kept ih remembered

theorem Written.sound {table next : NameTable} (written : Written table next)
    (sound : table.Sound) : next.Sound :=
  written.keeps (fun isSound remembered => isSound.remember remembered) sound

theorem Written.trans {table middle next : NameTable} (first : Written table middle)
    (second : Written middle next) : Written table next := by
  induction second with
  | refl => exact first
  | remember _ remembered ih => exact ih.remember remembered

variable (table : NameTable)

theorem written_rememberOrKeep (name address kind txid : Text) (overwrite : Bool) :
    Written table (table.rememberOrKeep name address kind txid overwrite) := by
  unfold NameTable.rememberOrKeep
  split
  next next remembered => exact Written.refl.remember remembered
  · exact .refl

theorem written_absorbRecord {table next : NameTable} {row : Json} {chain : Bool}
    (absorbed : table.absorbRecord row chain = some next) : Written table next := by
  unfold NameTable.absorbRecord at absorbed
  split at absorbed
  · dsimp only at absorbed
    split at absorbed
    · cases absorbed
    · cases absorbed
      exact written_rememberOrKeep _ _ _ _ _ _
  · cases absorbed
    exact .refl

theorem written_absorbRows (chain : Bool) (rows : List Json) :
    Written table (table.absorbRows chain rows).1 := by
  induction rows generalizing table with
  | nil => exact .refl
  | cons row rest ih =>
      rw [NameTable.absorbRows]
      split
      · exact .refl
      next next absorbed => exact (written_absorbRecord absorbed).trans (ih next)

theorem written_absorbReserved (rows : List Json) :
    Written table (table.absorbReserved rows).1 := by
  induction rows generalizing table with
  | nil => exact .refl
  | cons row rest ih =>
      rw [NameTable.absorbReserved]
      generalize (if row.isNull then Json.object [] else row) = copy
      split
      · exact .refl
      · split
        · exact .refl
        next next absorbed => exact (written_absorbRecord absorbed).trans (ih next)

theorem written_loadFile (file : Option Json) : Written table (table.loadFile file) := by
  unfold NameTable.loadFile
  split
  · exact .refl
  next doc =>
    have reserved := written_absorbReserved table ((doc.array? "reserved_bind").getD [])
    split
    next next ended =>
      rw [ended] at reserved
      exact reserved.trans (written_absorbRows next false _)
    next next ended =>
      rw [ended] at reserved
      exact reserved

theorem written_absorbRegisters (rows : List Json) :
    Written table (table.absorbRegisters rows).1 := by
  induction rows generalizing table with
  | nil => exact .refl
  | cons row rest ih =>
      rw [NameTable.absorbRegisters]
      split
      · exact ih table
      · split
        · exact .refl
        · split
          · exact ih table
          · split
            · exact .refl
            next next absorbed => exact (written_absorbRecord absorbed).trans (ih next)

theorem written_absorbBlock (block : Json) : Written table (table.absorbBlock block).1 := by
  unfold NameTable.absorbBlock
  have registers := written_absorbRegisters table ((block.array? "txs").getD [])
  split
  next next ended =>
    rw [ended] at registers
    exact registers.trans (written_absorbRows next true _)
  next next ended =>
    rw [ended] at registers
    exact registers

theorem written_grantMatches (file : Option Json) (name address : Text) :
    Written table (table.grantMatches file name address).1 := by
  unfold NameTable.grantMatches
  split
  · exact .refl
  · split
    · exact written_rememberOrKeep _ _ _ _ _ _
    · exact .refl

variable {table}

/-- A name that is found belongs to a sound record. -/
theorem Sound.findName {table : NameTable} (sound : table.Sound) {name : Text} {rec : NameRec}
    (found : table.findName name = some rec) : rec.Sound :=
  sound rec (List.mem_of_find?_eq_some found)

end NameTable

/-! ## Bindings -/

section Bindings

/-- A name, as it is spelt, is bound to an address. -/
def Binds (table : NameTable) (name address : Text) : Prop :=
  ∃ rec ∈ table, rec.name = name ∧ rec.address = address

/-- The names file grants a name to an address. -/
def Granted (file : Option Json) (name address : Text) : Prop :=
  ∃ rows, (file.bind fun doc => doc.array? "reserved_bind") = some rows ∧
    rows.any (NameTable.grants name address) = true

variable {table next : NameTable} {name address owned place kind txid : Text}

/-- Changing other fields of a record binds nothing. -/
theorem Binds.of_updateName {change : NameRec → NameRec}
    (keeps : ∀ rec, (change rec).name = rec.name ∧ (change rec).address = rec.address)
    (binds : Binds (table.updateName owned change) name address) : Binds table name address := by
  induction table with
  | nil => exact binds
  | cons first rest ih =>
      obtain ⟨rec, member, named, located⟩ := binds
      rw [NameTable.updateName] at member
      split at member
      · rcases List.mem_cons.mp member with rfl | later
        · exact ⟨first, List.mem_cons_self, (keeps first).1.symm.trans named,
            (keeps first).2.symm.trans located⟩
        · exact ⟨rec, List.mem_cons_of_mem _ later, named, located⟩
      · rcases List.mem_cons.mp member with rfl | later
        · exact ⟨rec, List.mem_cons_self, named, located⟩
        · obtain ⟨old, listed, same⟩ := ih ⟨rec, later, named, located⟩
          exact ⟨old, List.mem_cons_of_mem _ listed, same⟩

/-- Without overwriting, remembering binds at most the new name, when it was free. -/
theorem Binds.of_remember (remembered : table.remember owned place kind txid false = .ok next)
    (binds : Binds next name address) : Binds table name address ∨
      (table.findName owned = none ∧ name = owned ∧ address = place) := by
  unfold NameTable.remember at remembered
  split at remembered
  · cases remembered
  · split at remembered
    · cases remembered
    · split at remembered
      · split at remembered
        · cases remembered
          refine .inl (Binds.of_updateName ?_ binds)
          exact fun _ => ⟨rfl, rfl⟩
        · cases remembered
      next free =>
        cases remembered
        obtain ⟨rec, member, named, located⟩ := binds
        rcases List.mem_append.mp member with older | isNew
        · exact .inl ⟨rec, older, named, located⟩
        · rw [List.mem_singleton.mp isNew] at named located
          exact .inr ⟨free, named.symm, located.symm⟩

theorem Binds.of_rememberOrKeep
    (binds : Binds (table.rememberOrKeep owned place kind txid false) name address) :
    Binds table name address ∨ (name = owned ∧ address = place) := by
  unfold NameTable.rememberOrKeep at binds
  split at binds
  next next remembered => exact (binds.of_remember remembered).imp_right fun fresh => fresh.2
  · exact .inl binds

/-- Matching a grant binds at most the granted name. -/
theorem Binds.of_grantMatches {file : Option Json}
    (binds : Binds (table.grantMatches file owned place).1 name address) :
    Binds table name address ∨ (Granted file owned place ∧ name = owned ∧ address = place) := by
  unfold NameTable.grantMatches at binds
  split at binds
  · exact .inl binds
  next rows listed =>
    split at binds
    next matching =>
      exact binds.of_rememberOrKeep.imp_right fun fresh => ⟨⟨rows, listed, matching⟩, fresh⟩
    · exact .inl binds

theorem granted_of_grantMatches {file : Option Json}
    (matched : table.grantMatches file owned place = (next, true)) : Granted file owned place := by
  unfold NameTable.grantMatches at matched
  split at matched
  · cases matched
  next rows listed =>
    split at matched
    next matching => exact ⟨rows, listed, matching⟩
    · cases matched

end Bindings

/-! ## The checks of a block -/

section Checks

open NameTable

variable {host : Host} {node : Node} {localPolicy : Bool}

theorem admitRegister_written (host : Host) (localPolicy : Bool) (namesFile : Option Json)
    (utxo : UtxoSet) (tx : Tx) (prior : List Tx) (names : NameTable) :
    Written names (admitRegister host namesFile utxo tx localPolicy prior names).1 := by
  unfold admitRegister
  split
  · exact .refl
  · split
    · exact .refl
    · split
      · exact .refl
      · split
        · exact .refl
        · split
          · exact .refl
          · split
            · have granted := written_grantMatches names namesFile tx.name tx.regAddress
              split
              next next ended =>
                rw [ended] at granted
                exact granted
              next next ended =>
                rw [ended] at granted
                exact granted
            · exact .refl

theorem checkTx_written (host : Host) (node : Node) (localPolicy : Bool) (height : Nat)
    (prior : List Tx) (staged : FlagBook) (tx : Tx) (names : NameTable) :
    Written names (checkTx host node localPolicy height prior staged names tx).1 := by
  unfold checkTx
  dsimp only
  split
  · exact .refl
  · split
    · exact .refl
    · have admitted := admitRegister_written host localPolicy node.namesFile node.storage.utxo tx
        prior
        names
      split
      next next reason ended =>
        rw [ended] at admitted
        exact admitted
      next next ended =>
        rw [ended] at admitted
        split <;> exact admitted

theorem checkTxs_written (host : Host) (node : Node) (localPolicy : Bool) (height : Nat)
    (txs prior : List Tx) (staged : FlagBook) (names : NameTable) :
    Written names (checkTxs host node localPolicy height txs prior staged names).1 := by
  induction txs generalizing prior staged names with
  | nil => exact .refl
  | cons tx rest ih =>
      have checked := checkTx_written host node localPolicy height prior staged tx names
      rw [checkTxs]
      split
      next next reason ended =>
        rw [ended] at checked
        exact checked
      next next flags ended =>
        rw [ended] at checked
        exact checked.trans (ih _ _ next)

/-- Checking a block remembers names at most, whatever the outcome. -/
theorem checkBlock_written (host : Host) (localPolicy : Bool) (moment : Moment) (node : Node)
    (block : Json) :
    Written node.names (checkBlock host moment localPolicy node block).1 := by
  unfold checkBlock
  split
  · exact .refl
  next draft _ =>
    have looped := checkTxs_written host node localPolicy draft.fields.height draft.txs [draft.cb]
      node.flags node.names
    split
    next names reason ended =>
      rw [ended] at looped
      exact looped
    next names flags ended =>
      rw [ended] at looped
      split
      · exact looped
      · dsimp only
        split <;> exact looped

end Checks

end PiSecure
