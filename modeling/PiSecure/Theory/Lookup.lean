import PiSecure.Model.Queries
import PiSecure.Theory.Relay

/-! # Looking up names and coins

A query reads the names file again before it answers. Reading it a second time binds
nothing new, so all queries of a wallet and the call that follows them see one address for
each name. The coins that are listed are those of the address.
-/

namespace PiSecure

namespace NameTable

variable {table other : NameTable} {name address kind txid : Text}

/-- A record as it is bound. -/
def binding (rec : NameRec) : Text × Text := (rec.name, rec.address)

/-- The names of a table with their addresses. -/
def bindings (table : NameTable) : List (Text × Text) := List.map binding table

theorem findName_eq (table : NameTable) (text : Text) :
    (table.findName text).map binding =
      table.bindings.find? fun pair => foldName pair.1 == foldName text := by
  rw [findName, bindings, List.find?_map]
  rfl

/-- Tables with the same bindings find the same records, as far as they are bound. -/
theorem findName_alike (same : other.bindings = table.bindings) (text : Text) :
    (other.findName text).map binding = (table.findName text).map binding := by
  rw [findName_eq, findName_eq, same]

/-! ## Reading the file again -/

/-- A binding that could not be added: it is not valid, or its name or its address is bound. -/
def Tried (table : NameTable) (name address : Text) : Prop :=
  ¬(validShortname name = true ∧ isLongAddress address = true) ∨
    ∃ pair ∈ table.bindings, foldName pair.1 = foldName name ∨ pair.2 = address

theorem Tried.mono (tried : Tried table name address) (grown : table.bindings <+: other.bindings) :
    Tried other name address := by
  refine tried.imp_right ?_
  rintro ⟨pair, listed, bound⟩
  exact ⟨pair, grown.subset listed, bound⟩

theorem bindings_updateName (table : NameTable) (name : Text) {change : NameRec → NameRec}
    (kept : ∀ rec, (change rec).name = rec.name ∧ (change rec).address = rec.address) :
    (table.updateName name change).bindings = table.bindings := by
  induction table with
  | nil => rfl
  | cons first rest ih =>
      rw [updateName]
      split
      · obtain ⟨sameName, sameAddress⟩ := kept first
        rw [bindings, bindings, List.map_cons, List.map_cons, binding, binding, sameName,
          sameAddress]
      · exact congrArg ((first.name, first.address) :: ·) ih

theorem mem_bindings {rec : NameRec} (listed : rec ∈ table) :
    (rec.name, rec.address) ∈ table.bindings :=
  List.mem_map_of_mem (f := fun rec : NameRec => (rec.name, rec.address)) listed

/-- Without overwriting, a write adds a binding that was not tried. -/
theorem bindings_rememberOrKeep (table : NameTable) (name address kind txid : Text) :
    (Tried table name address ∧
        (table.rememberOrKeep name address kind txid false).bindings = table.bindings) ∨
      ¬Tried table name address ∧
        (table.rememberOrKeep name address kind txid false).bindings =
          table.bindings ++ [(name, address)] := by
  unfold rememberOrKeep remember
  by_cases valid : ¬validShortname name ∨ ¬isLongAddress address
  · rw [if_pos valid]
    exact .inl ⟨.inl fun both => valid.elim (· both.1) (· both.2), rfl⟩
  rw [if_neg valid]
  by_cases taken : (table.findAddress address).any fun rec => foldName rec.name != foldName name
  · rw [if_pos taken]
    obtain ⟨holder, holds⟩ : ∃ holder, table.findAddress address = some holder := by
      cases holds : table.findAddress address with
      | none =>
          rw [holds] at taken
          exact absurd taken Bool.false_ne_true
      | some holder => exact ⟨holder, rfl⟩
    have owned := List.find?_some (p := fun rec : NameRec => rec.address == address) holds
    exact .inl ⟨.inr ⟨_, mem_bindings (List.mem_of_find?_eq_some holds),
      .inr (beq_iff_eq.mp owned)⟩, rfl⟩
  rw [if_neg taken]
  cases found : table.findName name with
  | some existing =>
      have named := List.find?_some
        (p := fun rec : NameRec => foldName rec.name == foldName name) found
      have tried : Tried table name address :=
        .inr ⟨_, mem_bindings (List.mem_of_find?_eq_some found), .inl (beq_iff_eq.mp named)⟩
      dsimp only
      by_cases same : existing.address = address
      · rw [if_pos same]
        exact .inl ⟨tried, bindings_updateName table name fun _ => ⟨rfl, rfl⟩⟩
      · rw [if_neg same, if_pos Bool.false_ne_true]
        exact .inl ⟨tried, rfl⟩
  | none =>
      have unnamed : ∀ rec ∈ table, ¬(foldName rec.name == foldName name) = true :=
        List.find?_eq_none.mp found
      refine .inr ⟨?_, ?_⟩
      · rintro (invalid | ⟨pair, listed, bound⟩)
        · rw [not_or, not_not, not_not] at valid
          exact invalid valid
        · obtain ⟨rec, member, rfl⟩ := List.mem_map.mp listed
          rcases bound with named | owned
          · exact unnamed rec member (beq_iff_eq.mpr named)
          · obtain ⟨holder, holds⟩ : ∃ holder, table.findAddress address = some holder :=
              Option.isSome_iff_exists.mp
                (List.find?_isSome.mpr ⟨rec, member, beq_iff_eq.mpr owned⟩)
            have free := unnamed holder (List.mem_of_find?_eq_some holds)
            rw [holds] at taken
            exact taken (bne_iff_ne.mpr fun same => free (beq_iff_eq.mpr same))
      · rw [bindings, List.map_append]
        rfl

/-- A row that is read, whichever table it is read into. -/
theorem rememberOrKeep_again (table : NameTable) (name address kind txid : Text) :
    table.bindings <+: (table.rememberOrKeep name address kind txid false).bindings ∧
      ∀ {other : NameTable},
        (table.rememberOrKeep name address kind txid false).bindings <+: other.bindings →
          (other.rememberOrKeep name address kind txid false).bindings = other.bindings := by
  have step := bindings_rememberOrKeep table name address kind txid
  have grown : table.bindings <+: (table.rememberOrKeep name address kind txid false).bindings := by
    rcases step with ⟨_, same⟩ | ⟨_, added⟩
    · rw [same]
    · rw [added]
      exact List.prefix_append _ _
  refine ⟨grown, fun {other} more => ?_⟩
  have tried : Tried other name address := by
    rcases step with ⟨tried, _⟩ | ⟨_, added⟩
    · exact tried.mono (grown.trans more)
    · rw [added] at more
      have listed := List.mem_append_right table.bindings (List.mem_singleton_self (name, address))
      exact .inr ⟨(name, address), more.subset listed, .inl rfl⟩
  rcases bindings_rememberOrKeep other name address kind txid with ⟨_, same⟩ | ⟨untried, _⟩
  · exact same
  · exact absurd tried untried

/-- A reader that grows the table, and binds nothing when it reads again. Whether it throws
does not depend on the table. -/
structure Settling (read : NameTable → NameTable × Bool) : Prop where
  ends : ∀ table other, (read table).2 = (read other).2
  grows : ∀ table, table.bindings <+: (read table).1.bindings
  again : ∀ {table other}, (read table).1.bindings <+: other.bindings →
    (read other).1.bindings = other.bindings

theorem Settling.skip (ended : Bool) : Settling fun table => (table, ended) where
  ends _ _ := rfl
  grows _ := List.prefix_refl _
  again _ := rfl

/-- A reader, and another one after it when it does not throw. -/
def andThen (first second : NameTable → NameTable × Bool) (table : NameTable) : NameTable × Bool :=
  if (first table).2 then second (first table).1 else ((first table).1, false)

theorem Settling.andThen {first second : NameTable → NameTable × Bool} (settles : Settling first)
    (goesOn : Settling second) : Settling (andThen first second) where
  ends table other := by
    unfold NameTable.andThen
    rw [settles.ends table other]
    split
    · exact goesOn.ends _ _
    · rfl
  grows table := by
    unfold NameTable.andThen
    split
    · exact (settles.grows table).trans (goesOn.grows _)
    · exact settles.grows table
  again {table other} more := by
    unfold NameTable.andThen at more ⊢
    rw [settles.ends other table]
    split at more
    · next ended =>
        rw [if_pos ended]
        have same := settles.again ((goesOn.grows _).trans more)
        rw [goesOn.again (same.symm ▸ more), same]
    · next ended =>
        rw [if_neg ended]
        exact settles.again more

/-- One row, with whether it was read. -/
def absorbedRow (row : Json) (table : NameTable) : NameTable × Bool :=
  ((table.absorbRecord row false).getD table, (table.absorbRecord row false).isSome)

theorem settling_absorbedRow (row : Json) : Settling (absorbedRow row) := by
  unfold absorbedRow absorbRecord
  cases row.text? "name" with
  | none => exact .skip true
  | some name =>
      cases row.text? "address" with
      | none => exact .skip true
      | some address =>
          cases row.valueOr "txid" Json.asText? [] with
          | none => exact .skip false
          | some txid =>
              exact {
                ends := fun _ _ => rfl
                grows := fun table => (rememberOrKeep_again table name _ _ txid).1
                again := fun more => (rememberOrKeep_again _ name _ _ txid).2 more }

theorem absorbRows_cons (row : Json) (rest : List Json) (table : NameTable) :
    table.absorbRows false (row :: rest) =
      andThen (absorbedRow row) (fun next => next.absorbRows false rest) table := by
  rw [absorbRows, andThen, absorbedRow]
  cases table.absorbRecord row false <;> rfl

theorem settling_absorbRows (rows : List Json) :
    Settling fun table => table.absorbRows false rows := by
  induction rows with
  | nil => exact .skip true
  | cons row rest ih =>
      rw [funext (absorbRows_cons row rest)]
      exact (settling_absorbedRow row).andThen ih

theorem settling_absorbReserved (rows : List Json) :
    Settling fun table => table.absorbReserved rows := by
  induction rows with
  | nil => exact .skip true
  | cons row rest ih =>
      unfold absorbReserved
      generalize (if row.isNull then Json.object [] else row) = copy
      by_cases shaped : copy.isObject = true
      · have settles := (settling_absorbedRow
          (copy.set "kind" (.string "reserved_bind".toList))).andThen ih
        refine cast (congrArg Settling (funext fun table => ?_)) settles
        dsimp only
        rw [if_neg (not_not.mpr shaped), andThen, absorbedRow]
        cases table.absorbRecord (copy.set "kind" (.string "reserved_bind".toList)) false <;> rfl
      · refine cast (congrArg Settling (funext fun table => ?_)) (Settling.skip false)
        exact (if_pos shaped).symm

theorem loadFile_eq (doc : Json) (table : NameTable) :
    table.loadFile (some doc) =
      (andThen (fun table => table.absorbReserved ((doc.array? "reserved_bind").getD []))
        (fun next => next.absorbRows false ((doc.array? "names").getD [])) table).1 := by
  rw [loadFile, andThen]
  cases table.absorbReserved ((doc.array? "reserved_bind").getD []) with
  | mk next ended => cases ended <;> rfl

/-- Reading the names file a second time binds nothing. -/
theorem loadFile_again (table : NameTable) (file : Option Json) :
    ((table.loadFile file).loadFile file).bindings = (table.loadFile file).bindings := by
  cases file with
  | none => rfl
  | some doc =>
      have settles := (settling_absorbReserved ((doc.array? "reserved_bind").getD [])).andThen
        (settling_absorbRows ((doc.array? "names").getD []))
      rw [loadFile_eq, loadFile_eq]
      exact settles.again (List.prefix_refl _)

end NameTable

/-! ## Addresses that are no names -/

section Resolved

variable {names other : NameTable} {text address : Text}

theorem lookupPs1_eq (text : Text) : Node.lookupPs1 text = Wallet.normalizePs1 text := by
  unfold Node.lookupPs1 Wallet.normalizePs1 isLongAddress
  by_cases sized : text.size = 67
  · by_cases tagged : (lowerAscii text).take 3 = "ps1".toList
    · simp only [sized, tagged, size_lowerAscii, decide_true, Bool.true_and, true_and, not_true,
        ne_eq, if_false]
    · simp only [sized, tagged, size_lowerAscii, decide_true, decide_false, Bool.true_and,
        Bool.false_and, and_false, Bool.false_eq_true, not_true, not_false_eq_true, ne_eq, if_false,
        if_true]
  · simp only [sized, false_and, if_false, ne_eq, not_false_eq_true, if_true]

/-- Letters that become digits become the same letters in lower case. -/
theorem lowerAscii_of_lowerHex
    (digits : ∀ c ∈ lowerHex text, ('0' ≤ c ∧ c ≤ '9') ∨ ('a' ≤ c ∧ c ≤ 'f')) :
    lowerAscii text = lowerHex text := by
  refine List.map_congr_left fun c listed => ?_
  have digit := digits _ (List.mem_map_of_mem listed)
  by_cases capital : 'A' ≤ c ∧ c ≤ 'F'
  · have letter : 'A' ≤ c ∧ c ≤ 'Z' := ⟨capital.1, Nat.le_trans capital.2 (by decide)⟩
    rw [lowerHexChar, if_pos capital, lowerAsciiChar, if_pos letter]
  · rw [lowerHexChar, if_neg capital] at digit ⊢
    refine if_neg fun letter => ?_
    have low : 65 ≤ c.toNat := letter.1
    have high : c.toNat ≤ 90 := letter.2
    rcases digit with ⟨_, number⟩ | ⟨small, _⟩
    · have below : c.toNat ≤ 57 := number
      omega
    · have above : 97 ≤ c.toNat := small
      omega

/-- An address that is no name: it is paid as it stands, and its own coins are listed. -/
structure Resolved (names : NameTable) (address : Text) : Prop where
  unnamed : names.findName address = none
  shaped : isLongAddress address = true ∨ Wallet.normalizePs1 address = []

theorem Resolved.of_long (sound : names.Sound) (long : isLongAddress address = true) :
    Resolved names address := ⟨findName_long sound long, .inl long⟩

theorem Resolved.alike (resolved : Resolved names address)
    (same : other.bindings = names.bindings) : Resolved other address := by
  refine ⟨Option.map_eq_none_iff.mp (?_ : (other.findName address).map NameTable.binding = none),
    resolved.shaped⟩
  rw [NameTable.findName_alike same, resolved.unnamed]
  rfl

/-- The coins of a resolved address are asked for under that address. -/
theorem Resolved.unspentAddress (resolved : Resolved names address) :
    (names.unspentAddress address).1 = address := by
  unfold NameTable.unspentAddress
  rw [resolved.unnamed]
  dsimp only
  split
  next long =>
    obtain ⟨sized, tagged, folded⟩ := long
    rcases resolved.shaped with own | unfolded
    · obtain ⟨_, front, hexed⟩ := isLongAddress_parts own
      change lowerAscii (address.take 3) ++ lowerHex (address.drop 3) = address
      rw [tagged, hexed, ← front, List.take_append_drop]
    · have digits := folded
      simp only [isLongAddress, Bool.and_eq_true] at digits
      rw [tagged] at digits
      have lower : lowerAscii (address.drop 3) = lowerHex (address.drop 3) := by
        refine lowerAscii_of_lowerHex fun c listed => ?_
        have digit := List.all_eq_true.mp digits.2 c listed
        simpa only [Bool.or_eq_true, Bool.and_eq_true, decide_eq_true_eq] using digit
      have whole : lowerAscii address =
          lowerAscii (address.take 3) ++ lowerHex (address.drop 3) := by
        rw [← lower, lowerAscii, lowerAscii, lowerAscii, ← List.map_append, List.take_append_drop]
      rw [← lookupPs1_eq, Node.lookupPs1, whole, if_pos ⟨sized, folded⟩, tagged] at unfolded
      cases unfolded
  · rfl

end Resolved

/-! ## Queries -/

section Queries

variable {host : Host} {node : Node} {text address : Text}

theorem refreshed_iterate (node : Node) (reads : Nat) :
    ∃ names, Node.refreshed^[reads] node = { node with names := names } := by
  induction reads with
  | zero => exact ⟨node.names, rfl⟩
  | succ reads ih =>
      obtain ⟨names, same⟩ := ih
      rw [Function.iterate_succ_apply', same]
      exact ⟨_, rfl⟩

theorem sound_refreshed (sound : node.names.Sound) (reads : Nat) :
    (Node.refreshed^[reads] node).names.Sound := by
  induction reads with
  | zero => exact sound
  | succ reads ih =>
      rw [Function.iterate_succ_apply']
      exact (NameTable.written_loadFile _ _).sound ih

/-- However often the names file is read, its names are bound after the first time. -/
theorem bindings_refreshed (node : Node) (reads : Nat) :
    (Node.refreshed^[reads + 1] node).names.bindings = node.refreshed.names.bindings := by
  induction reads with
  | zero => rfl
  | succ reads ih =>
      rw [← ih, Function.iterate_succ_apply', Function.iterate_succ_apply']
      exact NameTable.loadFile_again _ _

/-- The answer of a name lookup, as the wallet takes it. -/
def lookedUp (host : Host) (node : Node) (text : Text) : Option Text :=
  Wallet.foundAddress (node.rpcNamelookup host (.ofMembers [("name", .string text)])).2

theorem foundAddress_nameHit (name address : Text) :
    Wallet.foundAddress (Node.nameHit name address) = some address := by
  rw [Wallet.foundAddress, Json.text?, Node.nameHit, Json.get?_ofMembers, Json.get?_ofMembers]
  rfl

theorem foundAddress_notFound : Wallet.foundAddress Node.notFound = none := rfl

/-- What the wallet takes for the address of a text is a resolved address. -/
theorem lookedUp_resolved (sound : node.names.Sound) (present : text ≠ [])
    (unfolded : Wallet.normalizePs1 text = []) :
    Resolved node.refreshed.names ((lookedUp host node text).getD text) := by
  have fresh : node.refreshed.names.Sound := sound_refreshed sound 1
  have asked : lookedUp host node text =
      Wallet.foundAddress (node.refreshed.nameAnswer text) := rfl
  have folded : (Node.lookupPs1 text).isEmpty = true := by
    rw [lookupPs1_eq, unfolded]
    rfl
  rw [asked, Node.nameAnswer, if_neg (by rwa [List.isEmpty_iff]), folded,
    if_neg (by decide)]
  cases found : node.refreshed.names.findName text with
  | some record =>
      dsimp only
      rw [foundAddress_nameHit]
      exact .of_long fresh (fresh.findName found).2
  | none =>
      have own : Resolved node.refreshed.names text := ⟨found, .inr unfolded⟩
      dsimp only
      split
      · rw [foundAddress_nameHit]
        exact own
      split
      · rw [foundAddress_nameHit]
        refine ⟨?_, .inr ?_⟩
        · rw [← found, NameTable.findName, NameTable.findName, Option.getD_some, foldName, foldName,
            lowerAscii_lowerAscii]
        · rw [Option.getD_some, foldName, ← lookupPs1_eq, Node.lookupPs1, size_lowerAscii,
            lowerAscii_lowerAscii]
          exact (lookupPs1_eq text).trans unfolded
      · rw [foundAddress_notFound]
        exact own

/-! ## Queries leave no trace -/

/-- The names that are shown for an address. -/
theorem names_alike {table other : NameTable} (same : other.bindings = table.bindings) :
    (List.filter (fun record : NameRec => record.address == address) other).map
        (fun record => Json.string record.name) =
      (List.filter (fun record : NameRec => record.address == address) table).map
        fun record => Json.string record.name := by
  have shown : ∀ table : NameTable,
      (List.filter (fun record : NameRec => record.address == address) table).map
          (fun record => Json.string record.name) =
        (table.bindings.filter fun pair => pair.2 == address).map
          fun pair => Json.string pair.1 := by
    intro table
    rw [NameTable.bindings, List.filter_map, List.map_map]
    rfl
  rw [shown, shown, same]

theorem findAddress_alike {table other : NameTable} (same : other.bindings = table.bindings)
    (address : Text) : (other.findAddress address).map NameRec.name =
      (table.findAddress address).map NameRec.name := by
  have found : ∀ table : NameTable, (table.findAddress address).map NameRec.name =
      (table.bindings.find? fun pair => pair.2 == address).map Prod.fst := by
    intro table
    rw [NameTable.findAddress, NameTable.bindings, List.find?_map, Option.map_map]
    rfl
  rw [found, found, same]

theorem unspentAddress_alike {table other : NameTable} (same : other.bindings = table.bindings)
    (query : Text) : other.unspentAddress query = table.unspentAddress query := by
  have pairs := NameTable.findName_alike same query
  unfold NameTable.unspentAddress
  simp only [findAddress_alike same]
  cases first : table.findName query with
  | none =>
      rw [first] at pairs
      rw [Option.map_eq_none_iff.mp pairs]
  | some record =>
      rw [first] at pairs
      obtain ⟨found, second, both⟩ := Option.map_eq_some_iff.mp pairs
      obtain ⟨name, address⟩ := Prod.mk.inj both
      rw [second]
      dsimp only
      rw [name, address]

theorem ps1Hit_alike {names : NameTable} (same : names.bindings = node.names.bindings)
    (ps1 : Text) : Node.ps1Hit { node with names := names } ps1 = node.ps1Hit ps1 := by
  unfold Node.ps1Hit
  dsimp only
  rw [names_alike same]
  rfl

theorem nameAnswer_alike {names : NameTable} (same : names.bindings = node.names.bindings)
    (name : Text) : Node.nameAnswer { node with names := names } name = node.nameAnswer name := by
  have pairs := NameTable.findName_alike same name
  unfold Node.nameAnswer
  rw [ps1Hit_alike same]
  cases first : node.names.findName name with
  | none =>
      rw [first] at pairs
      dsimp only
      rw [Option.map_eq_none_iff.mp pairs]
      rfl
  | some record =>
      rw [first] at pairs
      obtain ⟨found, second, both⟩ := Option.map_eq_some_iff.mp pairs
      obtain ⟨shown, address⟩ := Prod.mk.inj both
      dsimp only
      rw [second]
      dsimp only
      rw [shown, address]

/-- The names after some queries and another one are bound as after that one alone. -/
theorem refreshed_alike (node : Node) (reads : Nat) :
    ∃ names, (Node.refreshed^[reads] node).refreshed = { node.refreshed with names := names } ∧
      names.bindings = node.refreshed.names.bindings := by
  obtain ⟨names, same⟩ := refreshed_iterate node (reads + 1)
  have bindings := bindings_refreshed node reads
  rw [same] at bindings
  rw [← Function.iterate_succ_apply' Node.refreshed]
  exact ⟨names, same, bindings⟩

/-- A query reads the names file again, or does nothing to the node. -/
theorem ask_node (host : Host) (node : Node) (query : Query) :
    (node.ask host query).1 = node ∨ (node.ask host query).1 = node.refreshed := by
  cases query with
  | blockchainInfo => exact .inl rfl
  | listUnspent params => exact .inr rfl
  | nameLookup params =>
      refine .inr ?_
      unfold Node.ask Node.rpcNamelookup
      dsimp only
      split <;> rfl
  | mempool moment => exact .inl rfl

/-- After some queries the names file was read some number of times. -/
theorem asked_eq (host : Host) (node : Node) (queries : List Query) :
    ∃ reads, node.asked host queries = Node.refreshed^[reads] node := by
  induction queries generalizing node with
  | nil => exact ⟨0, rfl⟩
  | cons query rest ih =>
      obtain ⟨reads, later⟩ := ih (node.ask host query).1
      rw [Node.asked, List.foldl_cons]
      rcases ask_node host node query with same | again
      · rw [same] at later ⊢
        exact ⟨reads, later⟩
      · rw [again] at later ⊢
        exact ⟨reads + 1, later⟩

/-- **Queries.** Looking a name up and listing coins write to the table of names, but no
queries change what another one answers. -/
theorem queries_agree (host : Host) (node : Node) (queries : List Query) (query : Query) :
    ((node.asked host queries).ask host query).2 = (node.ask host query).2 := by
  obtain ⟨reads, asked⟩ := asked_eq host node queries
  obtain ⟨names, once⟩ := refreshed_iterate node reads
  obtain ⟨again, reread, same⟩ := refreshed_alike node reads
  rw [asked]
  cases query with
  | blockchainInfo =>
      rw [once]
      rfl
  | listUnspent params =>
      unfold Node.ask Node.rpcListunspent
      dsimp only
      rw [reread]
      dsimp only
      rw [unspentAddress_alike same]
  | nameLookup params =>
      unfold Node.ask Node.rpcNamelookup
      dsimp only
      rw [reread]
      split
      · exact nameAnswer_alike same _
      · dsimp only
        rw [ps1Hit_alike same]
      · rfl
  | mempool moment =>
      rw [once]
      rfl

end Queries

/-! ## Coins -/

section Coins

theorem hexDigit_ne_colon (nibble : Nat) : hexDigit nibble ≠ ':' := by
  by_cases below : nibble < 16
  · revert nibble
    decide
  · have past : "0123456789abcdef".toList.length ≤ nibble := Nat.not_lt.mp below
    rw [hexDigit, List.getD_eq_getElem?_getD, List.getElem?_eq_none past]
    decide

/-- The key of a coin is read as its outpoint. -/
theorem readUtxoKey_utxoKey (point : Outpoint) : readUtxoKey (utxoKey point) = some point := by
  have hexed : ∀ c ∈ toHex point.1, (decide (c ≠ ':')) = true := by
    intro c listed
    obtain ⟨byte, _, digit⟩ := List.mem_flatMap.mp listed
    rw [decide_eq_true_eq]
    rcases List.mem_pair.mp digit with rfl | rfl
    · exact hexDigit_ne_colon _
    · exact hexDigit_ne_colon _
  have front : (utxoKey point).takeWhile (· ≠ ':') = toHex point.1 := by
    rw [utxoKey, List.takeWhile_append_of_pos hexed, List.takeWhile_cons_of_neg (by decide),
      List.append_nil]
  have back : (utxoKey point).dropWhile (· ≠ ':') = ':' :: Json.decimal point.2.toNat := by
    rw [utxoKey, List.dropWhile_append_of_pos hexed, List.dropWhile_cons_of_neg (by decide)]
  rw [readUtxoKey, front, back, fromHex_toHex, List.drop_succ_cons, List.drop_zero, Json.decimal,
    Nat.ofDigitChars_ten_toDigits, UInt32.ofNat_toNat]
  rfl

variable {storage : Storage} {address : Text} {entry : UtxoEntry}

/-- The coins of an address are listed, and no other coin. -/
theorem mem_listUtxos : entry ∈ storage.listUtxos address ↔
    storage.utxo.lookup (entry.txid, entry.vout) =
        some ⟨entry.units, entry.address, entry.height⟩ ∧
      (address = [] ∨ entry.address = address) := by
  unfold Storage.listUtxos
  rw [List.mem_filterMap]
  constructor
  · rintro ⟨key, _, read⟩
    obtain ⟨point, _, read⟩ := Option.bind_eq_some_iff.mp read
    obtain ⟨record, found, read⟩ := Option.bind_eq_some_iff.mp read
    split at read
    · cases read
    next kept =>
      cases read
      refine ⟨found, ?_⟩
      by_contra others
      rw [not_or] at others
      refine kept ?_
      rw [Bool.and_eq_true, Bool.not_eq_true', List.isEmpty_eq_false_iff, decide_eq_true_eq]
      exact others
  · rintro ⟨found, owned⟩
    have held : (entry.txid, entry.vout) ∈ storage.utxo.keys :=
      Finmap.mem_keys.mpr (Finmap.mem_of_lookup_eq_some found)
    refine ⟨utxoKey (entry.txid, entry.vout), ?_, ?_⟩
    · exact (Finset.mem_sort _).mpr (Finset.mem_image_of_mem utxoKey held)
    · rw [readUtxoKey_utxoKey]
      refine Option.bind_eq_some_iff.mpr ⟨_, rfl, Option.bind_eq_some_iff.mpr ⟨_, found, ?_⟩⟩
      refine if_neg fun other => ?_
      rw [Bool.and_eq_true, Bool.not_eq_true', List.isEmpty_eq_false_iff,
        decide_eq_true_eq] at other
      exact owned.elim other.1 other.2

/-- Every row that is collected is a listed coin with its pi. -/
theorem mem_listingOf {entries : List UtxoEntry} {row : UtxoEntry × UInt64}
    (listed : row ∈ (listingOf entries).rows) :
    row.1 ∈ entries ∧ storedToPi row.1.units row.1.height = some row.2 := by
  have collected : ∀ (entries : List UtxoEntry) (start : Listing),
      row ∈ (entries.foldl Listing.add start).rows → row ∈ start.rows ∨
        row.1 ∈ entries ∧ storedToPi row.1.units row.1.height = some row.2 := by
    intro entries
    induction entries with
    | nil => exact fun _ listed => .inl listed
    | cons entry rest ih =>
        intro start listed
        rcases ih (start.add entry) listed with before | ⟨later, worth⟩
        · unfold Listing.add at before
          cases converted : storedToPi entry.units entry.height with
          | none =>
              rw [converted] at before
              exact .inl before
          | some pi =>
              rw [converted] at before
              dsimp only at before
              split at before
              · exact .inl before
              · rcases List.mem_append.mp before with older | isNew
                · exact .inl older
                · rw [List.mem_singleton.mp isNew]
                  exact .inr ⟨List.mem_cons_self, converted⟩
        · exact .inr ⟨List.mem_cons_of_mem _ later, worth⟩
  exact (collected entries _ listed).resolve_left fun impossible => by cases impossible

end Coins

namespace Wallet

/-- The wallet reads the row that the node shows. -/
theorem readRow_unspentRow (row : UtxoEntry × UInt64) :
    readRow (unspentRow row) = ⟨some row.1.txid, row.1.vout, row.1.units, some row.2⟩ := by
  have members : (unspentRow row).get? "txid" = some (.string (toHex row.1.txid)) ∧
      (unspentRow row).get? "vout" = some (.unsigned row.1.vout.toUInt64) ∧
      (unspentRow row).get? "units" = some (.unsigned row.1.units) ∧
      (unspentRow row).get? "pi" = some (.unsigned row.2) := by
    simp only [unspentRow, Json.get?_ofMembers]
    exact ⟨rfl, rfl, rfl, rfl⟩
  obtain ⟨txid, vout, units, pi⟩ := members
  simp only [readRow, Json.text?, Json.unsigned?, txid, vout, units, pi, Option.bind_some,
    Json.asText?, Json.asUnsigned?, fromHex_toHex, UInt32.toUInt32_toUInt64, Option.getD_some]

theorem mem_listedCoins {money : Money} {rows : List Row} {coins : List Coin}
    (listed : listedCoins money rows = .ok coins) {coin : Coin} (member : coin ∈ coins) :
    ∃ row ∈ rows, coinFromRow row money = .ok coin := by
  induction rows generalizing coins with
  | nil =>
      cases listed
      cases member
  | cons row rest ih =>
      rw [listedCoins] at listed
      cases made : coinFromRow row money with
      | ok first =>
          rw [made] at listed
          dsimp only at listed
          cases later : listedCoins money rest with
          | error reason =>
              rw [later] at listed
              cases listed
          | ok others =>
              rw [later] at listed
              cases listed
              rcases List.mem_cons.mp member with rfl | older
              · exact ⟨row, List.mem_cons_self, made⟩
              · obtain ⟨source, among, same⟩ := ih later older
                exact ⟨source, List.mem_cons_of_mem _ among, same⟩
      | error reason =>
          rw [made] at listed
          dsimp only at listed
          split at listed
          · obtain ⟨source, among, same⟩ := ih listed member
            exact ⟨source, List.mem_cons_of_mem _ among, same⟩
          · cases listed

/-- The rows that the wallet reads in the answer for a query. -/
theorem unspentRows_rpcListunspent (host : Host) (node : Node) (address : Text) :
    unspentRows (node.rpcListunspent host (.ofMembers [("address", .string address)])).2 =
      (listingOf (node.storage.listUtxos (node.refreshed.names.unspentAddress address).1)).rows.map
        fun row => readRow (unspentRow row) := by
  rw [unspentRows, items, Json.array?, Node.rpcListunspent]
  dsimp only
  rw [Json.get?_ofMembers]
  have asked : unspentQuery host (.ofMembers [("address", .string address)]) = address := rfl
  have storage : node.refreshed.storage = node.storage := rfl
  rw [asked, storage, List.reverse_append, List.reverse_append, Json.lookup_append,
    Json.lookup_append]
  generalize node.refreshed.names.unspentAddress address = found
  have unnamed : Json.lookup "utxos" (if found.2.isEmpty then []
      else [("name", .string found.2)]).reverse = none := by
    split <;> rfl
  have unasked : Json.lookup "utxos" (if address.isEmpty ∨ address = found.1 then []
      else [("query", .string address)]).reverse = none := by
    split <;> rfl
  rw [unnamed, unasked]
  change (List.map unspentRow _).map readRow = _
  rw [List.map_map]
  rfl

end Wallet

end PiSecure
