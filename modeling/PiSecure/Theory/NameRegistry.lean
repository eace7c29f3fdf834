import PiSecure.General.Registry
import PiSecure.Theory.Stability

/-! # The name table as a registry

A table that remembered names has every name and every address once, and its
name-to-address map is a registry: `remember_name` enrols an entry. This holds of
the table of every node that a run reaches.
-/

namespace PiSecure

namespace NameTable

/-- A table with every name and every address once. -/
structure Distinct (table : NameTable) : Prop where
  names : (table.map fun rec => foldName rec.name).Nodup
  addresses : (table.map NameRec.address).Nodup

/-- The name-to-address map of a table; names count in lower case. -/
def registry (table : NameTable) : Registry Text Text := fun key =>
  (List.find? (fun rec => foldName rec.name == key) table).map NameRec.address

theorem distinct_empty : Distinct [] := ⟨List.nodup_nil, List.nodup_nil⟩

section Lookup

variable {table : NameTable} {name address kind txid : Text}

theorem registry_foldName (table : NameTable) (name : Text) :
    table.registry (foldName name) = (table.findName name).map NameRec.address := rfl

/-- Keys that differ find every item. -/
private theorem find?_of_nodup {Item Key : Type} [BEq Key] [LawfulBEq Key] {key : Item → Key}
    {items : List Item} (nodup : (items.map key).Nodup) {item : Item} (listed : item ∈ items) :
    items.find? (fun other => key other == key item) = some item := by
  induction items with
  | nil => cases listed
  | cons first rest ih =>
      rw [List.map_cons, List.nodup_cons] at nodup
      rcases List.mem_cons.mp listed with rfl | later
      · rw [List.find?_cons, beq_self_eq_true]
      · have other : (key first == key item) = false := by
          rw [beq_eq_false_iff_ne]
          intro same
          exact nodup.1 (same ▸ List.mem_map_of_mem later)
        rw [List.find?_cons, other]
        exact ih nodup.2 later

/-- The map of a table in terms of its records. -/
theorem Distinct.registry_iff (distinct : table.Distinct) {key : Text} :
    table.registry key = some address ↔
      ∃ rec ∈ table, foldName rec.name = key ∧ rec.address = address := by
  constructor
  · intro bound
    obtain ⟨rec, found, located⟩ := Option.map_eq_some_iff.mp bound
    have matched := List.find?_some found
    exact ⟨rec, List.mem_of_find?_eq_some found, eq_of_beq matched, located⟩
  · rintro ⟨rec, listed, rfl, rfl⟩
    exact congrArg (Option.map NameRec.address) (find?_of_nodup distinct.names listed)

/-- Every address has at most one name. -/
theorem Distinct.oneName (distinct : table.Distinct) : table.registry.OneName := by
  intro first second address boundFirst boundSecond
  obtain ⟨one, oneIn, rfl, located⟩ := distinct.registry_iff.mp boundFirst
  obtain ⟨other, otherIn, rfl, rfl⟩ := distinct.registry_iff.mp boundSecond
  rw [List.inj_on_of_nodup_map distinct.addresses oneIn otherIn located]

theorem find?_address_none (absent : table.findAddress address = none) :
    address ∉ table.map NameRec.address := by
  intro listed
  obtain ⟨rec, member, located⟩ := List.mem_map.mp listed
  exact List.find?_eq_none.mp absent rec member (beq_iff_eq.mpr located)

/-- An address is taken when its record has another name. -/
theorem Distinct.elsewhere_iff (distinct : table.Distinct) :
    table.registry.Elsewhere (foldName name, address) ↔
      ((table.findAddress address).any fun rec => foldName rec.name != foldName name) = true := by
  rw [Option.any_eq_true]
  constructor
  · rintro ⟨other, different, bound⟩
    obtain ⟨rec, listed, rfl, located⟩ := distinct.registry_iff.mp bound
    refine ⟨rec, ?_, bne_iff_ne.mpr different⟩
    have found := find?_of_nodup distinct.addresses listed
    rw [located] at found
    exact found
  · rintro ⟨rec, found, different⟩
    refine ⟨foldName rec.name, bne_iff_ne.mp different, distinct.registry_iff.mpr
      ⟨rec, List.mem_of_find?_eq_some found, rfl, ?_⟩⟩
    have matched := List.find?_some found
    exact eq_of_beq matched

end Lookup

/-! ## Changing a record -/

section Change

variable {table : NameTable} {name address kind txid : Text}

theorem map_foldName_updateName {change : NameRec → NameRec}
    (keeps : ∀ rec, foldName rec.name = foldName name → foldName (change rec).name =
      foldName name) :
    (table.updateName name change).map (fun rec => foldName rec.name) =
      table.map fun rec => foldName rec.name := by
  induction table with
  | nil => rfl
  | cons first rest ih =>
      rw [updateName]
      split
      next same => rw [List.map_cons, List.map_cons, keeps first same, same]
      · rw [List.map_cons, List.map_cons, ih]

theorem map_address_updateName {change : NameRec → NameRec}
    (keeps : ∀ rec, (change rec).address = rec.address) :
    (table.updateName name change).map NameRec.address = table.map NameRec.address := by
  induction table with
  | nil => rfl
  | cons first rest ih =>
      rw [updateName]
      split
      · rw [List.map_cons, List.map_cons, keeps first]
      · rw [List.map_cons, List.map_cons, ih]

theorem nodup_address_updateName (nodup : (table.map NameRec.address).Nodup)
    (fresh : address ∉ table.map NameRec.address) {change : NameRec → NameRec}
    (moves : ∀ rec, (change rec).address = address) :
    ((table.updateName name change).map NameRec.address).Nodup := by
  have member : ∀ {rest : NameTable} {place : Text},
      place ∈ (updateName rest name change).map NameRec.address →
      place = address ∨ place ∈ rest.map NameRec.address := by
    intro rest
    induction rest with
    | nil => exact fun listed => .inr listed
    | cons first rest ih =>
        intro place listed
        rw [updateName] at listed
        split at listed
        · rcases List.mem_cons.mp listed with same | later
          · exact .inl (same.trans (moves first))
          · exact .inr (List.mem_cons_of_mem _ later)
        · rcases List.mem_cons.mp listed with same | later
          · exact .inr (same ▸ List.mem_cons_self)
          · exact (ih later).imp_right fun listed => List.mem_cons_of_mem _ listed
  induction table with
  | nil => exact nodup
  | cons first rest ih =>
      rw [List.map_cons, List.nodup_cons] at nodup
      rw [List.map_cons, List.mem_cons, not_or] at fresh
      rw [updateName]
      split
      · rw [List.map_cons, moves, List.nodup_cons]
        exact ⟨fresh.2, nodup.2⟩
      · rw [List.map_cons, List.nodup_cons]
        refine ⟨fun listed => ?_, ih nodup.2 fresh.2⟩
        rcases member listed with same | older
        · exact fresh.1 same.symm
        · exact nodup.1 older

/-- Changing the address of a name changes the map at that name. -/
theorem registry_updateName {existing : NameRec} (found : table.findName name = some existing)
    {change : NameRec → NameRec}
    (keeps : ∀ rec, foldName rec.name = foldName name → foldName (change rec).name =
      foldName name) :
    (table.updateName name change).registry =
      Function.update table.registry (foldName name) (some (change existing).address) := by
  funext key
  induction table with
  | nil => cases found
  | cons first rest ih =>
      rw [findName, List.find?_cons] at found
      rw [updateName]
      by_cases same : foldName first.name = foldName name
      · rw [beq_iff_eq.mpr same] at found
        cases found
        rw [if_pos same]
        by_cases asked : key = foldName name
        · subst asked
          rw [Function.update_self, registry, List.find?_cons, beq_iff_eq.mpr (keeps _ same)]
          rfl
        · have other : (foldName (change existing).name == key) = false := by
            rw [keeps _ same]
            exact beq_eq_false_iff_ne.mpr (Ne.symm asked)
          have before : (foldName existing.name == key) = false := by
            rw [same]
            exact beq_eq_false_iff_ne.mpr (Ne.symm asked)
          rw [Function.update_of_ne asked, registry, registry, List.find?_cons, List.find?_cons,
            other, before]
      · rw [beq_eq_false_iff_ne.mpr same] at found
        have later := ih found
        rw [if_neg same, registry, List.find?_cons]
        by_cases asked : foldName first.name = key
        · have apart : key ≠ foldName name := asked ▸ same
          rw [beq_iff_eq.mpr asked, Function.update_of_ne apart, registry, List.find?_cons,
            beq_iff_eq.mpr asked]
        · rw [beq_eq_false_iff_ne.mpr asked]
          refine later.trans ?_
          by_cases own : key = foldName name
          · subst own
            rw [Function.update_self, Function.update_self]
          · rw [Function.update_of_ne own, Function.update_of_ne own, registry, registry,
              List.find?_cons, beq_eq_false_iff_ne.mpr asked]

/-- A new record changes the map at its name. -/
theorem registry_append (free : table.findName name = none) :
    (table ++ [⟨name, address, kind, txid⟩] : NameTable).registry =
      Function.update table.registry (foldName name) (some address) := by
  funext key
  have absent : table.registry (foldName name) = none := by
    rw [registry_foldName, free]
    rfl
  rw [registry, List.find?_append]
  by_cases asked : key = foldName name
  · subst asked
    rw [Function.update_self]
    rw [registry, Option.map_eq_none_iff] at absent
    rw [absent, Option.none_or, List.find?_cons, beq_self_eq_true]
    rfl
  · rw [Function.update_of_ne asked, List.find?_cons, beq_eq_false_iff_ne.mpr (Ne.symm asked),
      List.find?_nil, Option.or_none]
    rfl

end Change

/-! ## Remembering a name -/

section Remember

variable {table next : NameTable} {name address kind txid : Text} {overwrite : Bool}

/-- Remembering a name keeps names and addresses distinct. -/
theorem Distinct.remember (distinct : table.Distinct)
    (remembered : table.remember name address kind txid overwrite = .ok next) : next.Distinct := by
  unfold NameTable.remember at remembered
  split at remembered
  · cases remembered
  · split at remembered
    · cases remembered
    next nowhere =>
      split at remembered
      next existing found =>
        have named : foldName existing.name = foldName name := by
          have matched := List.find?_some found
          exact eq_of_beq matched
        split at remembered
        · cases remembered
          refine ⟨?_, ?_⟩
          · refine Eq.mpr (congrArg List.Nodup (map_foldName_updateName ?_)) distinct.names
            exact fun _ same => same
          · refine Eq.mpr (congrArg List.Nodup (map_address_updateName ?_)) distinct.addresses
            exact fun _ => rfl
        next moved =>
          split at remembered
          · cases remembered
          · cases remembered
            refine ⟨?_, nodup_address_updateName distinct.addresses ?_ fun _ => rfl⟩
            · refine Eq.mpr (congrArg List.Nodup (map_foldName_updateName ?_)) distinct.names
              exact fun _ _ => rfl
            · refine find?_address_none
                (Option.eq_none_iff_forall_ne_some.mpr fun rec located => ?_)
              rw [located, Option.any_some, bne_iff_ne, not_not] at nowhere
              have atAddress : rec.address = address := by
                have matched := List.find?_some located
                exact eq_of_beq matched
              have same := List.inj_on_of_nodup_map distinct.names
                (List.mem_of_find?_eq_some located) (List.mem_of_find?_eq_some found)
                (nowhere.trans named.symm)
              rw [← same] at moved
              exact moved atAddress
      next free =>
        cases remembered
        have absent : table.findAddress address = none := by
          refine Option.eq_none_iff_forall_ne_some.mpr fun rec located => ?_
          rw [located, Option.any_some, bne_iff_ne, not_not] at nowhere
          exact List.find?_eq_none.mp free rec (List.mem_of_find?_eq_some located)
            (beq_iff_eq.mpr nowhere)
        refine ⟨?_, ?_⟩
        · rw [List.map_append, List.map_singleton, List.nodup_append]
          refine ⟨distinct.names, List.nodup_singleton _, fun key listed other isNew => ?_⟩
          obtain ⟨rec, member, rfl⟩ := List.mem_map.mp listed
          rw [List.mem_singleton.mp isNew]
          exact fun same => List.find?_eq_none.mp free rec member (beq_iff_eq.mpr same)
        · rw [List.map_append, List.map_singleton, List.nodup_append]
          refine ⟨distinct.addresses, List.nodup_singleton _, fun place listed other isNew => ?_⟩
          rw [List.mem_singleton.mp isNew]
          rintro rfl
          exact find?_address_none absent listed

theorem Written.distinct (written : table.Written next) (distinct : table.Distinct) :
    next.Distinct :=
  written.keeps (fun isDistinct remembered => isDistinct.remember remembered) distinct

/-- **Remembering a name** enrols its entry. -/
theorem Distinct.registry_rememberOrKeep (distinct : table.Distinct)
    (valid : validShortname name = true) (long : isLongAddress address = true) :
    (table.rememberOrKeep name address kind txid overwrite).registry =
      table.registry.enrol overwrite (foldName name, address) := by
  have accepted : ¬(¬validShortname name = true ∨ ¬isLongAddress address = true) := by
    rw [not_or, not_not, not_not]
    exact ⟨valid, long⟩
  unfold NameTable.rememberOrKeep NameTable.remember
  rw [if_neg accepted]
  by_cases taken : ((table.findAddress address).any fun rec => foldName rec.name != foldName name) =
      true
  · rw [if_pos taken, Registry.enrol_elsewhere (distinct.elsewhere_iff.mpr taken)]
  · have nowhere := fun elsewhere => taken (distinct.elsewhere_iff.mp elsewhere)
    rw [if_neg taken]
    cases found : table.findName name with
    | none =>
        have free : table.registry (foldName name) = none := by rw [registry_foldName, found]; rfl
        rw [Registry.enrol_free free nowhere]
        exact registry_append found
    | some existing =>
        have bound : table.registry (foldName name) = some existing.address := by
          rw [registry_foldName, found]
          rfl
        dsimp only
        by_cases same : existing.address = address
        · have holds : table.registry.Holds (foldName name, address) :=
            bound.trans (congrArg some same)
          rw [if_pos same, Registry.enrol_holds holds]
          dsimp only
          refine (registry_updateName found ?_).trans (Function.update_eq_self_iff.mpr bound.symm)
          exact fun _ isName => isName
        · rw [if_neg same]
          cases overwrite with
          | false =>
              rw [if_pos Bool.false_ne_true, Registry.enrol_taken bound]
          | true =>
              rw [if_neg (not_not.mpr rfl), Registry.enrol_true nowhere]
              exact registry_updateName found fun _ _ => rfl

end Remember

end NameTable

/-! ## Calls in any order -/

/-- A call that writes to the name table. -/
inductive NameCall where
  | remember (name address kind txid : Text) (overwrite : Bool)
  | absorbRecord (row : Json) (chain : Bool)
  | absorbBlock (block : Json)
  | loadFile (file : Option Json)
  | grantMatches (file : Option Json) (name address : Text)

namespace NameCall

/-- The table after a call, and what the call returns, if it returns anything. -/
def perform (table : NameTable) : NameCall → NameTable × Option Bool
  | .remember name address kind txid overwrite =>
      match table.remember name address kind txid overwrite with
      | .ok next => (next, some true)
      | .error _ => (table, some false)
  | .absorbRecord row chain => ((table.absorbRecord row chain).getD table, none)
  | .absorbBlock block => ((table.absorbBlock block).1, none)
  | .loadFile file => (table.loadFile file, none)
  | .grantMatches file name address =>
      ((table.grantMatches file name address).1, some (table.grantMatches file name address).2)

/-- The table after calls, from the empty one on. -/
def tableAfter (calls : List NameCall) : NameTable :=
  calls.foldl (fun table call => (call.perform table).1) []

theorem perform_written (table : NameTable) (call : NameCall) :
    table.Written (call.perform table).1 := by
  cases call with
  | remember name address kind txid overwrite =>
      rw [perform]
      cases remembered : table.remember name address kind txid overwrite with
      | error => exact .refl
      | ok next => exact NameTable.Written.refl.remember remembered
  | absorbRecord row chain =>
      rw [perform]
      cases absorbed : table.absorbRecord row chain with
      | none => exact .refl
      | some next => exact NameTable.written_absorbRecord absorbed
  | absorbBlock block => exact NameTable.written_absorbBlock table block
  | loadFile file => exact NameTable.written_loadFile table file
  | grantMatches file name address => exact NameTable.written_grantMatches table file name address

/-- A call that returns false changes nothing. -/
theorem perform_refused {table : NameTable} {call : NameCall}
    (refused : (call.perform table).2 = some false) : (call.perform table).1 = table := by
  cases call with
  | remember name address kind txid overwrite =>
      rw [perform] at refused ⊢
      cases remembered : table.remember name address kind txid overwrite with
      | error => rfl
      | ok next =>
          rw [remembered] at refused
          cases refused
  | absorbRecord => cases refused
  | absorbBlock => cases refused
  | loadFile => cases refused
  | grantMatches file name address =>
      rw [perform, NameTable.grantMatches] at refused ⊢
      split at refused
      · rfl
      · split at refused
        · cases refused
        next absent => rw [if_neg absent]

theorem tableAfter_written (calls : List NameCall) : NameTable.Written [] (tableAfter calls) := by
  induction calls using List.reverseRecOn with
  | nil => exact .refl
  | append_singleton calls call ih =>
      rw [tableAfter, List.foldl_concat]
      exact ih.trans (perform_written (tableAfter calls) call)

/-- After calls in any order every name and every address is in the table once, every record
is a valid one, and a call that returns false leaves the table as it is. -/
theorem one_to_one (calls : List NameCall) :
    (tableAfter calls).Distinct ∧
      (∀ rec ∈ tableAfter calls,
        validShortname rec.name = true ∧ isLongAddress rec.address = true) ∧
      ∀ call : NameCall, (call.perform (tableAfter calls)).2 = some false →
        (call.perform (tableAfter calls)).1 = tableAfter calls :=
  ⟨(tableAfter_written calls).distinct NameTable.distinct_empty,
    (tableAfter_written calls).sound NameTable.sound_empty,
    fun _ refused => perform_refused refused⟩

end NameCall

/-! ## The tables of reached nodes -/

section Reached

open NameTable

variable {host : Host}

theorem applyChain_written (host : Host) (node : Node) (chain : List FoundBlock) :
    node.names.Written (applyChain host node chain).1.names := by
  induction chain generalizing node with
  | nil => exact .refl
  | cons item rest ih =>
      have first : node.names.Written (applyBlock host node item).1.names :=
        applyBlock_written item node
      rw [applyChain]
      split
      next next ended =>
        rw [ended] at first
        exact first.trans (ih next)
      · exact first

theorem loadMempool_names (moment : Moment) (node : Node) :
    (loadMempool host moment node).names = node.names := by
  obtain ⟨flags, mempool, file, loaded⟩ := loadMempool_eq host moment node
  rw [loaded]

theorem rpcReplayChain_written (host : Host) (moment : Moment) (node : Node) (tip : Digest) :
    node.names.Written (rpcReplayChain host moment node tip).1.names := by
  unfold rpcReplayChain
  dsimp only
  split
  · exact .refl
  · generalize chainEndingAt (loadFoundBlocks host node.storage.frames) tip = chosen
    have replayed := applyChain_written host
      { node with flags := [], storage := node.storage.resetActiveChain } chosen
    split
    next next ended =>
      rw [ended] at replayed
      rw [loadMempool_names]
      exact replayed
    · exact replayed

theorem restart_written (host : Host) (moment : Moment) (node : Node) :
    Written [] (restart host moment node).1.names := by
  unfold restart restoreChain
  dsimp only
  generalize chooseLongestChain (loadFoundBlocks host node.reopen.storage.frames) = chosen
  have named := written_loadFile node.reopen.names node.reopen.namesFile
  have replayed := named.trans (applyChain_written host
    { node.reopen with
      flags := []
      names := node.reopen.names.loadFile node.reopen.namesFile
      storage := node.reopen.storage.resetActiveChain } chosen)
  split
  next next ended =>
    rw [ended] at replayed
    rw [loadMempool_names]
    exact replayed
  · exact replayed

/-- That the table was written from nothing is stable. -/
theorem written_stable : Stable host fun _ node => Written [] node.names where
  reframed same written := written.trans same.names
  connected {log} {node} {moment} {localPolicy} {params} {accepted} written passed _ := by
    have checked := accepted.names_written
    rw [(acceptance_of passed).node_eq] at checked
    exact (written.trans checked).trans (connectBlock_written moment localPolicy
      { node with names := accepted.names } accepted.checked)
  replayed moment tip written := written.trans (rpcReplayChain_written host moment _ tip)
  restarted {log} {node} {next} moment _ ended := by
    have restarted := restart_written host moment node
    rw [ended] at restarted
    exact restarted

/-- Storing a binary block body leaves the names alone. -/
theorem handleBlock_names {node : Node} {moments : Nat → Moment}
    {held : Option (Digest × List Json)} {payload : Bytes}
    (binary : Stable.storesBinary host node (.peerBlock moments held payload) = true) :
    (handleBlock host moments held node payload).names = node.names := by
  rw [Stable.storesBinary, Bool.and_eq_true, Bool.not_eq_true'] at binary
  unfold handleBlock
  rw [if_neg (Bool.eq_false_iff.mp binary.1)]
  split <;> rfl

/-- The name table of every node that a run reaches from one without names was written
by remembering names. -/
theorem names_written_of_unnamed {allowed : Node → Call → Prop} {start node : Node}
    {calls : List Call}
    {log : List (Accepted host)} (unnamed : start.names = [])
    (run : (nodeMachine host).Runs allowed start calls log node) : Written [] node.names := by
  refine @Machine.Runs.invariant _ _ _ _ _ _ (fun _ node => Written [] node.names)
    (unnamed.symm ▸ .refl) ?_ _ _ _ run
  intro log node call next written _ stepped
  cases binary : Stable.storesBinary host node call with
  | false => exact @Stable.step host _ log node written_stable written _ _ binary stepped
  | true =>
      cases call with
      | peerBlock moments held payload =>
          cases stepped
          have same := handleBlock_names binary
          exact same.symm ▸ written
      | _ => cases binary

/-- **Reached tables.** The name table of every node that a run reaches was written
by remembering names. -/
theorem names_written {wallets : Wallets} {calls : List Call} {log : List (Accepted host)}
    {node : Node} (run : (nodeMachine host).Runs (fun _ _ => True) (Node.empty wallets) calls log
      node) :
    Written [] node.names :=
  names_written_of_unnamed rfl run

theorem names_sound {allowed : Node → Call → Prop} {start node : Node} {calls : List Call}
    {log : List (Accepted host)} (unnamed : start.names = [])
    (run : (nodeMachine host).Runs allowed start calls log node) : node.names.Sound :=
  (names_written_of_unnamed unnamed run).sound sound_empty

/-- The name table of a reached node has every name and every address once. -/
theorem names_distinct {wallets : Wallets} {calls : List Call} {log : List (Accepted host)}
    {node : Node} (run : (nodeMachine host).Runs (fun _ _ => True) (Node.empty wallets) calls log
      node) :
    node.names.Distinct ∧ node.names.Sound :=
  ⟨(names_written run).distinct distinct_empty, (names_written run).sound sound_empty⟩

end Reached

end PiSecure
