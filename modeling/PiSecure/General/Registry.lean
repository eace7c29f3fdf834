import Mathlib.Data.List.Induction
import Mathlib.Logic.Function.Basic

/-! # First come, first served

A registry gives each holder at most one name. Entries are enrolled one after the
other: an entry whose holder has another name changes nothing, and neither does one
whose name has a holder, unless entries overwrite. Compared here are the ways to
enrol one list of entries: with and without overwriting, with some entries enrolled
early, and with some entries first and a final list of rows after them.
-/

namespace PiSecure

/-- Which holder each name has. -/
abbrev Registry (Name Holder : Type) := Name → Option Holder

namespace Registry

variable {Name Holder : Type} {registry smaller larger : Registry Name Holder}
  {entry : Name × Holder}

/-- Every holder has at most one name. -/
def OneName (registry : Registry Name Holder) : Prop :=
  ∀ first second holder, registry first = some holder → registry second = some holder →
    first = second

/-- The registry gives the name of an entry to its holder. -/
def Holds (registry : Registry Name Holder) (entry : Name × Holder) : Prop :=
  registry entry.1 = some entry.2

/-- The holder of an entry has another name. -/
def Elsewhere (registry : Registry Name Holder) (entry : Name × Holder) : Prop :=
  ∃ other, other ≠ entry.1 ∧ registry other = some entry.2

/-- One registry says whatever another says. -/
def Within (smaller larger : Registry Name Holder) : Prop :=
  ∀ name holder, smaller name = some holder → larger name = some holder

theorem Within.refl (registry : Registry Name Holder) : registry.Within registry :=
  fun _ _ holds => holds

theorem Within.trans {middle : Registry Name Holder} (first : smaller.Within middle)
    (second : middle.Within larger) : smaller.Within larger :=
  fun name holder holds => second name holder (first name holder holds)

theorem Within.antisymm (first : smaller.Within larger) (second : larger.Within smaller) :
    smaller = larger := by
  funext name
  refine Option.ext fun holder => ?_
  exact ⟨first name holder, second name holder⟩

/-- A holder that has the name has no other. -/
theorem OneName.not_elsewhere (one : registry.OneName) (holds : registry.Holds entry) :
    ¬registry.Elsewhere entry := by
  rintro ⟨other, different, elsewhere⟩
  exact different (one other entry.1 entry.2 elsewhere holds)

theorem Elsewhere.mono (elsewhere : smaller.Elsewhere entry) (within : smaller.Within larger) :
    larger.Elsewhere entry := by
  obtain ⟨other, different, held⟩ := elsewhere
  exact ⟨other, different, within _ _ held⟩

/-! ## One entry -/

variable [DecidableEq Name]

open Classical in
/-- The registry after an entry. -/
noncomputable def enrol (overwrite : Bool) (registry : Registry Name Holder)
    (entry : Name × Holder) : Registry Name Holder :=
  if registry.Elsewhere entry ∨ ((registry entry.1).isSome = true ∧ overwrite = false) then registry
  else Function.update registry entry.1 (some entry.2)

variable {overwrite : Bool}

theorem enrol_elsewhere (elsewhere : registry.Elsewhere entry) :
    registry.enrol overwrite entry = registry :=
  if_pos (.inl elsewhere)

/-- An entry that the registry has already changes nothing. -/
theorem enrol_holds (holds : registry.Holds entry) : registry.enrol overwrite entry = registry := by
  unfold enrol
  split
  · rfl
  · rw [← holds, Function.update_eq_self]

theorem enrol_free (free : registry entry.1 = none) (nowhere : ¬registry.Elsewhere entry) :
    registry.enrol overwrite entry = Function.update registry entry.1 (some entry.2) := by
  refine if_neg ?_
  rintro (elsewhere | ⟨taken, _⟩)
  · exact nowhere elsewhere
  · rw [free] at taken
    cases taken

theorem enrol_taken {holder : Holder} (taken : registry entry.1 = some holder) :
    registry.enrol false entry = registry := by
  refine if_pos (.inr ⟨?_, rfl⟩)
  rw [taken, Option.isSome_some]

theorem enrol_true (nowhere : ¬registry.Elsewhere entry) :
    registry.enrol true entry = Function.update registry entry.1 (some entry.2) := by
  refine if_neg ?_
  rintro (elsewhere | ⟨_, impossible⟩)
  · exact nowhere elsewhere
  · cases impossible

/-- What an entry does without overwriting: nothing, or it takes a free name. -/
theorem enrol_false_cases (registry : Registry Name Holder) (entry : Name × Holder) :
    registry.enrol false entry = registry ∨
      (registry entry.1 = none ∧ ¬registry.Elsewhere entry ∧
        registry.enrol false entry = Function.update registry entry.1 (some entry.2)) := by
  unfold enrol
  split
  · exact .inl rfl
  next unrefused =>
    rw [not_or] at unrefused
    refine .inr ⟨?_, unrefused.1, rfl⟩
    by_contra taken
    exact unrefused.2 ⟨Option.isSome_iff_ne_none.mpr taken, rfl⟩

theorem within_enrol_false (registry : Registry Name Holder) (entry : Name × Holder) :
    registry.Within (registry.enrol false entry) := by
  rcases enrol_false_cases registry entry with same | ⟨free, _, taken⟩
  · rw [same]
    exact .refl registry
  · intro name holder holds
    rw [taken, Function.update_of_ne, holds]
    rintro rfl
    rw [free] at holds
    cases holds

/-- An entry that does not hold afterwards changed nothing. -/
theorem enrol_false_of_refused (refused : ¬(registry.enrol false entry).Holds entry) :
    registry.enrol false entry = registry := by
  rcases enrol_false_cases registry entry with same | ⟨_, _, taken⟩
  · exact same
  · refine absurd ?_ refused
    rw [Holds, taken, Function.update_self]

/-- What a registry refuses changes nothing in a larger one. -/
theorem Within.enrol_refused (within : smaller.Within larger)
    (refused : ¬(smaller.enrol false entry).Holds entry) : larger.enrol false entry = larger := by
  rcases enrol_false_cases larger entry with same | ⟨free, nowhere, _⟩
  · exact same
  · have smallerFree : smaller entry.1 = none := by
      by_contra taken
      obtain ⟨holder, held⟩ := Option.ne_none_iff_exists'.mp taken
      rw [within _ _ held] at free
      cases free
    refine absurd ?_ refused
    rw [Holds, enrol_free smallerFree fun elsewhere => nowhere (elsewhere.mono within),
      Function.update_self]

/-- An entry of a name leaves the other names alone. -/
theorem enrol_of_ne {name : Name} (other : name ≠ entry.1) :
    registry.enrol overwrite entry name = registry name := by
  unfold enrol
  split
  · rfl
  · exact Function.update_of_ne other _ _

theorem OneName.enrol (one : registry.OneName) (overwrite : Bool) (entry : Name × Holder) :
    (registry.enrol overwrite entry).OneName := by
  unfold Registry.enrol
  split
  · exact one
  next unrefused =>
    rw [not_or] at unrefused
    have nowhere : ∀ name, registry name = some entry.2 → name = entry.1 := fun name holds =>
      not_not.mp fun other => unrefused.1 ⟨name, other, holds⟩
    intro first second holder holdsFirst holdsSecond
    by_cases isFirst : first = entry.1
    · subst isFirst
      rw [Function.update_self] at holdsFirst
      cases holdsFirst
      by_contra different
      rw [Function.update_of_ne (Ne.symm different)] at holdsSecond
      exact different (nowhere second holdsSecond).symm
    · rw [Function.update_of_ne isFirst] at holdsFirst
      by_cases isSecond : second = entry.1
      · subst isSecond
        rw [Function.update_self] at holdsSecond
        cases holdsSecond
        exact nowhere first holdsFirst
      · rw [Function.update_of_ne isSecond] at holdsSecond
        exact one first second holder holdsFirst holdsSecond

/-- An entry that agrees with a larger registry keeps the smaller one within it,
however it is enrolled. -/
theorem Within.enrol_agreed (within : smaller.Within larger) (one : larger.OneName)
    (agrees : larger.Holds entry) (overwrite : Bool) :
    (smaller.enrol overwrite entry).Within larger ∧
    (smaller.enrol overwrite entry).Holds entry := by
  have nowhere : ¬smaller.Elsewhere entry := fun elsewhere =>
    one.not_elsewhere agrees (elsewhere.mono within)
  cases held : smaller entry.1 with
  | some holder =>
      have same : holder = entry.2 := Option.some.inj ((within _ _ held).symm.trans agrees)
      subst same
      rw [enrol_holds held]
      exact ⟨within, held⟩
  | none =>
      rw [enrol_free held nowhere]
      refine ⟨fun name holder holds => ?_, Function.update_self _ _ _⟩
      by_cases same : name = entry.1
      · subst same
        rw [Function.update_self] at holds
        cases holds
        exact agrees
      · rw [Function.update_of_ne same] at holds
        exact within name holder holds

/-- An entry that agrees with a larger registry does not overwrite. -/
theorem Within.enrol_true (within : smaller.Within larger) (one : larger.OneName)
    (agrees : larger.Holds entry) : smaller.enrol true entry = smaller.enrol false entry := by
  cases held : smaller entry.1 with
  | some holder =>
      have same : some holder = some entry.2 := (within _ _ held).symm.trans agrees
      rw [same] at held
      rw [enrol_holds held, enrol_holds held]
  | none =>
      have nowhere : ¬smaller.Elsewhere entry := fun elsewhere =>
        one.not_elsewhere agrees (elsewhere.mono within)
      rw [enrol_free held nowhere, enrol_free held nowhere]

/-! ## Many entries -/

/-- The registry after a list of entries. -/
noncomputable def enrolAll (overwrite : Bool) (registry : Registry Name Holder)
    (entries : List (Name × Holder)) : Registry Name Holder :=
  entries.foldl (enrol overwrite) registry

theorem enrolAll_append (first second : List (Name × Holder)) :
    registry.enrolAll overwrite (first ++ second) =
      (registry.enrolAll overwrite first).enrolAll overwrite second :=
  List.foldl_append

theorem enrolAll_snoc (entries : List (Name × Holder)) (entry : Name × Holder) :
    registry.enrolAll overwrite (entries ++ [entry]) =
      (registry.enrolAll overwrite entries).enrol overwrite entry :=
  enrolAll_append entries [entry]

theorem within_enrolAll_false (registry : Registry Name Holder) (entries : List (Name × Holder)) :
    registry.Within (registry.enrolAll false entries) := by
  induction entries generalizing registry with
  | nil => exact .refl registry
  | cons entry rest ih => exact (within_enrol_false registry entry).trans (ih _)

theorem OneName.enrolAll (one : registry.OneName) (overwrite : Bool)
    (entries : List (Name × Holder)) : (registry.enrolAll overwrite entries).OneName := by
  induction entries generalizing registry with
  | nil => exact one
  | cons entry rest ih => exact ih (one.enrol overwrite entry)

/-- Entries of other names leave a name alone. -/
theorem enrolAll_of_ne {name : Name} {entries : List (Name × Holder)}
    (others : ∀ entry ∈ entries, name ≠ entry.1) :
    registry.enrolAll overwrite entries name = registry name := by
  induction entries generalizing registry with
  | nil => rfl
  | cons entry rest ih =>
      rw [List.forall_mem_cons] at others
      exact (ih others.2).trans (enrol_of_ne others.1)

/-- Entries that hold in a larger registry keep the smaller one within it. -/
theorem Within.enrolAll_agreed (within : smaller.Within larger) (one : larger.OneName)
    {entries : List (Name × Holder)} (agree : ∀ entry ∈ entries, larger.Holds entry) :
    (smaller.enrolAll overwrite entries).Within larger := by
  induction entries generalizing smaller with
  | nil => exact within
  | cons entry rest ih =>
      rw [List.forall_mem_cons] at agree
      exact ih (within.enrol_agreed one agree.1 overwrite).1 agree.2

/-- Rows that a larger registry holds, or that are turned down for their holder, fill a
smaller one up to the larger, when they have all that is missing. -/
theorem Within.enrolAll_fill (within : smaller.Within larger) (one : larger.OneName)
    {rows : List (Name × Holder)} (each : ∀ row ∈ rows, larger.Holds row ∨ smaller.Elsewhere row)
    (missing : ∀ name holder, larger name = some holder →
      smaller name = some holder ∨ (name, holder) ∈ rows) :
    smaller.enrolAll true rows = larger := by
  induction rows generalizing smaller with
  | nil =>
      refine within.antisymm fun name holder holds => ?_
      exact (missing name holder holds).resolve_right List.not_mem_nil
  | cons row rest ih =>
      rw [List.forall_mem_cons] at each
      have grown := within_enrol_false smaller row
      have next : smaller.enrol true row = smaller.enrol false row ∧
          (smaller.enrol false row).Within larger ∧
          (larger.Holds row → (smaller.enrol false row).Holds row) := by
        rcases each.1 with agrees | elsewhere
        · obtain ⟨inside, holds⟩ := within.enrol_agreed one agrees false
          exact ⟨within.enrol_true one agrees, inside, fun _ => holds⟩
        · rw [enrol_elsewhere elsewhere, enrol_elsewhere elsewhere]
          exact ⟨rfl, within, fun agrees =>
            absurd (elsewhere.mono within) (one.not_elsewhere agrees)⟩
      obtain ⟨same, inside, held⟩ := next
      change (smaller.enrol true row).enrolAll true rest = larger
      rw [same]
      refine ih inside (fun other listed => ?_) fun name holder holds => ?_
      · exact (each.2 other listed).imp_right fun elsewhere => elsewhere.mono grown
      · rcases missing name holder holds with known | listed
        · exact .inl (grown _ _ known)
        · rcases List.mem_cons.mp listed with rfl | later
          · exact .inl (held holds)
          · exact .inr later

/-- Entries that hold in the end may be enrolled early as well. -/
theorem enrolAll_early (one : registry.OneName) {early entries : List (Name × Holder)}
    (agree : ∀ entry ∈ early, (registry.enrolAll false entries).Holds entry) :
    (registry.enrolAll false early).enrolAll false entries = registry.enrolAll false entries := by
  have final := one.enrolAll false entries
  have start : (registry.enrolAll false early).Within (registry.enrolAll false entries) :=
    (within_enrolAll_false registry entries).enrolAll_agreed final agree
  -- the early entries stay between the registry and its end, entry by entry
  have between : ∀ done rest, entries = done ++ rest →
      (registry.enrolAll false done).Within
        ((registry.enrolAll false early).enrolAll false done) ∧
      ((registry.enrolAll false early).enrolAll false done).Within
        (registry.enrolAll false entries) := by
    intro done
    induction done using List.reverseRecOn with
    | nil => exact fun _ _ => ⟨within_enrolAll_false registry early, start⟩
    | append_singleton done entry ih =>
        intro rest split
        rw [List.append_assoc] at split
        obtain ⟨lower, upper⟩ := ih _ split
        rw [enrolAll_snoc, enrolAll_snoc]
        have later : ((registry.enrolAll false done).enrol false entry).Within
            (registry.enrolAll false entries) := by
          rw [split, ← List.append_assoc, enrolAll_append, enrolAll_append]
          exact within_enrolAll_false _ rest
        by_cases holds : ((registry.enrolAll false done).enrol false entry).Holds entry
        · have agreed := upper.enrol_agreed final (later _ _ holds) false
          refine ⟨fun name holder held => ?_, agreed.1⟩
          by_cases same : name = entry.1
          · subst same
            have known : some holder = some entry.2 := held.symm.trans holds
            rw [known]
            exact agreed.2
          · rw [enrol_of_ne same] at held
            exact within_enrol_false _ entry _ _ (lower _ _ held)
        · have same := enrol_false_of_refused holds
          rw [same, lower.enrol_refused holds]
          exact ⟨lower, upper⟩
  obtain ⟨lower, upper⟩ := between entries [] (List.append_nil _).symm
  exact upper.antisymm lower

/-! ## Ways to enrol a list -/

section Ways

variable {Item : Type} {entry : Item → Name × Holder} {plain : Item → Bool} {items : List Item}

/-- The registry that the items before an item leave, first come, first served. -/
noncomputable def left (registry : Registry Name Holder) (entry : Item → Name × Holder)
    (before : List Item) : Registry Name Holder :=
  registry.enrolAll false (before.map entry)

/-- An item that is turned down after the items before it. -/
def TurnedDown (registry : Registry Name Holder) (entry : Item → Name × Holder)
    (before : List Item) (item : Item) : Prop :=
  ¬(registry.left entry (before ++ [item])).Holds (entry item)

/-- Items among which a turned down one is turned down for its holder, and conflicts
only with what the plain items leave. -/
structure Settled (registry : Registry Name Holder) (entry : Item → Name × Holder)
    (plain : Item → Bool) (items : List Item) : Prop where
  elsewhere : ∀ before item after, items = before ++ item :: after →
    registry.TurnedDown entry before item → (registry.left entry before).Elsewhere (entry item)
  plainly : ∀ before item after, items = before ++ item :: after →
    registry.TurnedDown entry before item → ∀ name holder,
      registry.left entry before name = some holder →
      name = (entry item).1 ∨ holder = (entry item).2 →
      registry.left entry (before.filter plain) name = some holder

theorem left_snoc (before : List Item) (item : Item) :
    registry.left entry (before ++ [item]) =
      (registry.left entry before).enrol false (entry item) := by
  rw [left, List.map_append, List.map_singleton, enrolAll_snoc]
  rfl

/-- A turned down item changes nothing. -/
theorem TurnedDown.left_eq {before : List Item} {item : Item}
    (turned : registry.TurnedDown entry before item) :
    registry.left entry (before ++ [item]) = registry.left entry before := by
  unfold TurnedDown at turned
  rw [left_snoc] at turned ⊢
  exact enrol_false_of_refused turned

/-- What is not turned down holds in the end. -/
theorem holds_of_not_turnedDown {before after : List Item} {item : Item}
    (split : items = before ++ item :: after) (kept : ¬registry.TurnedDown entry before item) :
    (registry.left entry items).Holds (entry item) := by
  rw [split, List.append_cons, left, List.map_append, enrolAll_append]
  exact within_enrolAll_false _ _ _ _ (not_not.mp kept)

theorem Settled.front {before rest : List Item}
    (settled : registry.Settled entry plain (before ++ rest)) :
    registry.Settled entry plain before where
  elsewhere first item after split :=
    settled.elsewhere first item (after ++ rest)
      (by rw [split, List.append_assoc, List.cons_append])
  plainly first item after split :=
    settled.plainly first item (after ++ rest) (by rw [split, List.append_assoc, List.cons_append])

/-- Settled items may overwrite: they never do. -/
theorem Settled.enrolAll_true (settled : registry.Settled entry plain items)
    (one : registry.OneName) :
    registry.enrolAll true (items.map entry) = registry.left entry items := by
  induction items using List.reverseRecOn with
  | nil => rfl
  | append_singleton before item ih =>
      rw [List.map_append, List.map_singleton, enrolAll_snoc, ih settled.front]
      by_cases turned : registry.TurnedDown entry before item
      · rw [turned.left_eq]
        exact enrol_elsewhere (settled.elsewhere before item [] rfl turned)
      · have within := within_enrol_false (registry.left entry before) (entry item)
        have holds := not_not.mp turned
        rw [left_snoc] at holds ⊢
        exact within.enrol_true ((one.enrolAll false (before.map entry)).enrol false _) holds

/-- The plain ones of settled items never overwrite either, and leave no more than all
of them. -/
theorem Settled.plain_within (settled : registry.Settled entry plain items)
    (one : registry.OneName) :
    registry.enrolAll true ((items.filter plain).map entry) =
        registry.left entry (items.filter plain) ∧
      (registry.left entry (items.filter plain)).Within (registry.left entry items) := by
  induction items using List.reverseRecOn with
  | nil => exact ⟨rfl, .refl registry⟩
  | append_singleton before item ih =>
      obtain ⟨same, inside⟩ := ih settled.front
      have grown := within_enrol_false (registry.left entry before) (entry item)
      by_cases isPlain : plain item = true
      · have filtered : (before ++ [item]).filter plain = before.filter plain ++ [item] := by
          rw [List.filter_append, List.filter_cons_of_pos isPlain, List.filter_nil]
        rw [filtered, List.map_append, List.map_singleton, enrolAll_snoc, same, left_snoc]
        by_cases turned : registry.TurnedDown entry before item
        · obtain ⟨other, different, held⟩ := settled.elsewhere before item [] rfl turned
          have elsewhere : (registry.left entry (before.filter plain)).Elsewhere (entry item) :=
            ⟨other, different, settled.plainly before item [] rfl turned other _ held (.inr rfl)⟩
          rw [enrol_elsewhere elsewhere, enrol_elsewhere elsewhere, turned.left_eq]
          exact ⟨rfl, inside⟩
        · have holds := not_not.mp turned
          rw [left_snoc] at holds ⊢
          have final := (one.enrolAll false (before.map entry)).enrol false (entry item)
          have wider := inside.trans grown
          exact ⟨wider.enrol_true final holds, (wider.enrol_agreed final holds false).1⟩
      · have filtered : (before ++ [item]).filter plain = before.filter plain := by
          rw [List.filter_append, List.filter_cons_of_neg isPlain, List.filter_nil, List.append_nil]
        rw [filtered, left_snoc]
        exact ⟨same, inside.trans grown⟩

/-- The entry of the last item of a name. -/
def Latest (entry : Item → Name × Holder) (items : List Item) (row : Name × Holder) : Prop :=
  ∃ before item after, items = before ++ item :: after ∧ entry item = row ∧
    ∀ other ∈ after, row.1 ≠ (entry other).1

omit [DecidableEq Name] in
/-- The last entries after one more item. -/
theorem latest_snoc {before : List Item} {item : Item} {row : Name × Holder} :
    Latest entry (before ++ [item]) row ↔
      entry item = row ∨ (row.1 ≠ (entry item).1 ∧ Latest entry before row) := by
  constructor
  · rintro ⟨first, latest, after, split, isEntry, others⟩
    rcases List.eq_nil_or_concat after with rfl | ⟨middle, last, rfl⟩
    · obtain ⟨_, same⟩ := List.append_inj' split rfl
      exact .inl ((List.cons.inj same).1 ▸ isEntry)
    · rw [List.concat_eq_append] at split others
      rw [← List.cons_append, ← List.append_assoc] at split
      obtain ⟨front, same⟩ := List.append_inj' split rfl
      have isLast := (List.cons.inj same).1
      refine .inr ⟨isLast ▸ others last (List.mem_append_right _ List.mem_cons_self), first, latest,
        middle, front, isEntry, fun other listed => others other (List.mem_append_left _ listed)⟩
  · rintro (isEntry | ⟨other, first, latest, after, split, isEntry, others⟩)
    · exact ⟨before, item, [], rfl, isEntry, fun _ impossible =>
        absurd impossible List.not_mem_nil⟩
    · refine ⟨first, latest, after ++ [item], ?_, isEntry, fun later listed => ?_⟩
      · rw [split, List.append_assoc, List.cons_append]
      · rcases List.mem_append.mp listed with earlier | last
        · exact others later earlier
        · rw [List.mem_singleton.mp last]
          exact other

omit [DecidableEq Name] in
/-- A name has no item, or a last one. -/
theorem latest_or_none (entry : Item → Name × Holder) (items : List Item) (name : Name) :
    (∀ item ∈ items, name ≠ (entry item).1) ∨ ∃ holder, Latest entry items (name, holder) := by
  induction items using List.reverseRecOn with
  | nil => exact .inl fun _ impossible => absurd impossible List.not_mem_nil
  | append_singleton before item ih =>
      by_cases isLast : name = (entry item).1
      · exact .inr ⟨(entry item).2, latest_snoc.mpr (.inl (Prod.ext isLast.symm rfl))⟩
      · rcases ih with nowhere | ⟨holder, isLatest⟩
        · refine .inl fun other listed => ?_
          rcases List.mem_append.mp listed with earlier | last
          · exact nowhere other earlier
          · rw [List.mem_singleton.mp last]
            exact isLast
        · exact .inr ⟨holder, latest_snoc.mpr (.inr ⟨isLast, isLatest⟩)⟩

/-- After its last item a name has what that item left. -/
theorem left_latest {before after : List Item} {item : Item} {name : Name}
    (others : ∀ other ∈ after, name ≠ (entry other).1) :
    registry.left entry (before ++ item :: after) name =
      registry.left entry (before ++ [item]) name := by
  rw [List.append_cons, left, List.map_append, enrolAll_append]
  refine enrolAll_of_ne fun listed member => ?_
  obtain ⟨other, isLater, rfl⟩ := List.mem_map.mp member
  exact others other isLater

/-- **Settled items.** First the plain items, and then rows with the last entry of every
name, leave what all the items leave. -/
theorem Settled.enrolAll_rows (settled : registry.Settled entry plain items)
    (one : registry.OneName) {rows : List (Name × Holder)}
    (each : ∀ row ∈ rows, Latest entry items row ∨ (registry.left entry items).Holds row)
    (latest : ∀ row, Latest entry items row → row ∈ rows) :
    (registry.enrolAll true ((items.filter plain).map entry)).enrolAll true rows =
      registry.left entry items := by
  obtain ⟨same, inside⟩ := settled.plain_within one
  have plainGrows : ∀ before rest, items = before ++ rest →
      (registry.left entry (before.filter plain)).Within
        (registry.left entry (items.filter plain)) := by
    intro before rest split
    rw [split, List.filter_append, left, left, List.map_append, enrolAll_append]
    exact within_enrolAll_false _ _
  rw [same]
  refine inside.enrolAll_fill (one.enrolAll false _) (fun row listed => ?_)
    fun name holder holds => ?_
  · rcases each row listed with ⟨before, item, after, split, rfl, others⟩ | holds
    · by_cases turned : registry.TurnedDown entry before item
      · obtain ⟨other, different, held⟩ := settled.elsewhere before item after split turned
        have plainly := settled.plainly before item after split turned other _ held (.inr rfl)
        exact .inr ⟨other, different, plainGrows before _ split _ _ plainly⟩
      · refine .inl ?_
        rw [Holds, split, left_latest others]
        exact not_not.mp turned
    · exact .inl holds
  · rcases latest_or_none entry items name with nowhere | ⟨last, isLatest⟩
    · refine .inl (within_enrolAll_false registry _ _ _ ?_)
      rw [← holds]
      refine (enrolAll_of_ne fun listed member => ?_).symm
      obtain ⟨item, isItem, rfl⟩ := List.mem_map.mp member
      exact nowhere item isItem
    · have listed := latest _ isLatest
      obtain ⟨before, item, after, split, isEntry, others⟩ := isLatest
      rw [split, left_latest others] at holds
      by_cases turned : registry.TurnedDown entry before item
      · rw [turned.left_eq] at holds
        have plainly := settled.plainly before item after split turned name holder holds
          (.inl (by rw [isEntry]))
        exact .inl (plainGrows before _ split _ _ plainly)
      · have known := not_not.mp turned
        rw [isEntry] at known
        have same := Option.some.inj (known.symm.trans holds)
        subst same
        exact .inr listed

end Ways

end Registry

end PiSecure
