import Mathlib.Algebra.Ring.Nat
import Mathlib.Data.Finmap
import Mathlib.Data.List.Nodup
import Mathlib.Algebra.BigOperators.Group.Multiset.Basic

/-! # Ledgers of coins

A ledger holds coins at points, and a point is an id together with an index.
An entry spends points and creates coins under its own id. Posting an entry
checks that what it spends is there and that what it creates is not. The
journal of a ledger is the list of the entries posted to it; as long as no id
occurs twice in it, a spent point never comes back.
-/

namespace PiSecure

namespace Ledger

section Coins

variable {Point Coin : Type} [DecidableEq Point]

/-- The coins that exist, by the point where they are. -/
abbrev Coins (Point Coin : Type) := Finmap fun _ : Point => Coin

/-- Take the coins at points out. -/
def spend (coins : Coins Point Coin) (points : List Point) : Coins Point Coin :=
  points.foldl (fun rest point => rest.erase point) coins

/-- Put created coins in. -/
def create (coins : Coins Point Coin) (created : List (Point × Coin)) : Coins Point Coin :=
  created.foldl (fun rest entry => rest.insert entry.1 entry.2) coins

theorem lookup_spend (coins : Coins Point Coin) (points : List Point) (point : Point) :
    (spend coins points).lookup point = if point ∈ points then none else coins.lookup point := by
  induction points generalizing coins with
  | nil => simp only [spend, List.foldl_nil, List.not_mem_nil, ↓reduceIte]
  | cons first rest ih =>
      change (spend (coins.erase first) rest).lookup point = _
      rw [ih]
      by_cases later : point ∈ rest
      · simp only [later, List.mem_cons, or_true, ↓reduceIte]
      · by_cases same : point = first
        · subst same
          simp only [later, List.mem_cons, true_or, ↓reduceIte, Finmap.lookup_erase]
        · simp only [later, same, List.mem_cons, or_self, ↓reduceIte,
            Finmap.lookup_erase_ne same]

theorem mem_spend {coins : Coins Point Coin} {points : List Point} {point : Point} :
    point ∈ spend coins points ↔ point ∈ coins ∧ point ∉ points := by
  rw [← Finmap.lookup_isSome, ← Finmap.lookup_isSome, lookup_spend]
  by_cases spent : point ∈ points
  · simp only [spent, ↓reduceIte, Option.isSome_none, Bool.false_eq_true, not_true_eq_false,
      and_false]
  · simp only [spent, ↓reduceIte, not_false_eq_true, and_true]

theorem lookup_create_of_notMem {coins : Coins Point Coin} {created : List (Point × Coin)}
    {point : Point} (absent : point ∉ created.map Prod.fst) :
    (create coins created).lookup point = coins.lookup point := by
  induction created generalizing coins with
  | nil => rfl
  | cons first rest ih =>
      rw [List.map_cons, List.mem_cons, not_or] at absent
      change (create (coins.insert first.1 first.2) rest).lookup point = _
      rw [ih absent.2, Finmap.lookup_insert_of_ne _ absent.1]

theorem lookup_create_of_mem {coins : Coins Point Coin} {created : List (Point × Coin)}
    (distinct : (created.map Prod.fst).Nodup) {point : Point} {coin : Coin}
    (member : (point, coin) ∈ created) :
    (create coins created).lookup point = some coin := by
  induction created generalizing coins with
  | nil => cases member
  | cons first rest ih =>
      rw [List.map_cons, List.nodup_cons] at distinct
      change (create (coins.insert first.1 first.2) rest).lookup point = _
      rcases List.mem_cons.mp member with same | later
      · subst same
        rw [lookup_create_of_notMem distinct.1, Finmap.lookup_insert]
      · exact ih distinct.2 later

/-- A coin after a creation was created or was there before. -/
theorem of_lookup_create {coins : Coins Point Coin} {created : List (Point × Coin)} {point : Point}
    {coin : Coin} (found : (create coins created).lookup point = some coin) :
    (point, coin) ∈ created ∨ coins.lookup point = some coin := by
  induction created generalizing coins with
  | nil => exact .inr found
  | cons first rest ih =>
      rcases ih found with later | there
      · exact .inl (List.mem_cons_of_mem _ later)
      · by_cases same : point = first.1
        · subst same
          rw [Finmap.lookup_insert] at there
          cases there
          exact .inl List.mem_cons_self
        · rw [Finmap.lookup_insert_of_ne _ same] at there
          exact .inr there

theorem mem_create {coins : Coins Point Coin} {created : List (Point × Coin)} {point : Point} :
    point ∈ create coins created ↔ point ∈ created.map Prod.fst ∨ point ∈ coins := by
  induction created generalizing coins with
  | nil => simp only [create, List.foldl_nil, List.map_nil, List.not_mem_nil, false_or]
  | cons first rest ih =>
      change point ∈ create (coins.insert first.1 first.2) rest ↔ _
      rw [ih, Finmap.mem_insert, List.map_cons, List.mem_cons]
      tauto

theorem spend_append (coins : Coins Point Coin) (first second : List Point) :
    spend coins (first ++ second) = spend (spend coins first) second :=
  List.foldl_append

theorem create_append (coins : Coins Point Coin) (first second : List (Point × Coin)) :
    create coins (first ++ second) = create (create coins first) second :=
  List.foldl_append

/-- Coins that are created elsewhere can be created before the spending. -/
theorem create_spend {coins : Coins Point Coin} {points : List Point}
    {created : List (Point × Coin)} (apart : ∀ entry ∈ created, entry.1 ∉ points) :
    create (spend coins points) created = spend (create coins created) points := by
  induction created generalizing coins with
  | nil => rfl
  | cons first rest ih =>
      rw [List.forall_mem_cons] at apart
      have inserted : (spend coins points).insert first.1 first.2 =
          spend (coins.insert first.1 first.2) points := by
        apply Finmap.ext_lookup
        intro point
        rw [lookup_spend]
        by_cases same : point = first.1
        · subst same
          rw [Finmap.lookup_insert, Finmap.lookup_insert, if_neg apart.1]
        · rw [Finmap.lookup_insert_of_ne _ same, Finmap.lookup_insert_of_ne _ same, lookup_spend]
      change create ((spend coins points).insert first.1 first.2) rest = _
      rw [inserted, ih apart.2]
      rfl

/-! ### Worth -/

/-- The worth of all coins together. -/
def weigh (worth : Coin → Nat) (coins : Coins Point Coin) : Nat :=
  (coins.entries.map fun entry => worth entry.2).sum

/-- The worth of the coin at a point; zero when there is none. -/
def worthAt (worth : Coin → Nat) (coins : Coins Point Coin) (point : Point) : Nat :=
  ((coins.lookup point).map worth).getD 0

theorem weigh_insert (worth : Coin → Nat) {coins : Coins Point Coin} {point : Point} (coin : Coin)
    (fresh : point ∉ coins) :
    weigh worth (coins.insert point coin) = worth coin + weigh worth coins := by
  rw [weigh, weigh, Finmap.entries_insert_of_notMem fresh, Multiset.map_cons, Multiset.sum_cons]

theorem weigh_erase (worth : Coin → Nat) {coins : Coins Point Coin} {point : Point}
    (present : point ∈ coins) :
    worthAt worth coins point + weigh worth (coins.erase point) = weigh worth coins := by
  obtain ⟨coin, found⟩ := Finmap.mem_iff.mp present
  have restored : (coins.erase point).insert point coin = coins := by
    apply Finmap.ext_lookup
    intro other
    by_cases same : other = point
    · subst same
      rw [Finmap.lookup_insert, found]
    · rw [Finmap.lookup_insert_of_ne _ same, Finmap.lookup_erase_ne same]
  have whole := weigh_insert worth coin (Finmap.notMem_erase_self (a := point) (s := coins))
  rw [restored] at whole
  rw [whole, worthAt, found]
  rfl

/-- A single coin is worth no more than all coins. -/
theorem worth_le_weigh (worth : Coin → Nat) {coins : Coins Point Coin} {point : Point} {coin : Coin}
    (found : coins.lookup point = some coin) : worth coin ≤ weigh worth coins := by
  have whole := weigh_erase worth (Finmap.mem_of_lookup_eq_some found)
  rw [worthAt, found, Option.map_some, Option.getD_some] at whole
  omega

theorem weigh_insert_le (worth : Coin → Nat) (coins : Coins Point Coin) (point : Point)
    (coin : Coin) : weigh worth (coins.insert point coin) ≤ worth coin + weigh worth coins := by
  by_cases present : point ∈ coins
  · have overwritten : coins.insert point coin = (coins.erase point).insert point coin := by
      apply Finmap.ext_lookup
      intro other
      by_cases same : other = point
      · subst same
        rw [Finmap.lookup_insert, Finmap.lookup_insert]
      · rw [Finmap.lookup_insert_of_ne _ same, Finmap.lookup_insert_of_ne _ same,
          Finmap.lookup_erase_ne same]
    rw [overwritten, weigh_insert worth coin Finmap.notMem_erase_self,
      ← weigh_erase worth present]
    omega
  · exact Nat.le_of_eq (weigh_insert worth coin present)

/-- Spending distinct points takes out exactly what they hold. -/
theorem weigh_spend (worth : Coin → Nat) {coins : Coins Point Coin} {points : List Point}
    (distinct : points.Nodup) (present : ∀ point ∈ points, point ∈ coins) :
    (points.map (worthAt worth coins)).sum + weigh worth (spend coins points) =
      weigh worth coins := by
  induction points generalizing coins with
  | nil => simp only [List.map_nil, List.sum_nil, spend, List.foldl_nil, Nat.zero_add]
  | cons first rest ih =>
      rw [List.nodup_cons] at distinct
      have others : ∀ point ∈ rest, point ≠ first :=
        fun point member same => distinct.1 (same ▸ member)
      have kept : rest.map (worthAt worth coins) = rest.map (worthAt worth (coins.erase first)) :=
        List.map_congr_left fun point member => by
          rw [worthAt, worthAt, Finmap.lookup_erase_ne (others point member)]
      have tail := @ih (coins.erase first) distinct.2 fun point member =>
        Finmap.mem_erase.mpr ⟨others point member, present point (List.mem_cons_of_mem _ member)⟩
      have head := weigh_erase worth (present first List.mem_cons_self)
      change _ + weigh worth (spend (coins.erase first) rest) = _
      rw [List.map_cons, List.sum_cons, kept]
      omega

/-- Creating coins adds at most their worth. -/
theorem weigh_create_le (worth : Coin → Nat) (coins : Coins Point Coin)
    (created : List (Point × Coin)) :
    weigh worth (create coins created) ≤
      weigh worth coins + (created.map fun entry => worth entry.2).sum := by
  induction created generalizing coins with
  | nil => exact Nat.le_refl _
  | cons first rest ih =>
      have tail := ih (coins.insert first.1 first.2)
      have head := weigh_insert_le worth coins first.1 first.2
      change weigh worth (create (coins.insert first.1 first.2) rest) ≤ _
      rw [List.map_cons, List.sum_cons]
      omega

/-! ### Posting -/

/-- Spend and create in one step, or nothing. -/
def settle (coins : Coins Point Coin) (spends : List Point) (created : List (Point × Coin)) :
    Option (Coins Point Coin) :=
  if (∀ point ∈ spends, point ∈ coins) ∧ (∀ entry ∈ created, entry.1 ∉ coins) then
    some (create (spend coins spends) created)
  else none

theorem settle_eq_some {coins next : Coins Point Coin} {spends : List Point}
    {created : List (Point × Coin)} :
    settle coins spends created = some next ↔
      (∀ point ∈ spends, point ∈ coins) ∧ (∀ entry ∈ created, entry.1 ∉ coins) ∧
        next = create (spend coins spends) created := by
  unfold settle
  split
  next holds =>
    rw [Option.some.injEq]
    exact ⟨fun same => ⟨holds.1, holds.2, same.symm⟩, fun all => all.2.2.symm⟩
  next fails =>
    exact ⟨fun impossible => (nomatch impossible), fun all => absurd ⟨all.1, all.2.1⟩ fails⟩

theorem mem_settle {coins next : Coins Point Coin} {spends : List Point}
    {created : List (Point × Coin)} (settled : settle coins spends created = some next)
    {point : Point} :
    point ∈ next ↔ point ∈ created.map Prod.fst ∨ (point ∈ coins ∧ point ∉ spends) := by
  obtain ⟨_, _, rfl⟩ := settle_eq_some.mp settled
  rw [mem_create, mem_spend]

/-- A coin that is not spent stays what it is. -/
theorem lookup_settle_of_mem {coins next : Coins Point Coin} {spends : List Point}
    {created : List (Point × Coin)} (settled : settle coins spends created = some next)
    {point : Point} (present : point ∈ coins) (unspent : point ∉ spends) :
    next.lookup point = coins.lookup point := by
  obtain ⟨_, fresh, rfl⟩ := settle_eq_some.mp settled
  have other : point ∉ created.map Prod.fst := by
    intro member
    obtain ⟨entry, listed, rfl⟩ := List.mem_map.mp member
    exact fresh entry listed present
  rw [lookup_create_of_notMem other, lookup_spend, if_neg unspent]

/-- What settling does to the worth: at most the created worth comes in, and
the spent worth goes out. -/
theorem weigh_settle_le (worth : Coin → Nat) {coins next : Coins Point Coin}
    {spends : List Point} {created : List (Point × Coin)}
    (settled : settle coins spends created = some next) (distinct : spends.Nodup) :
    weigh worth next + (spends.map (worthAt worth coins)).sum ≤
      weigh worth coins + (created.map fun entry => worth entry.2).sum := by
  obtain ⟨present, _, rfl⟩ := settle_eq_some.mp settled
  have out := weigh_spend worth distinct present
  have into := weigh_create_le worth (spend coins spends) created
  omega

end Coins

/-! ## Journals -/

section Journals

variable {Id Index Coin : Type} [DecidableEq Id] [DecidableEq Index]

/-- An entry: the points it spends and the coins it creates under its id. -/
structure Entry (Id Index Coin : Type) where
  id : Id
  spends : List (Id × Index)
  outputs : List (Index × Coin)

/-- The coins that an entry creates, each at its point. -/
def Entry.created (entry : Entry Id Index Coin) : List ((Id × Index) × Coin) :=
  entry.outputs.map fun output => ((entry.id, output.1), output.2)

/-- The points that an entry creates. -/
def Entry.points (entry : Entry Id Index Coin) : List (Id × Index) :=
  entry.outputs.map fun output => (entry.id, output.1)

omit [DecidableEq Id] [DecidableEq Index] in
theorem Entry.map_created (entry : Entry Id Index Coin) :
    entry.created.map Prod.fst = entry.points := by
  simp only [created, points, List.map_map, Function.comp_def]

omit [DecidableEq Id] [DecidableEq Index] in
theorem Entry.id_of_mem_points {entry : Entry Id Index Coin} {point : Id × Index}
    (member : point ∈ entry.points) : point.1 = entry.id := by
  obtain ⟨output, _, rfl⟩ := List.mem_map.mp member
  rfl

/-- Post one entry. -/
def post (coins : Coins (Id × Index) Coin) (entry : Entry Id Index Coin) :
    Option (Coins (Id × Index) Coin) :=
  settle coins entry.spends entry.created

/-- Post entries one after the other. -/
def postAll (coins : Coins (Id × Index) Coin) : List (Entry Id Index Coin) →
    Option (Coins (Id × Index) Coin)
  | [] => some coins
  | entry :: rest => (post coins entry).bind fun next => postAll next rest

theorem postAll_append (coins : Coins (Id × Index) Coin)
    (first second : List (Entry Id Index Coin)) :
    postAll coins (first ++ second) =
      (postAll coins first).bind fun next => postAll next second := by
  induction first generalizing coins with
  | nil => rfl
  | cons entry rest ih =>
      rw [List.cons_append, postAll, postAll, Option.bind_assoc]
      exact congrArg (Option.bind _) (funext ih)

theorem mem_post {coins next : Coins (Id × Index) Coin} {entry : Entry Id Index Coin}
    (posted : post coins entry = some next) {point : Id × Index} :
    point ∈ next ↔ point ∈ entry.points ∨ (point ∈ coins ∧ point ∉ entry.spends) := by
  rw [mem_settle posted, Entry.map_created]

/-- A coin that no entry spends stays what it is. -/
theorem lookup_postAll_of_mem {coins next : Coins (Id × Index) Coin}
    {entries : List (Entry Id Index Coin)} (posted : postAll coins entries = some next)
    {point : Id × Index} (present : point ∈ coins)
    (unspent : ∀ entry ∈ entries, point ∉ entry.spends) :
    next.lookup point = coins.lookup point := by
  induction entries generalizing coins with
  | nil =>
      cases posted
      rfl
  | cons entry rest ih =>
      obtain ⟨middle, first, later⟩ := Option.bind_eq_some_iff.mp posted
      have kept := lookup_settle_of_mem first present (unspent entry List.mem_cons_self)
      have still : point ∈ middle :=
        (mem_post first).mpr (.inr ⟨present, unspent entry List.mem_cons_self⟩)
      rw [ih later still fun other member => unspent other (List.mem_cons_of_mem _ member), kept]

/-- A coin that one of the entries creates, and none of those after it spends. -/
theorem lookup_postAll_created {coins next : Coins (Id × Index) Coin}
    {before after : List (Entry Id Index Coin)} {entry : Entry Id Index Coin}
    (posted : postAll coins (before ++ entry :: after) = some next)
    (distinct : entry.points.Nodup) {point : Id × Index} {coin : Coin}
    (created : (point, coin) ∈ entry.created)
    (unspent : ∀ later ∈ after, point ∉ later.spends) :
    next.lookup point = some coin := by
  rw [postAll_append] at posted
  obtain ⟨middle, _, rest⟩ := Option.bind_eq_some_iff.mp posted
  obtain ⟨booked, first, later⟩ := Option.bind_eq_some_iff.mp rest
  obtain ⟨_, _, rfl⟩ := settle_eq_some.mp first
  have found : (create (spend middle entry.spends) entry.created).lookup point = some coin :=
    lookup_create_of_mem (by rwa [Entry.map_created]) created
  rw [lookup_postAll_of_mem later (Finmap.mem_of_lookup_eq_some found) unspent, found]

/-- The journal of a ledger: the entries posted to it since it was empty. -/
def Journal (entries : List (Entry Id Index Coin)) (coins : Coins (Id × Index) Coin) : Prop :=
  postAll ∅ entries = some coins

theorem Journal.empty : Journal ([] : List (Entry Id Index Coin)) ∅ := rfl

theorem Journal.append {entries more : List (Entry Id Index Coin)}
    {coins next : Coins (Id × Index) Coin} (journal : Journal entries coins)
    (posted : postAll coins more = some next) : Journal (entries ++ more) next := by
  rw [Journal, postAll_append, journal]
  exact posted

theorem Journal.last {entries : List (Entry Id Index Coin)} {entry : Entry Id Index Coin}
    {next : Coins (Id × Index) Coin} (journal : Journal (entries ++ [entry]) next) :
    ∃ coins, Journal entries coins ∧ post coins entry = some next := by
  rw [Journal, postAll_append] at journal
  obtain ⟨coins, before, posted⟩ := Option.bind_eq_some_iff.mp journal
  obtain ⟨same, booked, done⟩ := Option.bind_eq_some_iff.mp posted
  cases done
  exact ⟨coins, before, booked⟩

/-- Every coin was created by an entry. -/
theorem Journal.created {entries : List (Entry Id Index Coin)} {coins : Coins (Id × Index) Coin}
    (journal : Journal entries coins) {point : Id × Index} (present : point ∈ coins) :
    ∃ entry ∈ entries, point ∈ entry.points := by
  induction entries using List.reverseRecOn generalizing coins with
  | nil =>
      cases journal
      exact absurd present Finmap.notMem_empty
  | append_singleton front last ih =>
      obtain ⟨before, booked, posted⟩ := journal.last
      rcases (mem_post posted).mp present with created | ⟨older, _⟩
      · exact ⟨last, List.mem_append_right _ (List.mem_singleton_self _), created⟩
      · obtain ⟨entry, member, created⟩ := ih booked older
        exact ⟨entry, List.mem_append_left _ member, created⟩

/-- Every coin is one that an entry created. -/
theorem Journal.coin_created {entries : List (Entry Id Index Coin)}
    {coins : Coins (Id × Index) Coin} (journal : Journal entries coins) {point : Id × Index}
    {coin : Coin} (found : coins.lookup point = some coin) :
    ∃ entry ∈ entries, (point, coin) ∈ entry.created := by
  induction entries using List.reverseRecOn generalizing coins with
  | nil =>
      cases journal
      cases found
  | append_singleton front last ih =>
      obtain ⟨before, booked, posted⟩ := journal.last
      obtain ⟨_, _, rfl⟩ := settle_eq_some.mp posted
      rcases of_lookup_create found with created | kept
      · exact ⟨last, List.mem_append_right _ (List.mem_singleton_self _), created⟩
      · rw [lookup_spend] at kept
        split at kept
        · cases kept
        · obtain ⟨entry, member, created⟩ := ih booked kept
          exact ⟨entry, List.mem_append_left _ member, created⟩

/-- Every spent point was created by an entry. -/
theorem Journal.spent_created {entries : List (Entry Id Index Coin)}
    {coins : Coins (Id × Index) Coin} (journal : Journal entries coins)
    {entry : Entry Id Index Coin} (member : entry ∈ entries) {point : Id × Index}
    (spent : point ∈ entry.spends) : ∃ other ∈ entries, point ∈ other.points := by
  induction entries using List.reverseRecOn generalizing coins with
  | nil => cases member
  | append_singleton front last ih =>
      obtain ⟨before, booked, posted⟩ := journal.last
      have older : ∃ other ∈ front, point ∈ other.points := by
        rcases List.mem_append.mp member with inFront | isLast
        · exact ih booked inFront
        · rw [List.mem_singleton.mp isLast] at spent
          exact booked.created ((settle_eq_some.mp posted).1 point spent)
      obtain ⟨other, listed, created⟩ := older
      exact ⟨other, List.mem_append_left _ listed, created⟩

/-- With distinct ids, a spent point is gone for good. -/
theorem Journal.spent_gone {entries : List (Entry Id Index Coin)}
    {coins : Coins (Id × Index) Coin} (journal : Journal entries coins)
    (distinct : (entries.map Entry.id).Nodup) {entry : Entry Id Index Coin}
    (member : entry ∈ entries) {point : Id × Index} (spent : point ∈ entry.spends) :
    point ∉ coins := by
  induction entries using List.reverseRecOn generalizing coins with
  | nil => cases member
  | append_singleton front last ih =>
      obtain ⟨before, booked, posted⟩ := journal.last
      rw [List.map_append, List.nodup_append] at distinct
      have older : ∃ other ∈ front, point ∈ other.points := by
        rcases List.mem_append.mp member with inFront | isLast
        · exact booked.spent_created inFront spent
        · rw [List.mem_singleton.mp isLast] at spent
          exact booked.created ((settle_eq_some.mp posted).1 point spent)
      intro present
      rcases (mem_post posted).mp present with created | ⟨kept, unspent⟩
      · obtain ⟨other, listed, createdBefore⟩ := older
        have same : other.id = last.id :=
          (Entry.id_of_mem_points createdBefore).symm.trans (Entry.id_of_mem_points created)
        exact distinct.2.2 other.id (List.mem_map_of_mem listed) last.id
          (List.mem_map_of_mem (List.mem_singleton_self _)) same
      · rcases List.mem_append.mp member with inFront | isLast
        · exact ih booked distinct.1 inFront kept
        · exact unspent (List.mem_singleton.mp isLast ▸ spent)

/-- With distinct ids, and no point twice in one entry, no point is spent twice. -/
theorem Journal.spends_nodup {entries : List (Entry Id Index Coin)}
    {coins : Coins (Id × Index) Coin} (journal : Journal entries coins)
    (distinct : (entries.map Entry.id).Nodup) (once : ∀ entry ∈ entries, entry.spends.Nodup) :
    (entries.flatMap Entry.spends).Nodup := by
  induction entries using List.reverseRecOn generalizing coins with
  | nil => exact List.nodup_nil
  | append_singleton front last ih =>
      obtain ⟨before, booked, posted⟩ := journal.last
      rw [List.map_append, List.nodup_append] at distinct
      rw [List.flatMap_append, List.flatMap_singleton, List.nodup_append]
      refine ⟨ih booked distinct.1 fun entry member => once entry (List.mem_append_left _ member),
        once last (List.mem_append_right _ (List.mem_singleton_self _)), ?_⟩
      rintro point spent _ again rfl
      obtain ⟨entry, member, inEntry⟩ := List.mem_flatMap.mp spent
      exact booked.spent_gone distinct.1 member inEntry
        ((settle_eq_some.mp posted).1 point again)

/-- An entry that spends something present has an id that is not used yet, when
entries of its id would spend the same points. -/
theorem Journal.id_fresh {entries : List (Entry Id Index Coin)}
    {coins : Coins (Id × Index) Coin} (journal : Journal entries coins)
    (distinct : (entries.map Entry.id).Nodup) {entry : Entry Id Index Coin}
    {point : Id × Index} (spent : point ∈ entry.spends) (present : point ∈ coins)
    (determined : ∀ other ∈ entries, other.id = entry.id → other.spends = entry.spends) :
    entry.id ∉ entries.map Entry.id := by
  intro used
  obtain ⟨other, listed, same⟩ := List.mem_map.mp used
  exact journal.spent_gone distinct listed (determined other listed same ▸ spent) present

/-- An entry with a new id can be posted when what it spends is there. -/
theorem Journal.post_succeeds {entries : List (Entry Id Index Coin)}
    {coins : Coins (Id × Index) Coin} (journal : Journal entries coins)
    (entry : Entry Id Index Coin) (fresh : entry.id ∉ entries.map Entry.id)
    (present : ∀ point ∈ entry.spends, point ∈ coins) : ∃ next, post coins entry = some next := by
  refine ⟨_, settle_eq_some.mpr ⟨present, ?_, rfl⟩⟩
  intro created member there
  obtain ⟨other, listed, createdBefore⟩ := journal.created there
  obtain ⟨output, _, rfl⟩ := List.mem_map.mp member
  have same : entry.id = other.id := Entry.id_of_mem_points createdBefore
  exact fresh (same ▸ List.mem_map_of_mem listed)

/-- A point that is there or gets created, and that no entry spends, is there
in the end. -/
theorem mem_postAll_of_unspent {coins next : Coins (Id × Index) Coin}
    {entries : List (Entry Id Index Coin)} (posted : postAll coins entries = some next)
    {point : Id × Index} (present : point ∈ coins ∨ ∃ entry ∈ entries, point ∈ entry.points)
    (unspent : ∀ entry ∈ entries, point ∉ entry.spends) : point ∈ next := by
  induction entries generalizing coins with
  | nil =>
      cases posted
      rcases present with there | ⟨_, impossible, _⟩
      · exact there
      · cases impossible
  | cons entry rest ih =>
      obtain ⟨middle, first, later⟩ := Option.bind_eq_some_iff.mp posted
      refine ih later ?_ fun other member => unspent other (List.mem_cons_of_mem _ member)
      rcases present with there | ⟨creator, member, created⟩
      · exact .inl ((mem_post first).mpr (.inr ⟨there, unspent entry List.mem_cons_self⟩))
      · rcases List.mem_cons.mp member with same | isLater
        · exact .inl ((mem_post first).mpr (.inl (same ▸ created)))
        · exact .inr ⟨creator, isLater, created⟩

/-- Whether an entry may follow the entries before it: what it spends is there
or created by them, none of them spends it, and its id is new or belongs to
what it spends. -/
structure Follows (entries : List (Entry Id Index Coin)) (coins : Coins (Id × Index) Coin)
    (before : List (Entry Id Index Coin)) (entry : Entry Id Index Coin) : Prop where
  present : ∀ point ∈ entry.spends, point ∈ coins ∨ ∃ earlier ∈ before, point ∈ earlier.points
  unspent : ∀ point ∈ entry.spends, ∀ earlier ∈ before, point ∉ earlier.spends
  identified : entry.id ∉ (entries ++ before).map Entry.id ∨
    (entry.spends ≠ [] ∧ ∀ other ∈ entries ++ before, other.id = entry.id →
      other.spends = entry.spends)

/-- Entries that follow each other can all be posted, and their ids are new. -/
theorem Journal.postAll_succeeds {entries : List (Entry Id Index Coin)}
    {coins : Coins (Id × Index) Coin} (journal : Journal entries coins)
    (distinct : (entries.map Entry.id).Nodup) {more : List (Entry Id Index Coin)}
    (follows : ∀ before entry after, more = before ++ entry :: after →
      Follows entries coins before entry) :
    (∃ next, postAll coins more = some next) ∧ ((entries ++ more).map Entry.id).Nodup := by
  induction more using List.reverseRecOn with
  | nil =>
      rw [List.append_nil]
      exact ⟨⟨coins, rfl⟩, distinct⟩
  | append_singleton front last ih =>
      obtain ⟨⟨middle, posted⟩, distinctFront⟩ := ih fun before entry after split =>
        follows before entry (after ++ [last]) (by rw [split, List.append_assoc, List.cons_append])
      have following := follows front last [] rfl
      have present : ∀ point ∈ last.spends, point ∈ middle := fun point spent =>
        mem_postAll_of_unspent posted (following.present point spent)
          (following.unspent point spent)
      have booked := journal.append posted
      have fresh : last.id ∉ (entries ++ front).map Entry.id := by
        rcases following.identified with new | ⟨spends, determined⟩
        · exact new
        · obtain ⟨point, spent⟩ := List.exists_mem_of_ne_nil _ spends
          exact booked.id_fresh distinctFront spent (present point spent) determined
      obtain ⟨next, last_posted⟩ := booked.post_succeeds last fresh present
      refine ⟨⟨next, ?_⟩, ?_⟩
      · rw [postAll_append, posted]
        change (post middle last).bind (fun coins => postAll coins []) = some next
        rw [last_posted]
        rfl
      · rw [← List.append_assoc, List.map_append, List.nodup_append]
        refine ⟨distinctFront, List.nodup_singleton _, ?_⟩
        intro used member _ isLast same
        rw [List.mem_singleton.mp isLast] at same
        exact fresh (same ▸ member)

/-- Posted entries that create nothing which they or the ones before them spent
come to creating everything and then spending everything. -/
theorem postAll_eq {coins next : Coins (Id × Index) Coin} {entries : List (Entry Id Index Coin)}
    (posted : postAll coins entries = some next)
    (forward : ∀ before entry after, entries = before ++ entry :: after →
      ∀ created ∈ entry.created, created.1 ∉ (before ++ [entry]).flatMap Entry.spends) :
    next = spend (create coins (entries.flatMap Entry.created))
      (entries.flatMap Entry.spends) := by
  induction entries using List.reverseRecOn generalizing next with
  | nil =>
      cases posted
      rfl
  | append_singleton front last ih =>
      rw [postAll_append] at posted
      obtain ⟨middle, first, rest⟩ := Option.bind_eq_some_iff.mp posted
      obtain ⟨same, settled, done⟩ := Option.bind_eq_some_iff.mp rest
      cases done
      have before := ih first fun earlier entry later split =>
        forward earlier entry (later ++ [last]) (by rw [split, List.append_assoc, List.cons_append])
      have apart := forward front last [] rfl
      obtain ⟨_, _, rfl⟩ := settle_eq_some.mp settled
      rw [before, ← spend_append, List.flatMap_append, List.flatMap_append, List.flatMap_singleton,
        List.flatMap_singleton, create_append]
      rw [List.flatMap_append, List.flatMap_singleton] at apart
      exact create_spend apart

/-- In a journal with distinct ids, no entry creates what it or an entry before it
spends. -/
theorem Journal.forward {entries more : List (Entry Id Index Coin)}
    {coins next : Coins (Id × Index) Coin} (journal : Journal entries coins)
    (posted : postAll coins more = some next) (distinct : ((entries ++ more).map Entry.id).Nodup)
    {before after : List (Entry Id Index Coin)} {entry : Entry Id Index Coin}
    (split : more = before ++ entry :: after) :
    ∀ created ∈ entry.created, created.1 ∉ (before ++ [entry]).flatMap Entry.spends := by
  intro created member spent
  have pieces : more = (before ++ [entry]) ++ after := by
    rw [split, List.append_assoc, List.singleton_append]
  rw [pieces, postAll_append] at posted
  obtain ⟨middle, front, _⟩ := Option.bind_eq_some_iff.mp posted
  have booked := journal.append front
  rw [pieces, ← List.append_assoc, List.map_append, List.nodup_append] at distinct
  obtain ⟨spender, listed, inSpender⟩ := List.mem_flatMap.mp spent
  refine booked.spent_gone distinct.1 (List.mem_append_right _ listed) inSpender ?_
  rw [← List.append_assoc] at booked
  obtain ⟨_, _, last⟩ := booked.last
  refine (mem_post last).mpr (.inl ?_)
  rw [← Entry.map_created]
  exact List.mem_map_of_mem member

end Journals

end Ledger

end PiSecure
