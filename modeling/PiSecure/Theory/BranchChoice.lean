import Mathlib.Data.List.MinMax
import PiSecure.General.Climb
import PiSecure.Model.Branches
import PiSecure.Theory.HeightIndex

/-! # The branch that a node tries to adopt

The blocks that a node holds from its peers name their parents without any check, so
they may leave gaps, share parents and run in circles. The walk back from a held block
is the one way up to the canonical chain, and the choice among all of them is a tallest
branch.
-/

namespace PiSecure

variable {host : Host}

/-! ## Held blocks -/

/-- A text in lower case that reads as a digest is the text of that digest. -/
theorem eq_toHex {text : Text} (lower : lowerAscii text = text) {digest : Digest}
    (read : fromHex text = some digest) : text = toHex digest := by
  unfold fromHex at read
  split at read
  · cases read
  · obtain ⟨bytes, decoded, whole⟩ := Option.bind_eq_some_iff.mp read
    have same : digest.bytes = bytes := by
      unfold Digest.ofBytes? at whole
      split at whole
      · cases whole
        rfl
      · cases whole
    rw [toHex, same]
    exact hexByte_of_decodeHex decoded (lowerHex_of_lowerAscii lower)
/-- A held block is the entry that its own body gives. -/
def HeldBlock.Noted (block : HeldBlock) : Prop := notedBlock block.body = some block

theorem notedBlock_body {body : Json} {item : HeldBlock} (noted : notedBlock body = some item) :
    item.body = body := by
  simp only [notedBlock, Option.bind_eq_bind, Option.bind_eq_some_iff] at noted
  obtain ⟨hash, _, prev, _, height, _, checked⟩ := noted
  split at checked
  · cases checked
  · split at checked
    · cases checked
    · cases checked
      rfl

theorem notedBlock_noted {body : Json} {item : HeldBlock} (noted : notedBlock body = some item) :
    item.Noted := by
  rw [HeldBlock.Noted, notedBlock_body noted]
  exact noted

/-- The hash and the link of a held block are the texts of digests. -/
theorem HeldBlock.Noted.texts {block : HeldBlock} (noted : block.Noted) :
    ∃ hash prev, block.hash = toHex hash ∧ block.prev = toHex prev := by
  simp only [HeldBlock.Noted, notedBlock, Option.bind_eq_bind, Option.bind_eq_some_iff,
    Option.map_eq_some_iff] at noted
  obtain ⟨_, ⟨hashText, _, rfl⟩, _, ⟨prevText, _, rfl⟩, height, _, checked⟩ := noted
  split at checked
  · cases checked
  · split at checked
    · cases checked
    next parsed =>
      rw [not_or, Option.isNone_iff_eq_none, Option.isNone_iff_eq_none] at parsed
      obtain ⟨hash, readHash⟩ := Option.ne_none_iff_exists'.mp parsed.1
      obtain ⟨prev, readPrev⟩ := Option.ne_none_iff_exists'.mp parsed.2
      rw [← Option.some.inj checked]
      exact ⟨hash, prev, eq_toHex (lowerAscii_lowerAscii _) readHash,
        eq_toHex (lowerAscii_lowerAscii _) readPrev⟩

/-- Held blocks under hashes of their own, each the entry of its body. -/
structure Holding (heldBlocks : List HeldBlock) : Prop where
  noted : ∀ block ∈ heldBlocks, block.Noted
  distinct : (heldBlocks.map HeldBlock.hash).Nodup

theorem Holding.nil : Holding [] := ⟨List.forall_mem_nil _, List.nodup_nil⟩

theorem Holding.sublist {heldBlocks fewer : List HeldBlock} (holding : Holding heldBlocks)
    (part : fewer.Sublist heldBlocks) : Holding fewer :=
  ⟨fun block member => holding.noted block (part.subset member),
    holding.distinct.sublist (part.map HeldBlock.hash)⟩

/-- Overwriting puts the item in the place of the first entry of its hash. -/
theorem overwriteHeld_eq_some {item : HeldBlock} {heldBlocks next : List HeldBlock}
    (overwritten : overwriteHeld item heldBlocks = some next) :
    ∃ before entry after, heldBlocks = before ++ entry :: after ∧ entry.hash = item.hash ∧
      next = before ++ item :: after := by
  induction heldBlocks generalizing next with
  | nil => cases overwritten
  | cons entry rest ih =>
      rw [overwriteHeld] at overwritten
      split at overwritten
      next same =>
        refine ⟨[], entry, rest, rfl, same, ?_⟩
        rw [← Option.some.inj overwritten, same]
        rfl
      · obtain ⟨later, found, rfl⟩ := Option.map_eq_some_iff.mp overwritten
        obtain ⟨before, other, after, rfl, same, rfl⟩ := ih found
        exact ⟨entry :: before, other, after, rfl, same, rfl⟩

theorem overwriteHeld_eq_none {item : HeldBlock} {heldBlocks : List HeldBlock} :
    overwriteHeld item heldBlocks = none ↔ item.hash ∉ heldBlocks.map HeldBlock.hash := by
  induction heldBlocks with
  | nil => exact ⟨fun _ => List.not_mem_nil, fun _ => rfl⟩
  | cons entry rest ih =>
      rw [overwriteHeld, List.map_cons, List.mem_cons, not_or]
      by_cases same : entry.hash = item.hash
      · rw [if_pos same]
        exact ⟨fun impossible => (nomatch impossible), fun apart => absurd same.symm apart.1⟩
      · rw [if_neg same, Option.map_eq_none_iff, ih]
        exact ⟨fun apart => ⟨Ne.symm same, apart⟩, And.right⟩

/-- A message leaves the held blocks alone, or it puts its entry in the place of the one
under its hash, or at the end. -/
theorem noteOffTipBlock_cases (heldBlocks : List HeldBlock) (block : Json) :
    (notedBlock block = none ∧ noteOffTipBlock heldBlocks block = heldBlocks) ∨
    ∃ item, notedBlock block = some item ∧
      ((∃ before entry after, heldBlocks = before ++ entry :: after ∧ entry.hash = item.hash ∧
        noteOffTipBlock heldBlocks block = before ++ item :: after) ∨
      (item.hash ∉ heldBlocks.map HeldBlock.hash ∧ ∃ kept, kept.Sublist heldBlocks ∧
        (heldBlocks.length < kMaxHeldBlocks → kept = heldBlocks) ∧
        noteOffTipBlock heldBlocks block = kept ++ [item])) := by
  unfold noteOffTipBlock
  cases notedBlock block with
  | none => exact .inl ⟨rfl, rfl⟩
  | some item =>
      refine .inr ⟨item, rfl, ?_⟩
      dsimp only
      cases overwritten : overwriteHeld item heldBlocks with
      | some next =>
          obtain ⟨before, entry, after, split, same, rfl⟩ := overwriteHeld_eq_some overwritten
          exact .inl ⟨before, entry, after, split, same, rfl⟩
      | none =>
          refine .inr ⟨overwriteHeld_eq_none.mp overwritten, _, ?_, ?_, rfl⟩
          · split
            · exact List.tail_sublist _
            · exact List.Sublist.refl _
          · intro room
            exact if_neg (Nat.not_le.mpr room)

/-- The held blocks stay noted and their hashes different. -/
theorem Holding.note {heldBlocks : List HeldBlock} (holding : Holding heldBlocks) (block : Json) :
    Holding (noteOffTipBlock heldBlocks block) := by
  rcases noteOffTipBlock_cases heldBlocks block with
    ⟨_, same⟩ |
      ⟨item, noted, ⟨before, entry, after, rfl, named, same⟩ | ⟨fresh, kept, part, _, same⟩⟩
  · rw [same]
    exact holding
  · rw [same]
    constructor
    · intro other member
      rcases List.mem_append.mp member with older | rest
      · exact holding.noted other (List.mem_append_left _ older)
      · rcases List.mem_cons.mp rest with rfl | later
        · exact notedBlock_noted noted
        · exact holding.noted other (List.mem_append_right _ (List.mem_cons_of_mem _ later))
    · have distinct := holding.distinct
      rw [List.map_append, List.map_cons, named] at distinct
      rw [List.map_append, List.map_cons]
      exact distinct
  · rw [same]
    have rest := holding.sublist part
    constructor
    · intro other member
      rcases List.mem_append.mp member with older | isNew
      · exact rest.noted other older
      · exact List.mem_singleton.mp isNew ▸ notedBlock_noted noted
    · rw [List.map_append, List.map_singleton, ← List.concat_eq_append]
      exact rest.distinct.concat fun again => fresh ((part.map HeldBlock.hash).subset again)

/-! ## The canonical chain -/

/-- The hash of the tip, or of the parent of a canonical block. The zero link is no
parent. -/
inductive Canonical (storage : Storage) : Digest → Prop where
  | tip : storage.hasTip = true → Canonical storage storage.bestBlockHash
  | parent {hash : Digest} {header : BlockHeader} : Canonical storage hash →
      storage.getHeaderByHash hash = some header → header.prevBlockHash ≠ Digest.zero →
      Canonical storage header.prevBlockHash

/-- The walk from a canonical block only meets canonical blocks. -/
theorem canonical_of_mem {storage : Storage} {guard : Nat} {cursor hash : Digest}
    (start : Canonical storage cursor) (member : hash ∈ canonicalFrom storage guard cursor) :
    Canonical storage hash := by
  induction guard generalizing cursor with
  | zero => cases member
  | succ guard ih =>
      rw [canonicalFrom] at member
      rcases List.mem_cons.mp member with rfl | later
      · exact start
      · split at later
        · cases later
        next header cached =>
          split at later
          · cases later
          next child =>
            exact ih (.parent start cached (mt (isZero_iff _).mpr child)) later

namespace Path

variable {storage : Storage} {chain : List BlockHeader}

/-- The last header of a path is that of the tip. -/
theorem top (path : Path storage.chainIndex chain) (nonempty : 0 < chain.length) :
    ∃ header, chain[chain.length - 1]? = some header ∧ header.hash = storage.bestBlockHash := by
  have bestHash : (indexRows chain)[chain.length]? = some storage.bestBlockHash := path.bestHash
  obtain ⟨place, isNext⟩ : ∃ place, chain.length = place + 1 := ⟨chain.length - 1, by omega⟩
  have row : (chain.map BlockHeader.hash)[chain.length - 1]? = some storage.bestBlockHash := by
    rw [isNext] at bestHash ⊢
    exact bestHash
  rw [List.getElem?_map] at row
  exact Option.map_eq_some_iff.mp row

/-- The parent of a header on a path is the header before it. -/
theorem below (path : Path storage.chainIndex chain) {place : Nat} {header : BlockHeader}
    (listed : chain[place]? = some header) (child : header.prevBlockHash ≠ Digest.zero) :
    ∃ before parent, place = before + 1 ∧ chain[before]? = some parent ∧
      parent.hash = header.prevBlockHash := by
  have named := (path.links place header listed).2
  cases place with
  | zero => exact absurd (Option.some.inj named).symm child
  | succ before =>
      change (chain.map BlockHeader.hash)[before]? = _ at named
      rw [List.getElem?_map] at named
      obtain ⟨parent, there, same⟩ := Option.map_eq_some_iff.mp named
      exact ⟨before, parent, rfl, there, same⟩

/-- A walk down a path that is long enough leaves out no parent. -/
theorem canonicalFrom_closed (path : Path storage.chainIndex chain) {place : Nat}
    {header : BlockHeader} (listed : chain[place]? = some header) {guard : Nat}
    (enough : place < guard) {hash : Digest}
    (member : hash ∈ canonicalFrom storage guard header.hash) {other : BlockHeader}
    (cached : storage.getHeaderByHash hash = some other)
    (child : other.prevBlockHash ≠ Digest.zero) :
    other.prevBlockHash ∈ canonicalFrom storage guard header.hash := by
  have hasParent : isZero other.prevBlockHash = false := by
    rw [Bool.eq_false_iff, Ne, isZero_iff]
    exact child
  induction guard generalizing place header with
  | zero => cases enough
  | succ guard ih =>
      have own : storage.getHeaderByHash header.hash = some header :=
        path.cached header (List.mem_of_getElem? listed)
      rw [canonicalFrom, own] at member ⊢
      dsimp only at member ⊢
      refine List.mem_cons_of_mem _ ?_
      rcases List.mem_cons.mp member with rfl | later
      · rw [own] at cached
        cases cached
        obtain ⟨before, parent, rfl, there, same⟩ := path.below listed child
        obtain ⟨more, rfl⟩ : ∃ more, guard = more + 1 := ⟨guard - 1, by omega⟩
        rw [hasParent, if_neg Bool.false_ne_true, canonicalFrom]
        exact List.mem_cons_self
      · split at later
        · cases later
        next isChild =>
          obtain ⟨before, parent, rfl, there, same⟩ :=
            path.below listed (mt (isZero_iff _).mpr isChild)
          rw [if_neg isChild]
          rw [← same] at later ⊢
          exact ih there (by omega) later

/-- The hashes that the walk from the tip collects are the canonical ones. -/
theorem mem_canonicalHashes (path : Path storage.chainIndex chain) (nonempty : 0 < chain.length)
    (hash : Digest) : hash ∈ canonicalHashes storage ↔ Canonical storage hash := by
  have tipped : storage.hasTip = true := by
    rw [Storage.hasTip, path.rows nonempty]
    rfl
  have bestHeight : storage.bestHeight = chain.length := path.bestHeight
  obtain ⟨header, listed, same⟩ := path.top nonempty
  have walk : canonicalHashes storage = canonicalFrom storage (chain.length + 2) header.hash := by
    rw [canonicalHashes, tipped, if_pos rfl, localHeight, tipped, if_pos rfl, bestHeight, same]
  constructor
  · intro member
    rw [walk, same] at member
    exact canonical_of_mem (.tip tipped) member
  · intro canonical
    rw [walk]
    induction canonical with
    | tip =>
        rw [canonicalFrom, same]
        exact List.mem_cons_self
    | parent _ cached child ih => exact path.canonicalFrom_closed listed (by omega) ih cached child

/-- When no block of the path has the hash that stands for no parent, the canonical hashes
are those of the path. -/
theorem canonical_iff (path : Path storage.chainIndex chain) (nonempty : 0 < chain.length)
    (proper : ∀ header ∈ chain, header.hash ≠ Digest.zero) (hash : Digest) :
    Canonical storage hash ↔ hash ∈ chain.map BlockHeader.hash := by
  obtain ⟨last, top, isTip⟩ := path.top nonempty
  constructor
  · intro canonical
    induction canonical with
    | tip => exact List.mem_map.mpr ⟨last, List.mem_of_getElem? top, isTip⟩
    | parent _ cached child ih =>
        obtain ⟨own, member, same⟩ := List.mem_map.mp ih
        have known := path.cached own member
        rw [same] at known
        obtain rfl := Option.some.inj (known.symm.trans cached)
        obtain ⟨place, listed⟩ := List.mem_iff_getElem?.mp member
        obtain ⟨before, parent, _, there, named⟩ := path.below listed child
        exact List.mem_map.mpr ⟨parent, List.mem_of_getElem? there, named⟩
  · -- Down from the tip: each header above is canonical and has a parent.
    have tipped : storage.hasTip = true := by
      rw [Storage.hasTip, path.rows nonempty]
      rfl
    have each : ∀ depth header, chain[chain.length - 1 - depth]? = some header →
        depth < chain.length → Canonical storage header.hash := by
      intro depth
      induction depth with
      | zero =>
          intro header listed _
          obtain rfl := Option.some.inj (listed.symm.trans top)
          rw [isTip]
          exact .tip tipped
      | succ depth ih =>
          intro header listed below
          obtain ⟨place, isNext⟩ : ∃ place, chain.length - 1 - depth = place + 1 :=
            ⟨chain.length - 1 - depth - 1, by omega⟩
          have same : chain.length - 1 - (depth + 1) = place := by omega
          have inside : place + 1 < chain.length := by omega
          have above := List.getElem?_eq_getElem inside
          have canonical := ih chain[place + 1] (by rw [isNext]; exact above) (by omega)
          rw [same] at listed
          have named := (path.links _ _ above).2
          change (chain.map BlockHeader.hash)[place]? = _ at named
          rw [List.getElem?_map, listed] at named
          have parent := Option.some.inj named
          rw [parent]
          refine .parent canonical (path.cached _ (List.getElem_mem inside)) ?_
          rw [← parent]
          exact proper header (List.mem_of_getElem? listed)
    intro member
    obtain ⟨header, listed, rfl⟩ := List.mem_map.mp member
    obtain ⟨place, there⟩ := List.mem_iff_getElem?.mp listed
    have inside := (List.getElem?_eq_some_iff.mp there).1
    refine each (chain.length - 1 - place) header ?_ (by omega)
    rw [show chain.length - 1 - (chain.length - 1 - place) = place by omega]
    exact there

end Path

/-! ## Branches -/

section Branches

variable (storage : Storage) (heldBlocks : List HeldBlock)

/-- A held block that is not canonical. -/
def Waiting (block : HeldBlock) : Prop :=
  block ∈ heldBlocks ∧ ∀ hash, fromHex block.hash = some hash → ¬Canonical storage hash

/-- Waiting blocks of consecutive heights from a child of a canonical block to a tip, each
the parent of the next one. -/
inductive BranchTo (ancestor : Digest) : List HeldBlock → HeldBlock → Prop where
  | child {header : BlockHeader} {block : HeldBlock} : Canonical storage ancestor →
      storage.getHeaderByHash ancestor = some header → Waiting storage heldBlocks block →
      block.parent? = some ancestor → block.height = header.height + 1 →
      BranchTo ancestor [block] block
  | grow {blocks : List HeldBlock} {last block : HeldBlock} {hash : Digest} :
      BranchTo ancestor blocks last → fromHex last.hash = some hash →
      Waiting storage heldBlocks block → block.parent? = some hash →
      block.height = last.height + 1 → BranchTo ancestor (blocks ++ [block]) block

end Branches

variable {storage : Storage} {heldBlocks : List HeldBlock} {ancestor : Digest}
  {blocks : List HeldBlock} {block : HeldBlock}

theorem BranchTo.waiting (branch : BranchTo storage heldBlocks ancestor blocks block) :
    Waiting storage heldBlocks block := by
  cases branch with
  | child _ _ waiting => exact waiting
  | grow _ _ waiting => exact waiting

theorem BranchTo.getLast? (branch : BranchTo storage heldBlocks ancestor blocks block) :
    blocks.getLast? = some block := by
  cases branch with
  | child => rfl
  | grow => exact List.getLast?_concat

/-! ### The walk -/

/-- The canonical parent of a held block, at which a walk stops. -/
def canonicalParent (canonical : List Digest) (block : HeldBlock) : Option Digest :=
  block.parent?.filter fun prev => canonical.contains prev

/-- The held parent of a held block. -/
def heldParent (held : List HeldBlock) (block : HeldBlock) : Option HeldBlock :=
  block.parent?.bind fun _ => heldByHash held block.prev

theorem walkHeld_eq_climb (canonical : List Digest) (held : List HeldBlock) (guard : Nat)
    (seen : List Text) (block : HeldBlock) :
    walkHeld canonical held guard seen block =
      climb (heldParent held) (canonicalParent canonical) HeldBlock.hash guard seen block := by
  induction guard generalizing seen block with
  | zero => rfl
  | succ guard ih =>
      rw [walkHeld, climb, canonicalParent, heldParent]
      by_cases met : block.hash ∈ seen
      · rw [if_pos met, if_pos met]
      · rw [if_neg met, if_neg met]
        cases block.parent? with
        | none => rfl
        | some prev =>
            dsimp only [Option.bind_some]
            by_cases stops : prev ∈ canonical
            · rw [Option.filter_some, if_pos stops, if_pos (List.contains_iff_mem.mpr stops)]
            · rw [Option.filter_some, if_neg stops,
                if_neg fun listed => stops (List.contains_iff_mem.mp listed)]
              cases heldByHash held block.prev with
              | none => rfl
              | some parent =>
                  dsimp only
                  rw [ih]

theorem heldByHash_mem {held : List HeldBlock} {hash : Text} {found : HeldBlock}
    (picked : heldByHash held hash = some found) : found ∈ held ∧ found.hash = hash := by
  unfold heldByHash at picked
  have named := List.find?_some picked
  exact ⟨List.mem_reverse.mp (List.mem_of_find?_eq_some picked), eq_of_beq named⟩

/-- Under hashes of their own, a held block is found under its hash. -/
theorem heldByHash_eq {held : List HeldBlock} (distinct : (held.map HeldBlock.hash).Nodup)
    {found : HeldBlock} (member : found ∈ held) : heldByHash held found.hash = some found := by
  have isHeld : (heldByHash held found.hash).isSome = true :=
    List.find?_isSome.mpr ⟨found, List.mem_reverse.mpr member, beq_self_eq_true _⟩
  obtain ⟨other, picked⟩ := Option.isSome_iff_exists.mp isHeld
  obtain ⟨listed, same⟩ := heldByHash_mem picked
  rw [picked, List.inj_on_of_nodup_map distinct listed member same]

theorem heldParent_closed (held : List HeldBlock) :
    ∀ below ∈ held, ∀ above, heldParent held below = some above → above ∈ held := by
  intro below _ above named
  obtain ⟨_, _, picked⟩ := Option.bind_eq_some_iff.mp named
  exact (heldByHash_mem picked).1

theorem linkedHeld_cons {rest : List HeldBlock} {expectPrev : Digest} {expectHeight : Nat} :
    linkedHeld (block :: rest) expectPrev expectHeight = true ↔
      fromHex block.prev = some expectPrev ∧ block.height = expectHeight ∧
        ∃ hash, fromHex block.hash = some hash ∧
          linkedHeld rest hash (expectHeight + 1) = true := by
  rw [linkedHeld]
  cases fromHex block.prev with
  | none => simp
  | some prev =>
      cases fromHex block.hash with
      | none => simp
      | some hash => simp [and_assoc]

/-- The digest that a block behind others has to name as its parent. -/
def heldTip (blocks : List HeldBlock) (expectPrev : Digest) : Option Digest :=
  blocks.getLast?.elim (some expectPrev) fun last => fromHex last.hash

theorem linkedHeld_append {expectPrev : Digest} {expectHeight : Nat} :
    linkedHeld (blocks ++ [block]) expectPrev expectHeight = true ↔
      linkedHeld blocks expectPrev expectHeight = true ∧
        fromHex block.prev = heldTip blocks expectPrev ∧
        block.height = expectHeight + blocks.length ∧ (fromHex block.hash).isSome = true := by
  induction blocks generalizing expectPrev expectHeight with
  | nil =>
      rw [List.nil_append, linkedHeld_cons, Option.isSome_iff_exists]
      simp [linkedHeld, heldTip]
  | cons first rest ih =>
      rw [List.cons_append, linkedHeld_cons, linkedHeld_cons]
      have height : expectHeight + (first :: rest).length = expectHeight + 1 + rest.length := by
        rw [List.length_cons]
        omega
      have tip : ∀ hash, fromHex first.hash = some hash →
          heldTip (first :: rest) expectPrev = heldTip rest hash := by
        intro hash read
        unfold heldTip
        rw [List.getLast?_cons]
        cases rest.getLast? with
        | none => exact read
        | some last => rfl
      rw [height]
      constructor
      · rintro ⟨prev, prevRead, hash, read, later⟩
        obtain ⟨links, named, placed, known⟩ := ih.mp later
        exact ⟨⟨prev, prevRead, hash, read, links⟩, (tip hash read).symm ▸ named, placed, known⟩
      · rintro ⟨⟨prev, prevRead, hash, read, links⟩, named, placed, known⟩
        exact ⟨prev, prevRead, hash, read, ih.mpr ⟨links, tip hash read ▸ named, placed, known⟩⟩

/-! ### Ways up and branches -/

theorem parent?_eq_some {parent : Digest} :
    block.parent? = some parent ↔ fromHex block.prev = some parent ∧ parent ≠ Digest.zero := by
  rw [HeldBlock.parent?, Option.filter_eq_some_iff, Bool.not_eq_true', Bool.eq_false_iff, Ne,
    isZero_iff]

theorem canonicalParent_eq_some {canonical : List Digest} {parent : Digest} :
    canonicalParent canonical block = some parent ↔
      block.parent? = some parent ∧ parent ∈ canonical := by
  rw [canonicalParent, Option.filter_eq_some_iff, List.contains_iff_mem]

/-- The held blocks that are left are those that wait. -/
theorem mem_dropCanonical {canonical : List Digest}
    (collected : ∀ hash, hash ∈ canonical ↔ Canonical storage hash) :
    block ∈ dropCanonical canonical heldBlocks ↔ Waiting storage heldBlocks block := by
  rw [dropCanonical, List.mem_filter, Waiting]
  refine and_congr_right fun _ => ?_
  rw [HeldBlock.among, Bool.not_eq_true', Option.any_eq_false]
  refine forall_congr' fun hash => ?_
  rw [Bool.eq_false_iff, Ne, List.contains_iff_mem, collected]

section Ways

variable {canonical : List Digest}

/-- A way up whose blocks have consecutive heights is a branch. -/
theorem BranchTo.of_climbs (collected : ∀ hash, hash ∈ canonical ↔ Canonical storage hash)
    (climbs : Climbs (heldParent (dropCanonical canonical heldBlocks)) (canonicalParent canonical)
      block ancestor blocks)
    (member : block ∈ dropCanonical canonical heldBlocks) {header : BlockHeader}
    (cached : storage.getHeaderByHash ancestor = some header)
    (follows : linkedHeld blocks ancestor (header.height + 1) = true) :
    BranchTo storage heldBlocks ancestor blocks block ∧
      block.height = header.height + blocks.length := by
  induction climbs with
  | here stops =>
      obtain ⟨named, listed⟩ := canonicalParent_eq_some.mp stops
      obtain ⟨_, height, _⟩ := linkedHeld_cons.mp follows
      exact ⟨.child ((collected _).mp listed) cached ((mem_dropCanonical collected).mp member)
        named height, height⟩
  | @up block above ancestor way passes named later ih =>
      obtain ⟨parent, isParent, picked⟩ := Option.bind_eq_some_iff.mp named
      obtain ⟨listed, same⟩ := heldByHash_mem picked
      obtain ⟨before, _, height, _⟩ := linkedHeld_append.mp follows
      obtain ⟨branch, placed⟩ := ih listed cached before
      have read := (parent?_eq_some.mp isParent).1
      rw [← same] at read
      refine ⟨.grow branch read ((mem_dropCanonical collected).mp member) isParent ?_, ?_⟩
      · omega
      · rw [List.length_append, List.length_singleton]
        omega

/-- A branch is a way up, and its blocks have consecutive heights. -/
theorem BranchTo.climbs (holding : Holding heldBlocks)
    (collected : ∀ hash, hash ∈ canonical ↔ Canonical storage hash)
    (branch : BranchTo storage heldBlocks ancestor blocks block) :
    Climbs (heldParent (dropCanonical canonical heldBlocks)) (canonicalParent canonical)
      block ancestor blocks ∧
    ∃ header, storage.getHeaderByHash ancestor = some header ∧
      linkedHeld blocks ancestor (header.height + 1) = true ∧
        block.height = header.height + blocks.length := by
  have parsed : ∀ {other}, Waiting storage heldBlocks other →
      (fromHex other.hash).isSome = true := by
    intro other waiting
    obtain ⟨hash, _, text, _⟩ := (holding.noted other waiting.1).texts
    rw [text, fromHex_toHex]
    rfl
  induction branch with
  | @child header block isCanonical cached waiting named height =>
      refine ⟨.here (canonicalParent_eq_some.mpr ⟨named, (collected _).mpr isCanonical⟩), header,
        cached, ?_, height⟩
      obtain ⟨hash, read⟩ := Option.isSome_iff_exists.mp (parsed waiting)
      exact linkedHeld_cons.mpr ⟨(parent?_eq_some.mp named).1, height, hash, read, rfl⟩
  | @grow blocks last block hash branch read waiting named height ih =>
      obtain ⟨climbs, header, cached, follows, placed⟩ := ih
      have lastWaits := branch.waiting
      have ends := branch.getLast?
      refine ⟨.up ?_ ?_ climbs, header, cached, ?_, ?_⟩
      · rw [Option.eq_none_iff_forall_ne_some]
        intro parent stops
        obtain ⟨same, listed⟩ := canonicalParent_eq_some.mp stops
        rw [named] at same
        cases same
        exact lastWaits.2 hash read ((collected hash).mp listed)
      · -- The link and the hash of the parent are texts of one digest.
        have text : block.prev = last.hash := by
          obtain ⟨_, prev, _, isPrev⟩ := (holding.noted block waiting.1).texts
          obtain ⟨digest, _, isHash, _⟩ := (holding.noted last lastWaits.1).texts
          have link := (parent?_eq_some.mp named).1
          rw [isPrev, fromHex_toHex] at link
          rw [isHash, fromHex_toHex] at read
          rw [isPrev, isHash, Option.some.inj link, Option.some.inj read]
        rw [heldParent, named, text]
        exact heldByHash_eq (holding.sublist List.filter_sublist).distinct
          ((mem_dropCanonical collected).mpr lastWaits)
      · refine linkedHeld_append.mpr ⟨follows, ?_, by omega, parsed waiting⟩
        rw [heldTip, ends, (parent?_eq_some.mp named).1]
        exact read.symm
      · rw [List.length_append, List.length_singleton]
        omega

end Ways

/-! ## The choice -/

/-- A held block with a branch that `adoptLaterPeerChain` looks at: taller than the tip and
not refused. -/
structure Contends (storage : Storage) (heldBlocks : List HeldBlock) (refused : List Text)
    (ancestor : Digest) (blocks : List HeldBlock) (tip : HeldBlock) : Prop where
  branch : BranchTo storage heldBlocks ancestor blocks tip
  unrefused : tip.hash ∉ refused
  taller : localHeight storage < tip.height

/-- What is passed on of a branch. -/
def offered (ancestor : Digest) (blocks : List HeldBlock) (tip : HeldBlock) : Candidate :=
  ⟨tip.height, tip.hash, ancestor, blocks.map HeldBlock.body⟩

/-- The candidate at a held block is its branch, unless a timestamp stands in the way. -/
theorem candidateAt_eq_some (holding : Holding heldBlocks)
    (collected : ∀ hash, hash ∈ canonicalHashes storage ↔ Canonical storage hash)
    (refused : List Text) (now : UInt64)
    (member : block ∈ dropCanonical (canonicalHashes storage) heldBlocks) {candidate : Candidate} :
    candidateAt storage (dropCanonical (canonicalHashes storage) heldBlocks) refused now block =
        some candidate ↔
      ∃ ancestor blocks, Contends storage heldBlocks refused ancestor blocks block ∧
        aheadOf now (blocks.map HeldBlock.body) = false ∧
          candidate = offered ancestor blocks block := by
  have distinct := (holding.sublist
    (List.filter_sublist : (dropCanonical (canonicalHashes storage) heldBlocks).Sublist _)).distinct
  have walks : ∀ found way, walkHeld (canonicalHashes storage)
      (dropCanonical (canonicalHashes storage) heldBlocks)
      ((dropCanonical (canonicalHashes storage) heldBlocks).length + 1) [] block =
        some (found, way) ↔
      Climbs (heldParent (dropCanonical (canonicalHashes storage) heldBlocks))
        (canonicalParent (canonicalHashes storage)) block found way := by
    intro found way
    rw [walkHeld_eq_climb]
    exact climb_eq_some_iff distinct (heldParent_closed _) member (Nat.le_succ _)
  unfold candidateAt
  constructor
  · intro found
    split at found
    · cases found
    next taller =>
      split at found
      · cases found
      next unrefused =>
        split at found
        · cases found
        next ancestor blocks walked =>
          split at found
          · cases found
          next header cached =>
            split at found
            · cases found
            next passes =>
              split at found
              · cases found
              next onTime =>
                rw [not_or, not_not] at passes
                have branch := BranchTo.of_climbs collected ((walks _ _).mp walked) member cached
                  passes.1
                refine ⟨ancestor, blocks, ⟨branch.1, unrefused, Nat.not_le.mp taller⟩,
                  Bool.eq_false_iff.mpr onTime, (Option.some.inj found).symm⟩
  · rintro ⟨ancestor, blocks, contends, onTime, rfl⟩
    obtain ⟨climbs, header, cached, follows, _⟩ := contends.branch.climbs holding collected
    have nonempty : ¬blocks.isEmpty = true := by
      have ends := contends.branch.getLast?
      rw [List.isEmpty_iff]
      rintro rfl
      cases ends
    rw [if_neg (Nat.not_le.mpr contends.taller), if_neg contends.unrefused, (walks _ _).mpr climbs]
    simp only [cached, follows, not_true, false_or, nonempty, onTime, Bool.false_eq_true,
      ↓reduceIte]
    rfl

/-- The choice keeps the first of the tallest candidates. -/
theorem bestCandidate_eq (storage : Storage) (heldBlocks : List HeldBlock) (refused : List Text)
    (now : UInt64) :
    bestCandidate storage heldBlocks refused now =
      ((dropCanonical (canonicalHashes storage) heldBlocks).filterMap
        (candidateAt storage (dropCanonical (canonicalHashes storage) heldBlocks) refused
          now)).argmax Candidate.height := by
  have folds : ∀ (blocks : List HeldBlock) (offer : HeldBlock → Option Candidate)
      (best : Option Candidate), (blocks.map offer).foldl betterCandidate best =
        (blocks.filterMap offer).foldl (List.argAux fun b c => c.height < b.height) best := by
    intro blocks offer
    induction blocks with
    | nil => exact fun _ => rfl
    | cons block rest ih =>
        intro best
        rw [List.map_cons, List.foldl_cons, List.filterMap_cons, ih]
        cases offer block with
        | none => rfl
        | some found =>
            rw [List.foldl_cons]
            cases best <;> rfl
  exact folds _ _ _

/-- The seconds of `system_clock`, which counts nanoseconds. -/
def secondsOf (ticks : Fin (2 ^ 63)) : UInt64 := UInt64.ofNat (ticks.val / 1000000000)

/-- Whether a body has a timestamp more than 120 seconds ahead of the clock. -/
def TooFarAhead (ticks : Fin (2 ^ 63)) (body : Json) : Prop :=
  ∃ stamp, body.unsigned? "timestamp" = some stamp ∧ ticks.val / 1000000000 + 120 < stamp.toNat

theorem aheadOf_eq_false {ticks : Fin (2 ^ 63)} {bodies : List Json}
    (onTime : ∀ body ∈ bodies, ¬TooFarAhead ticks body) :
    aheadOf (secondsOf ticks) bodies = false := by
  have limit : (secondsOf ticks + 120).toNat = ticks.val / 1000000000 + 120 := by
    have below := ticks.isLt
    have seconds : (secondsOf ticks).toNat = ticks.val / 1000000000 := by
      rw [secondsOf, UInt64.toNat_ofNat', Nat.mod_eq_of_lt (by omega)]
    rw [UInt64.toNat_add, seconds]
    change (ticks.val / 1000000000 + 120) % 2 ^ 64 = _
    omega
  induction bodies with
  | nil => rfl
  | cons body rest ih =>
      rw [List.forall_mem_cons] at onTime
      rw [aheadOf]
      cases read : body.unsigned? "timestamp" with
      | none => rfl
      | some stamp =>
          have inTime : ¬stamp > secondsOf ticks + 120 := by
            intro late
            refine onTime.1 ⟨stamp, read, ?_⟩
            rw [← limit]
            exact UInt64.lt_iff_toNat_lt.mp late
          dsimp only
          rw [if_neg inTime]
          exact ih onTime.2

/-- A held block that may be adopted: it ends a branch that is taller than the tip and not
refused, without a timestamp too far ahead. -/
def Eligible (storage : Storage) (heldBlocks : List HeldBlock) (refused : List Text)
    (ticks : Fin (2 ^ 63)) (tip : HeldBlock) : Prop :=
  ∃ ancestor blocks, Contends storage heldBlocks refused ancestor blocks tip ∧
    ∀ block ∈ blocks, ¬TooFarAhead ticks block.body

/-- **The tallest branch.** On any canonical chain with a tip, what is passed to
`rpc_adopt_peer_chain` is a branch of held blocks that is taller than the tip and not
refused. No eligible block is higher, and nothing is passed only when none is eligible.
The walks end before their guard does, whatever the links of the held blocks are. -/
theorem adopted_branch_tallest {chain : List BlockHeader} (path : Path storage.chainIndex chain)
    (nonempty : 0 < chain.length) (holding : Holding heldBlocks) (refused : List Text)
    (ticks : Fin (2 ^ 63)) :
    (∀ candidate, bestCandidate storage heldBlocks refused (secondsOf ticks) = some candidate →
      ∃ ancestor blocks tip, Contends storage heldBlocks refused ancestor blocks tip ∧
        candidate = offered ancestor blocks tip ∧
          ∀ other, Eligible storage heldBlocks refused ticks other → other.height ≤ tip.height) ∧
    (bestCandidate storage heldBlocks refused (secondsOf ticks) = none →
      ∀ other, ¬Eligible storage heldBlocks refused ticks other) ∧
    ∀ (canonical : List Digest) (held : List HeldBlock), ∀ block ∈ held, ∀ more,
      walkHeld canonical held (held.length + 1 + more) [] block =
        walkHeld canonical held (held.length + 1) [] block := by
  have collected := path.mem_canonicalHashes nonempty
  have candidate_of : ∀ {other}, Eligible storage heldBlocks refused ticks other →
      ∃ candidate, candidate.height = other.height ∧
        candidate ∈ (dropCanonical (canonicalHashes storage) heldBlocks).filterMap
          (candidateAt storage (dropCanonical (canonicalHashes storage) heldBlocks) refused
            (secondsOf ticks)) := by
    rintro other ⟨ancestor, blocks, contends, onTime⟩
    have waits := (mem_dropCanonical collected).mpr contends.branch.waiting
    refine ⟨offered ancestor blocks other, rfl, List.mem_filterMap.mpr ⟨other, waits, ?_⟩⟩
    refine (candidateAt_eq_some holding collected refused _ waits).mpr
      ⟨ancestor, blocks, contends, aheadOf_eq_false ?_, rfl⟩
    rw [List.forall_mem_map]
    exact onTime
  rw [bestCandidate_eq]
  refine ⟨?_, ?_, ?_⟩
  · intro candidate best
    obtain ⟨tip, waits, found⟩ := List.mem_filterMap.mp (List.argmax_mem best)
    obtain ⟨ancestor, blocks, contends, _, rfl⟩ :=
      (candidateAt_eq_some holding collected refused _ waits).mp found
    refine ⟨ancestor, blocks, tip, contends, rfl, fun other eligible => ?_⟩
    obtain ⟨candidate, height, listed⟩ := candidate_of eligible
    rw [← height]
    exact List.le_of_mem_argmax listed best
  · intro nothing other eligible
    obtain ⟨candidate, _, listed⟩ := candidate_of eligible
    rw [List.argmax_eq_none.mp nothing] at listed
    cases listed
  · intro canonical held block member more
    simp only [walkHeld_eq_climb]
    induction more with
    | zero => rfl
    | succ more ih =>
        rw [← Nat.add_assoc, climb_fuel (heldParent_closed held) member, ih]
        exact Nat.lt_of_le_of_lt (List.length_filter_le _ _) (by omega)

/-! ## The adoption -/

/-- A choice among the held blocks is an adoption, or leaves the node. -/
theorem adoptLaterPeerChain_node (now : UInt64) (moments : Nat → Moment) (branches : Branches)
    (node : Node) :
    (adoptLaterPeerChain host now moments branches node).2 =
      match bestCandidate node.storage branches.heldBlocks branches.refusedTips now with
      | none => node
      | some best => (rpcAdoptPeerChain host moments node best.ancestor best.bodies).1 := by
  unfold adoptLaterPeerChain
  dsimp only
  cases bestCandidate node.storage branches.heldBlocks branches.refusedTips now with
  | none => rfl
  | some best =>
      dsimp only
      rcases rpcAdoptPeerChain host moments node best.ancestor best.bodies with ⟨next, status⟩
      cases status <;> rfl

/-- An adoption drops held blocks at most. -/
theorem adoptLaterPeerChain_held (now : UInt64) (moments : Nat → Moment) (branches : Branches)
    (node : Node) :
    ∃ keeps, (adoptLaterPeerChain host now moments branches node).1.heldBlocks =
      branches.heldBlocks.filter keeps := by
  unfold adoptLaterPeerChain
  dsimp only
  split
  · exact ⟨_, rfl⟩
  · split
    · exact ⟨_, List.filter_filter⟩
    · exact ⟨_, rfl⟩

section Samples

/-- The body of a held block. -/
private def heldBody (hash prev : Digest) (height : UInt64) : Json :=
  .ofMembers
    [("hash", .string (toHex hash)), ("height", .unsigned height),
      ("prev_block_hash", .string (toHex prev))]

private def heldOf (hash prev : Digest) (height : UInt64) : HeldBlock :=
  ⟨heldBody hash prev height, toHex hash, toHex prev, height.toUInt32.toNat⟩

/-- The node with the first block has it as its chain. -/
theorem opened_onPath : ∃ chain,
    Path (openedNode (Host.ofTables [] [])).storage.chainIndex chain ∧ 0 < chain.length := by
  have run := openedNode_run (Host.ofTables [] [])
    (fun state call => Stable.storesBinary (Host.ofTables [] []) state call = false) rfl
  have tipped : (openedNode (Host.ofTables [] [])).storage.bestHeight = 1 := by
    rw [openedNode_eq]
    decide +kernel
  obtain ⟨chain, path⟩ := @OnPath.run _ (Node.empty fun _ => none) sampleMoment _ _ _ run
  have bestHeight : (openedNode (Host.ofTables [] [])).storage.bestHeight = chain.length :=
    path.bestHeight
  exact ⟨chain, path, by omega⟩

/-- The first block is the tip there. -/
theorem opened_tip : Canonical (openedNode (Host.ofTables [] [])).storage openingHash ∧
    ∃ header, (openedNode (Host.ofTables [] [])).storage.getHeaderByHash openingHash = some header ∧
      header.height = 1 := by
  have shown : (openedNode (Host.ofTables [] [])).storage.hasTip = true ∧
      (openedNode (Host.ofTables [] [])).storage.bestBlockHash = openingHash ∧
      ((openedNode (Host.ofTables [] [])).storage.getHeaderByHash openingHash).map
        BlockHeader.height = some 1 := by
    rw [openedNode_eq]
    decide +kernel
  obtain ⟨tipped, isTip, cached⟩ := shown
  refine ⟨isTip ▸ .tip tipped, ?_⟩
  exact Option.map_eq_some_iff.mp cached

/-- A block on the first one. -/
private def plainBlocks : List HeldBlock := [heldOf secondHash openingHash 2]

private theorem plainBlocks_holding : Holding plainBlocks :=
  ⟨List.forall_mem_singleton.mpr rfl, List.nodup_singleton _⟩

theorem adopted_branch_tallest_plain :
    ∃ (storage : Storage) (chain : List BlockHeader) (heldBlocks : List HeldBlock)
      (candidate : Candidate), Path storage.chainIndex chain ∧ 0 < chain.length ∧
      Holding heldBlocks ∧ bestCandidate storage heldBlocks [] (secondsOf 0) = some candidate ∧
      ∃ ancestor blocks tip, Contends storage heldBlocks [] ancestor blocks tip ∧
        candidate = offered ancestor blocks tip := by
  obtain ⟨chain, path, nonempty⟩ := opened_onPath
  have shown : (bestCandidate (openedNode (Host.ofTables [] [])).storage plainBlocks []
      (secondsOf 0)).isSome = true := by
    rw [openedNode_eq]
    decide +kernel
  obtain ⟨candidate, best⟩ := Option.isSome_iff_exists.mp shown
  obtain ⟨ancestor, blocks, tip, contends, same, _⟩ :=
    (adopted_branch_tallest path nonempty plainBlocks_holding [] 0).1 candidate best
  exact ⟨_, chain, plainBlocks, candidate, path, nonempty, plainBlocks_holding, best, ancestor,
    blocks, tip, contends, same⟩

/-- Branches in another reading of the links: a zero link names the block under that hash,
and a block that is canonical may be held as well. -/
inductive LooseBranch (storage : Storage) (heldBlocks : List HeldBlock) (ancestor : Digest) :
    List HeldBlock → HeldBlock → Prop where
  | child {header : BlockHeader} {block : HeldBlock} : Canonical storage ancestor →
      storage.getHeaderByHash ancestor = some header → block ∈ heldBlocks →
      fromHex block.prev = some ancestor → block.height = header.height + 1 →
      LooseBranch storage heldBlocks ancestor [block] block
  | grow {blocks : List HeldBlock} {last block : HeldBlock} :
      LooseBranch storage heldBlocks ancestor blocks last → block ∈ heldBlocks →
      fromHex block.prev = fromHex last.hash → block.height = last.height + 1 →
      LooseBranch storage heldBlocks ancestor (blocks ++ [block]) block

/-- A block on the first one under the hash that stands for no parent, and its child. -/
private def zeroBlocks : List HeldBlock :=
  [heldOf Digest.zero openingHash 2, heldOf secondHash Digest.zero 3]

private theorem zeroBlocks_holding : Holding zeroBlocks := by
  refine ⟨?_, by decide +kernel⟩
  unfold zeroBlocks
  simp only [List.forall_mem_cons]
  exact ⟨rfl, rfl, List.forall_mem_nil _⟩

/-- A block that claims the hash of the tip and a place above it. -/
private def tipCopies : List HeldBlock := [heldOf openingHash openingHash 2]

private theorem tipCopies_holding : Holding tipCopies :=
  ⟨List.forall_mem_singleton.mpr rfl, List.nodup_singleton _⟩

/-- **Passed over.** A child of a block under the zero hash does not count although it is
higher, and nothing is passed when only a copy of the tip is held. -/
theorem loose_branch_passed_over :
    ∃ (storage : Storage) (chain : List BlockHeader), Path storage.chainIndex chain ∧
      0 < chain.length ∧
      (∃ heldBlocks ancestor blocks tip candidate, Holding heldBlocks ∧
        LooseBranch storage heldBlocks ancestor blocks tip ∧
        bestCandidate storage heldBlocks [] (secondsOf 0) = some candidate ∧
        candidate.height < tip.height) ∧
      ∃ heldBlocks ancestor blocks tip, Holding heldBlocks ∧
        LooseBranch storage heldBlocks ancestor blocks tip ∧ localHeight storage < tip.height ∧
        bestCandidate storage heldBlocks [] (secondsOf 0) = none := by
  obtain ⟨chain, path, nonempty⟩ := opened_onPath
  obtain ⟨canonical, header, cached, height⟩ := opened_tip
  have shown : ((bestCandidate (openedNode (Host.ofTables [] [])).storage zeroBlocks []
      (secondsOf 0)).map Candidate.height = some 2 ∧
      (bestCandidate (openedNode (Host.ofTables [] [])).storage tipCopies [] (secondsOf 0)).isNone =
        true) ∧ localHeight (openedNode (Host.ofTables [] [])).storage = 1 := by
    rw [openedNode_eq]
    decide +kernel
  obtain ⟨⟨chosen, unchosen⟩, localTop⟩ := shown
  obtain ⟨candidate, best, two⟩ := Option.map_eq_some_iff.mp chosen
  refine ⟨_, chain, path, nonempty,
    ⟨zeroBlocks, openingHash, _, heldOf secondHash Digest.zero 3, candidate, zeroBlocks_holding,
      .grow (.child canonical cached List.mem_cons_self (fromHex_toHex _) ?_)
        (List.mem_cons_of_mem _ List.mem_cons_self) rfl rfl, best, ?_⟩,
    ⟨tipCopies, openingHash, _, heldOf openingHash openingHash 2, tipCopies_holding,
      .child canonical cached List.mem_cons_self (fromHex_toHex _) ?_, ?_,
      Option.isNone_iff_eq_none.mp unchosen⟩⟩
  · rw [height]
    rfl
  · rw [two]
    decide
  · rw [height]
    rfl
  · rw [localTop]
    decide

end Samples

end PiSecure
