import PiSecure.Model.Peer

/-! # Chains of other peers

How `p2p.cpp` hands out the headers of the active chain, and how it holds the
blocks of its peers that do not follow the tip until a taller chain is complete.
-/

namespace PiSecure

/-! ## Handing out headers -/

/-- The loop of `handleGetHeaders` from a height on, with room for some headers. -/
def headersFrom (storage : Storage) (hashStop : Digest) : Nat → Nat → List BlockHeader
  | 0, _ => []
  | room + 1, height =>
      if height > storage.bestHeight then []
      else
        match storage.getHeaderByHeight height with
        | none => []
        | some header =>
            if header.hash = hashStop then [header]
            else header :: headersFrom storage hashStop room (height + 1)

/-- The first locator hash with a cached header, as that header. -/
def startHeader (storage : Storage) (locatorHashes : List Digest) : Option BlockHeader :=
  locatorHashes.findSome? storage.getHeaderByHash

/-- `handleGetHeaders`: the headers of the answer. -/
def handleGetHeaders (storage : Storage) (locatorHashes : List Digest) (hashStop : Digest) :
    List BlockHeader :=
  headersFrom storage hashStop 2000
    (((startHeader storage locatorHashes).map fun header => header.height + 1).getD 1)

/-! ## Holding blocks -/

/-- `HeldBlock`. -/
structure HeldBlock where
  body : Json
  hash : Text
  prev : Text
  height : Nat

/-- The checks of `noteOffTipBlock`, and the entry for a block that passes them. -/
def notedBlock (block : Json) : Option HeldBlock := do
  let hash ← (block.text? "hash").map lowerAscii
  let prev ← (block.text? "prev_block_hash").map lowerAscii
  let height ← (block.unsigned? "height").map UInt64.toUInt32
  if height = 0 then none
  else if (fromHex hash).isNone ∨ (fromHex prev).isNone then none
  else some ⟨block, hash, prev, height.toNat⟩

/-- The held blocks with the first entry of a hash overwritten, when there is one. -/
def overwriteHeld (item : HeldBlock) : List HeldBlock → Option (List HeldBlock)
  | [] => none
  | entry :: rest =>
      if entry.hash = item.hash then
        some ({ entry with body := item.body, prev := item.prev, height := item.height } :: rest)
      else (overwriteHeld item rest).map (entry :: ·)

/-- The number of blocks that are held at most. -/
def kMaxHeldBlocks : Nat := 4000

/-- `noteOffTipBlock`. -/
def noteOffTipBlock (heldBlocks : List HeldBlock) (block : Json) : List HeldBlock :=
  match notedBlock block with
  | none => heldBlocks
  | some item =>
      match overwriteHeld item heldBlocks with
      | some overwritten => overwritten
      | none =>
          (if heldBlocks.length ≥ kMaxHeldBlocks then heldBlocks.tail else heldBlocks) ++ [item]

/-! ## Adopting a branch -/

/-- The hashes from one back to a header without a parent, newest first. -/
def canonicalFrom (storage : Storage) : Nat → Digest → List Digest
  | 0, _ => []
  | guard + 1, cursor =>
      cursor ::
        match storage.getHeaderByHash cursor with
        | none => []
        | some header =>
            if isZero header.prevBlockHash then []
            else canonicalFrom storage guard header.prevBlockHash

/-- The hashes of the tip and the blocks below it, as `adoptLaterPeerChain` collects them. -/
def canonicalHashes (storage : Storage) : List Digest :=
  if storage.hasTip then canonicalFrom storage (localHeight storage + 2) storage.bestBlockHash
  else []

/-- Whether the hash of a held block is one of some hashes. -/
def HeldBlock.among (block : HeldBlock) (hashes : List Digest) : Bool :=
  (fromHex block.hash).any hashes.contains

/-- The held blocks without those that are canonical. -/
def dropCanonical (canonical : List Digest) (heldBlocks : List HeldBlock) : List HeldBlock :=
  heldBlocks.filter fun block => !block.among canonical

/-- The entry of a hash in the map `by_hash`: of equal hashes the last one counts. -/
def heldByHash (held : List HeldBlock) (hash : Text) : Option HeldBlock :=
  held.reverse.find? fun block => block.hash == hash

/-- The parent that a held block names; none when the link does not parse or is zero. -/
def HeldBlock.parent? (block : HeldBlock) : Option Digest :=
  (fromHex block.prev).filter fun prev => !isZero prev

/-- The walk from a held block back to a canonical parent, with the blocks met on the
way, oldest first. -/
def walkHeld (canonical : List Digest) (held : List HeldBlock) :
    Nat → List Text → HeldBlock → Option (Digest × List HeldBlock)
  | 0, _, _ => none
  | guard + 1, seen, block =>
      if block.hash ∈ seen then none
      else
        match block.parent? with
        | none => none
        | some prev =>
            if prev ∈ canonical then some (prev, [block])
            else
              match heldByHash held block.prev with
              | none => none
              | some parent =>
                  (walkHeld canonical held guard (block.hash :: seen) parent).map
                    fun (ancestor, blocks) => (ancestor, blocks ++ [block])

/-- Whether held blocks follow each other from an expected parent and height. -/
def linkedHeld : List HeldBlock → Digest → Nat → Bool
  | [], _, _ => true
  | block :: rest, expectPrev, expectHeight =>
      match fromHex block.prev, fromHex block.hash with
      | some prev, some hash =>
          prev = expectPrev && block.height = expectHeight &&
            linkedHeld rest hash (expectHeight + 1)
      | _, _ => false

/-- Whether a timestamp is too far ahead. Bodies after one without a timestamp are not
looked at. -/
def aheadOf (now : UInt64) : List Json → Bool
  | [] => false
  | body :: rest =>
      match body.unsigned? "timestamp" with
      | none => false
      | some stamp => if stamp > now + 120 then true else aheadOf now rest

/-- `Candidate`. -/
structure Candidate where
  height : Nat
  tip : Text
  ancestor : Digest
  bodies : List Json

/-- The candidate that ends at a held block, when every check passes. -/
def candidateAt (storage : Storage) (held : List HeldBlock) (refused : List Text) (now : UInt64)
    (block : HeldBlock) : Option Candidate :=
  if block.height ≤ localHeight storage then none
  else if block.hash ∈ refused then none
  else
    match walkHeld (canonicalHashes storage) held (held.length + 1) [] block with
    | none => none
    | some (ancestor, blocks) =>
        match storage.getHeaderByHash ancestor with
        | none => none
        | some header =>
            if ¬linkedHeld blocks ancestor (header.height + 1) ∨ blocks.isEmpty then none
            else if aheadOf now (blocks.map HeldBlock.body) then none
            else some ⟨block.height, block.hash, ancestor, blocks.map HeldBlock.body⟩

/-- One held block in the choice of the best candidate. -/
def betterCandidate (best : Option Candidate) (candidate : Option Candidate) : Option Candidate :=
  match candidate, best with
  | none, _ => best
  | some found, none => some found
  | some found, some current => if found.height > current.height then some found else best

/-- The choice of `adoptLaterPeerChain` among the held blocks. -/
def bestCandidate (storage : Storage) (heldBlocks : List HeldBlock) (refused : List Text)
    (now : UInt64) : Option Candidate :=
  let held := dropCanonical (canonicalHashes storage) heldBlocks
  (held.map (candidateAt storage held refused now)).foldl betterCandidate none

/-- What the server remembers of its peers' chains. -/
structure Branches where
  heldBlocks : List HeldBlock
  refusedTips : List Text

/-- The number of refused tips that are remembered. -/
def kMaxRefusedTips : Nat := 256

/-- The refused tips after a candidate that was not adopted. -/
def refuseTip (refusedTips : List Text) (tip : Text) : List Text :=
  if tip ∈ refusedTips then refusedTips
  else
    (if refusedTips.length ≥ kMaxRefusedTips then refusedTips.tail else refusedTips) ++ [tip]

/-- The hashes of adopted bodies, in lower case. -/
def appliedHashes (bodies : List Json) : List Text :=
  bodies.filterMap fun body => (body.text? "hash").map lowerAscii

/-- `adoptLaterPeerChain`. -/
def adoptLaterPeerChain (host : Host) (now : UInt64) (moments : Nat → Moment) (branches : Branches)
    (node : Node) : Branches × Node :=
  let held := dropCanonical (canonicalHashes node.storage) branches.heldBlocks
  match bestCandidate node.storage branches.heldBlocks branches.refusedTips now with
  | none => ({ branches with heldBlocks := held }, node)
  | some best =>
      match rpcAdoptPeerChain host moments node best.ancestor best.bodies with
      | (next, .done) =>
          ({ heldBlocks := held.filter fun block => block.hash ∉ appliedHashes best.bodies
             refusedTips := branches.refusedTips.filter (· ≠ best.tip) }, next)
      | (next, _) =>
          ({ heldBlocks := held
             refusedTips :=
              if best.height > localHeight next.storage then
                refuseTip branches.refusedTips best.tip
              else branches.refusedTips }, next)

end PiSecure
