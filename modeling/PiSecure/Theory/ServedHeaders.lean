import Mathlib.Data.List.Chain
import PiSecure.Model.Branches
import PiSecure.Theory.Duplicate
import PiSecure.Theory.HeightIndex

/-! # The headers that a node hands out

The headers of an answer are a stretch of the active chain, so they follow each
other. Where the stretch starts depends on a header that need not be on that chain.
-/

namespace PiSecure

variable {host : Host}

/-- Headers that a peer with the locator can put behind its own: the first one is the
first of all, or the child of a block of the locator, and each other one is the child of
the one before. -/
structure Connects (locatorHashes : List Digest) (headers : List BlockHeader) : Prop where
  first : ∀ header ∈ headers.head?, header.height = 1 ∨ header.prevBlockHash ∈ locatorHashes
  follows : headers.IsChain fun before after => after.prevBlockHash = before.hash

/-- The locator has the active block at the height of the first header that it finds, if
that header is below the tip. -/
def NamesForkPoint (storage : Storage) (locatorHashes : List Digest) : Prop :=
  ∀ header, startHeader storage locatorHashes = some header → 1 ≤ header.height →
    header.height < storage.bestHeight →
      ∃ hash ∈ locatorHashes, storage.heightToHash[header.height]? = some hash

namespace Path

variable {storage : Storage} {chain : List BlockHeader}

/-- The headers of a path are each the child of the one before. -/
theorem isChain (path : Path storage.chainIndex chain) :
    chain.IsChain fun before after => after.prevBlockHash = before.hash := by
  refine List.isChain_iff_getElem.mpr fun place inside => ?_
  have named := (path.links (place + 1) _ (List.getElem?_eq_getElem inside)).2
  change (chain.map BlockHeader.hash)[place]? = _ at named
  rw [List.getElem?_map, List.getElem?_eq_getElem (Nat.lt_of_succ_lt inside)] at named
  exact (Option.some.inj named).symm

/-- An answer is the start of what the path holds from a height on. -/
theorem headersFrom_starts (path : Path storage.chainIndex chain) (hashStop : Digest)
    (room place : Nat) : headersFrom storage hashStop room (place + 1) <+: chain.drop place := by
  have bestHeight : storage.bestHeight = chain.length := path.bestHeight
  induction room generalizing place with
  | zero => exact List.nil_prefix
  | succ room ih =>
      rw [headersFrom, path.getHeaderByHeight_eq]
      split
      · exact List.nil_prefix
      · cases listed : chain[place]? with
        | none => exact List.nil_prefix
        | some header =>
            obtain ⟨inside, same⟩ := List.getElem?_eq_some_iff.mp listed
            rw [List.drop_eq_getElem_cons inside, same]
            dsimp only
            split
            · exact List.prefix_cons_inj header |>.mpr List.nil_prefix
            · exact List.prefix_cons_inj header |>.mpr (ih (place + 1))

/-- The first header of an answer is the one at the height where it starts. -/
theorem head_headersFrom (path : Path storage.chainIndex chain) (hashStop : Digest)
    (room place : Nat) :
    (headersFrom storage hashStop (room + 1) (place + 1)).head? = chain[place]? := by
  have bestHeight : storage.bestHeight = chain.length := path.bestHeight
  rw [headersFrom, path.getHeaderByHeight_eq]
  split
  next above => rw [List.getElem?_eq_none (by omega), List.head?_nil]
  · cases chain[place]? with
    | none => rfl
    | some header =>
        dsimp only
        split <;> rfl

theorem connects_iff (path : Path storage.chainIndex chain) (locatorHashes : List Digest)
    (hashStop : Digest) :
    Connects locatorHashes (handleGetHeaders storage locatorHashes hashStop) ↔
      NamesForkPoint storage locatorHashes := by
  have bestHeight : storage.bestHeight = chain.length := path.bestHeight
  have follows : ∀ place, (headersFrom storage hashStop 2000 (place + 1)).IsChain
      fun before after => after.prevBlockHash = before.hash := by
    intro place
    obtain ⟨rest, split⟩ := path.headersFrom_starts hashStop 2000 place
    exact List.IsChain.left_of_append (split ▸ path.isChain.drop place)
  unfold handleGetHeaders NamesForkPoint
  cases found : startHeader storage locatorHashes with
  | none =>
      refine ⟨fun _ _ impossible => (nomatch impossible), fun _ => ⟨?_, follows 0⟩⟩
      intro header isFirst
      rw [Option.map_none, Option.getD_none, path.head_headersFrom] at isFirst
      exact .inl (path.links 0 header isFirst).1
  | some start =>
      rw [Option.map_some, Option.getD_some]
      constructor
      · intro connects header isStart positive below
        cases isStart
        have inside : start.height < chain.length := by omega
        have listed := List.getElem?_eq_getElem inside
        have first := connects.first
        rw [path.head_headersFrom, listed] at first
        have links := path.links _ _ listed
        refine ⟨_, (first _ rfl).resolve_left (by omega), ?_⟩
        rw [← links.2, path.rows (by omega)]
      · intro named
        refine ⟨?_, follows _⟩
        intro header isFirst
        rw [path.head_headersFrom] at isFirst
        have inside := (List.getElem?_eq_some_iff.mp isFirst).1
        have links := path.links _ _ isFirst
        rcases Nat.eq_zero_or_pos start.height with zero | positive
        · exact .inl (by omega)
        · obtain ⟨hash, member, active⟩ := named start rfl positive (by omega)
          rw [path.rows (by omega), links.2] at active
          exact .inr (Option.some.inj active ▸ member)

end Path

/-- **Served headers connect.** In every run that stores no binary block body, on any
disk, the headers of an answer connect exactly when the locator has the active block at
the height of the first header that it finds. -/
theorem served_headers_connect_iff {base : Node} {moment : Moment} {calls : List Call}
    {log : List (Accepted host)} {node : Node}
    (run : (nodeMachine host).Runs (fun state call => Stable.storesBinary host state call = false)
      (restoreChain host moment base).1 calls log node)
    (locatorHashes : List Digest) (hashStop : Digest) :
    Connects locatorHashes (handleGetHeaders node.storage locatorHashes hashStop) ↔
      NamesForkPoint node.storage locatorHashes := by
  obtain ⟨chain, path⟩ := OnPath.run run
  exact path.connects_iff locatorHashes hashStop

section Abandoned

/-- The hash of a block on top of the other second one. -/
def topHash : Digest :=
  ⟨[0x00, 0xfb, 0x6f, 0x95, 0xd8, 0xf6, 0x67, 0x36, 0x1f, 0x79, 0x1e, 0x46, 0x8a, 0xb5, 0x2c, 0x76,
    0x85, 0x2c, 0x56, 0x5e, 0xab, 0xbb, 0xd5, 0xc1, 0x82, 0x1b, 0xd8, 0x76, 0x1c, 0x2e, 0x23, 0xdd],
    rfl⟩

def topBlock : MinedBlock where
  height := 3
  prev := sideHash
  root := thirdTxid
  stamp := 301
  difficulty := 4
  coinbase := sampleCoinbase 3 (sampleOuts plainAddress)
  txs := []
  work := sampleWork 3 topHash

/-- The calls that put a second block on the first one, and then two others in its place. -/
private def abandoning : List Call :=
  [.submitBlock sampleMoment false openingBlock.json,
    .submitBlock sampleMoment false secondBlock.json,
    .adoptPeerChain (fun _ => sampleMoment) openingHash [sideBlock.json, topBlock.json]]

/-- What a node serves after these calls to a peer on the active second block, and to one on the
abandoned one. -/
private theorem abandoning_run :
    ∃ (log : List (Accepted (Host.ofTables [] []))) (node : Node),
      (nodeMachine (Host.ofTables [] [])).Runs
        (fun state call => Stable.storesBinary (Host.ofTables [] []) state call = false)
        (Node.empty fun _ => none) abandoning log node ∧
      ((startHeader node.storage [sideHash, openingHash]).map BlockHeader.height = some 2 ∧
        node.storage.heightToHash[2]? = some sideHash) ∧
      (handleGetHeaders node.storage [sideHash, openingHash] Digest.zero).map BlockHeader.hash =
        [topHash] ∧
      (handleGetHeaders node.storage [secondHash] Digest.zero).map
        (fun header => (header.height, header.prevBlockHash)) = [(3, sideHash)] := by
  have shown : ((nodeMachine (Host.ofTables [] [])).play (Node.empty fun _ => none) abandoning).any
      (fun played => decide (((startHeader played.2.storage [sideHash, openingHash]).map
          BlockHeader.height = some 2 ∧ played.2.storage.heightToHash[2]? = some sideHash) ∧
        (handleGetHeaders played.2.storage [sideHash, openingHash] Digest.zero).map
          BlockHeader.hash = [topHash] ∧
        (handleGetHeaders played.2.storage [secondHash] Digest.zero).map
          (fun header => (header.height, header.prevBlockHash)) = [(3, sideHash)])) = true := by
    decide +kernel
  obtain ⟨⟨log, node⟩, played, served⟩ := (Option.any_eq_true _ _).mp shown
  have permitted : (nodeMachine (Host.ofTables [] [])).Permits
      (fun state call => Stable.storesBinary (Host.ofTables [] []) state call = false)
      (Node.empty fun _ => none) abandoning := by
    refine Machine.Permits.of_forall ?_
    unfold abandoning
    simp only [List.forall_mem_cons]
    exact ⟨fun _ => rfl, fun _ => rfl, fun _ => rfl, List.forall_mem_nil _⟩
  exact ⟨log, node, Machine.Runs.of_play permitted played, of_decide_eq_true served⟩

theorem served_headers_connect_iff_abandoning :
    ∃ (base : Node) (calls : List Call) (log : List (Accepted (Host.ofTables [] []))) (node : Node),
      (nodeMachine (Host.ofTables [] [])).Runs
        (fun state call => Stable.storesBinary (Host.ofTables [] []) state call = false)
        (restoreChain (Host.ofTables [] []) sampleMoment base).1 calls log node ∧
      (handleGetHeaders node.storage [sideHash, openingHash] Digest.zero).map BlockHeader.hash =
        [topHash] ∧
      Connects [sideHash, openingHash]
        (handleGetHeaders node.storage [sideHash, openingHash] Digest.zero) := by
  obtain ⟨log, node, run, ⟨start, active⟩, served, _⟩ := abandoning_run
  refine ⟨Node.empty fun _ => none, abandoning, log, node, run, served,
    (@served_headers_connect_iff (Host.ofTables [] []) (Node.empty fun _ => none) sampleMoment _ _ _
      run [sideHash, openingHash] Digest.zero).mpr ?_⟩
  intro header isStart _ _
  rw [isStart, Option.map_some, Option.some.injEq] at start
  exact ⟨sideHash, List.mem_cons_self, by rw [start, active]⟩

/-- **A header that does not connect.** To a peer on the abandoned second block the node
sends the third block, whose parent is the other second block. -/
theorem served_header_unknown_parent :
    ∃ (host : Host) (calls : List Call) (log : List (Accepted host)) (node : Node)
      (locatorHashes : List Digest) (hashStop : Digest),
      (nodeMachine host).Runs (fun state call => Stable.storesBinary host state call = false)
        (Node.empty fun _ => none) calls log node ∧
      ¬Connects locatorHashes (handleGetHeaders node.storage locatorHashes hashStop) := by
  obtain ⟨log, node, run, _, _, served⟩ := abandoning_run
  refine ⟨Host.ofTables [] [], _, _, _, [secondHash], Digest.zero, run, ?_⟩
  intro connects
  obtain ⟨header, only, fields⟩ := List.map_eq_singleton_iff.mp served
  obtain ⟨height, parent⟩ := Prod.mk.inj fields
  have first := connects.first header (by rw [only]; rfl)
  rw [height, parent, List.mem_singleton] at first
  revert first
  decide

end Abandoned

end PiSecure
