import PiSecure.Model.Storage

/-! # The block locator

`get_block_locator_hashes`: the hashes by which a peer finds where its chain and
this one part.
-/

namespace PiSecure

namespace Storage

/-- The loop of `get_block_locator_hashes`, from a height down with a step. -/
def locatorLoop (heightToHash : List Digest) (height step : Nat) (positive : 0 < step)
    (locator : List Digest) : List Digest :=
  if 0 < height ∧ locator.length < 10 then
    let locator := locator ++ heightToHash[height]?.toList
    if height < step then locator
    else if locator.length > 10 then
      locatorLoop heightToHash (height - step) (step * 2) (Nat.mul_pos positive Nat.two_pos) locator
    else locatorLoop heightToHash (height - step) step positive locator
  else locator
termination_by height
decreasing_by all_goals exact Nat.sub_lt (And.left ‹0 < height ∧ _›) positive

/-- `get_block_locator_hashes`. -/
def getBlockLocatorHashes (storage : Storage) : List Digest :=
  locatorLoop storage.heightToHash storage.bestHeight 1 Nat.one_pos [] ++
    storage.heightToHash.head?.toList

end Storage

end PiSecure
