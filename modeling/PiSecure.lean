import PiSecure.General.Climb
import PiSecure.General.Decimal
import PiSecure.General.Exchange
import PiSecure.General.Framing
import PiSecure.General.Heaviest
import PiSecure.General.Intake
import PiSecure.General.Json
import PiSecure.General.JsonSize
import PiSecure.General.Ledger
import PiSecure.General.Merkle
import PiSecure.General.NearestLog
import PiSecure.General.Network
import PiSecure.General.Outcome
import PiSecure.General.Precedence
import PiSecure.General.Reading
import PiSecure.General.Registry
import PiSecure.General.Run
import PiSecure.General.Scan
import PiSecure.General.Sha256
import PiSecure.General.Sha256Blocks
import PiSecure.General.Words
import PiSecure.Model.AddrMan
import PiSecure.Model.Amount
import PiSecure.Model.BlockFiles
import PiSecure.Model.Branches
import PiSecure.Model.Chain
import PiSecure.Model.Codec
import PiSecure.Model.Coinbase
import PiSecure.Model.Connections
import PiSecure.Model.Flags
import PiSecure.Model.Frames
import PiSecure.Model.HashContext
import PiSecure.Model.Host
import PiSecure.Model.Locator
import PiSecure.Model.Machine
import PiSecure.Model.Names
import PiSecure.Model.Node
import PiSecure.Model.Peer
import PiSecure.Model.PiHash
import PiSecure.Model.Purse
import PiSecure.Model.Queries
import PiSecure.Model.Release
import PiSecure.Model.Retarget
import PiSecure.Model.Rpc
import PiSecure.Model.Session
import PiSecure.Model.Spend
import PiSecure.Model.Storage
import PiSecure.Model.Submit
import PiSecure.Model.Transaction
import PiSecure.Model.Wallet
import PiSecure.Model.WebSocket
import PiSecure.Model.Wire
import PiSecure.Model.Work
import PiSecure.Theory.Acceptance
import PiSecure.Theory.ActiveChain
import PiSecure.Theory.AddrMan
import PiSecure.Theory.Amounts
import PiSecure.Theory.Application
import PiSecure.Theory.Backing
import PiSecure.Theory.Balance
import PiSecure.Theory.BlockFiles
import PiSecure.Theory.Books
import PiSecure.Theory.Bounty
import PiSecure.Theory.BranchChoice
import PiSecure.Theory.Canonical
import PiSecure.Theory.CatchUp
import PiSecure.Theory.Challenges
import PiSecure.Theory.CoinChoice
import PiSecure.Theory.CoinbaseBytes
import PiSecure.Theory.Commitment
import PiSecure.Theory.Connections
import PiSecure.Theory.CrashRecovery
import PiSecure.Theory.Decoding
import PiSecure.Theory.Disk
import PiSecure.Theory.DoubleSpend
import PiSecure.Theory.Download
import PiSecure.Theory.Duplicate
import PiSecure.Theory.Emission
import PiSecure.Theory.Escrow
import PiSecure.Theory.ExactCoinbase
import PiSecure.Theory.Finalizer
import PiSecure.Theory.FlagRules
import PiSecure.Theory.FlagSources
import PiSecure.Theory.Forks
import PiSecure.Theory.Frames
import PiSecure.Theory.Handshake
import PiSecure.Theory.HashContext
import PiSecure.Theory.HeightIndex
import PiSecure.Theory.HeldBodies
import PiSecure.Theory.Integrity
import PiSecure.Theory.LateBlocks
import PiSecure.Theory.Linear
import PiSecure.Theory.Link
import PiSecure.Theory.LocalState
import PiSecure.Theory.Locator
import PiSecure.Theory.LongestChain
import PiSecure.Theory.Lookup
import PiSecure.Theory.MerkleRoot
import PiSecure.Theory.Mining
import PiSecure.Theory.NameAgreement
import PiSecure.Theory.NameRegistry
import PiSecure.Theory.NameTable
import PiSecure.Theory.Ordering
import PiSecure.Theory.Ownership
import PiSecure.Theory.Parse
import PiSecure.Theory.Parts
import PiSecure.Theory.Payment
import PiSecure.Theory.PeerTx
import PiSecure.Theory.Pool
import PiSecure.Theory.Provenance
import PiSecure.Theory.Purse
import PiSecure.Theory.PurseRuns
import PiSecure.Theory.ReEncoding
import PiSecure.Theory.Registration
import PiSecure.Theory.Rejection
import PiSecure.Theory.Relay
import PiSecure.Theory.Release
import PiSecure.Theory.Reparse
import PiSecure.Theory.Replay
import PiSecure.Theory.Repricing
import PiSecure.Theory.Restart
import PiSecure.Theory.Retarget
import PiSecure.Theory.RoundTrip
import PiSecure.Theory.Selection
import PiSecure.Theory.ServedHeaders
import PiSecure.Theory.ServerNode
import PiSecure.Theory.Session
import PiSecure.Theory.Spending
import PiSecure.Theory.Spread
import PiSecure.Theory.Stability
import PiSecure.Theory.StaleBlock
import PiSecure.Theory.Stored
import PiSecure.Theory.Submission
import PiSecure.Theory.Sums
import PiSecure.Theory.Supply
import PiSecure.Theory.Update
import PiSecure.Theory.Wallet
import PiSecure.Theory.WebSocket
import PiSecure.Theory.Wire
import PiSecure.Theory.Work
