import YiimpStratum.Library.BigEndian
import YiimpStratum.Library.Run
import YiimpStratum.Library.MerkleTree
import YiimpStratum.Library.CompactSize
import YiimpStratum.Library.CompactTarget
import YiimpStratum.Library.Transaction
import YiimpStratum.Library.CharArray
import YiimpStratum.Library.Delimited
import YiimpStratum.Library.Quoted
import YiimpStratum.Library.DoublyLinked
import YiimpStratum.Library.Sha256
import YiimpStratum.Library.AdjacentSwaps
import YiimpStratum.Object
import YiimpStratum.Lists.CommonList
import YiimpStratum.Lists.Invariant
import YiimpStratum.Lists.Sequence
import YiimpStratum.Lists.Prune
import YiimpStratum.Lists.Sort
import YiimpStratum.Lists.JobSort
import YiimpStratum.Lists.CoindSort
import YiimpStratum.Template.Filter
import YiimpStratum.Util.Hex
import YiimpStratum.Util.Words
import YiimpStratum.Util.HexText
import YiimpStratum.Util.Base58
import YiimpStratum.Util.Difficulty
import YiimpStratum.Util.Strings
import YiimpStratum.Util.Double
import YiimpStratum.Util.Json
import YiimpStratum.Equihash.ExpandArray
import YiimpStratum.Equihash.Verify
import YiimpStratum.Equihash.Solution
import YiimpStratum.Difficulty.NetworkTarget
import YiimpStratum.Difficulty.ShareTarget
import YiimpStratum.Difficulty.ShareTest
import YiimpStratum.Template.Merkle
import YiimpStratum.Template.MerkleRoot
import YiimpStratum.Template.Create
import YiimpStratum.Share
import YiimpStratum.Submit.Values
import YiimpStratum.Submit.SameHeader
import YiimpStratum.Submit.Handler
import YiimpStratum.Submit.Layout
import YiimpStratum.Submit.Standard
import YiimpStratum.Submit.History
import YiimpStratum.Submit.Duplicates
import YiimpStratum.Submit.Encoding
import YiimpStratum.Submit.PaidOnce
import YiimpStratum.Submit.Buffers
import YiimpStratum.Submit.Block
import YiimpStratum.Submit.Decred
import YiimpStratum.Submit.DecredPaid
import YiimpStratum.Submit.TimeRolling
import YiimpStratum.Difficulty.Window
import YiimpStratum.Client.Lifetime
import YiimpStratum.Client.Multialgo
import YiimpStratum.Client.Redirected
import YiimpStratum.Job.Handlers
import YiimpStratum.Job.LockCount
import YiimpStratum.Job.References
import YiimpStratum.Assign.Clients
import YiimpStratum.Assign.Careful
import YiimpStratum.Assign.Quiet
import YiimpStratum.Assign.Nonces
import YiimpStratum.Assign.Passes
import YiimpStratum.Assign.Capacity
import YiimpStratum.Assign.Overflow
import YiimpStratum.Difficulty.Announced
import YiimpStratum.Difficulty.Bounds
import YiimpStratum.Difficulty.Compact
import YiimpStratum.Difficulty.RoundTrip
import YiimpStratum.Merged.Auxs
import YiimpStratum.Merged.Proofs
import YiimpStratum.Merged.Slots
import YiimpStratum.Merged.Branches
import YiimpStratum.Remote.Proxy
import YiimpStratum.Remote.Jobs
import YiimpStratum.Remote.Forward
import YiimpStratum.Remote.Reference
import YiimpStratum.Remote.ReferenceKept
import YiimpStratum.Block.Notify
import YiimpStratum.Block.Confirmed
import YiimpStratum.Block.Prune
import YiimpStratum.Block.Listed
import YiimpStratum.Block.Recorded
import YiimpStratum.Worker.Credit
import YiimpStratum.Worker.Conserved
import YiimpStratum.Coinbase.Create
import YiimpStratum.Coinbase.Exact
import YiimpStratum.Coinbase.Cases
import YiimpStratum.Coinbase.Parse
import YiimpStratum.Coinbase.Conserved
import YiimpStratum.Coinbase.Height
import YiimpStratum.User.Login
import YiimpStratum.User.Safe
import YiimpStratum.Stats.Store
import YiimpStratum.Stats.WellFormed
import YiimpStratum.Dispatch.Request
import YiimpStratum.Dispatch.Typed
import YiimpStratum.Socket.Nextjson
import YiimpStratum.Socket.Framing
import YiimpStratum.Job.Kept
import YiimpStratum.Job.SameWork
import YiimpStratum.Util.Base64
import YiimpStratum.Parse.Machine
import YiimpStratum.Parse.Grammar
import YiimpStratum.Parse.Layout
import YiimpStratum.Parse.Moves
import YiimpStratum.Parse.Number
import YiimpStratum.Parse.Measure
import YiimpStratum.Parse.Fill
import YiimpStratum.Parse.ReadBack
import YiimpStratum.Parse.Demand
import YiimpStratum.Parse.Safe
import YiimpStratum.Parse.Accepted
import YiimpStratum.Parse.Free
import YiimpStratum.Parse.Unicode
import YiimpStratum.Algos.Sha256
import YiimpStratum.Algos.Sha256Rounds
import YiimpStratum.Algos.Sha256Stream
import YiimpStratum.Template.MerkleSha256
import YiimpStratum.Rpc.Call
import YiimpStratum.Rpc.Response
import YiimpStratum.Rpc.Parsed
import YiimpStratum.Client.Thread
import YiimpStratum.Daemon.Submit
