import JamScript.Common.LittleEndian
import JamScript.Common.Parser
import JamScript.Common.Fields
import JamScript.Common.Program
import JamScript.Common.Overlay
import JamScript.Core.Wire
import JamScript.Core.Natural
import JamScript.Core.GuestMemory
import JamScript.Core.Records
import JamScript.Core.RefineOutput
import JamScript.Core.OutputDecoders
import JamScript.Auth.Ownership
import JamScript.Auth.Crypto
import JamScript.Auth.SignedAction
import JamScript.Auth.Envelopes
import JamScript.Auth.Management
import JamScript.Auth.Base64
import JamScript.Auth.Binding
import JamScript.Core.Context
import JamScript.State.ProofState
import JamScript.State.LeafTrie
import JamScript.Guest.Refine
import JamScript.Guest.Batch
import JamScript.Guest.Descriptor
import JamScript.Guest.Authentication
import JamScript.Guest.Nonces
import JamScript.Guest.Observer
import JamScript.Guest.Accumulate
import JamScript.Guest.Allocator
import JamScript.Guest.ExternalReads
import JamScript.Guest.WitnessIndependence
import JamScript.Guest.Replay
import JamScript.Guest.History
import JamScript.Guest.Planner
import JamScript.Guest.DescriptorPlanning
import JamScript.Host.Planning
import JamScript.Core.RefineInput
import JamScript.Guest.EntryPoints
import JamScript.Backend.SubmitActions
import JamScript.Guest.Generated
import JamScript.Common.SortedTable
import JamScript.ScriptC.StateRuntime
import JamScript.ScriptC.ActionEntry
import JamScript.ScriptC.Blake2b
import JamScript.Common.Snapshots
import JamScript.State.FullState
import JamScript.Common.OrderedKeys
import JamScript.Backend.Requests
import JamScript.Backend.Http
import JamScript.Backend.Coordinator
import JamScript.Backend.Conservation
import JamScript.Backend.Coordination
import JamScript.Backend.CoBatching
import JamScript.Backend.State
import JamScript.Backend.HeadChain
import JamScript.Backend.Isolation
import JamScript.Client.Crypto
import JamScript.Common.Runs
import JamScript.Common.Tails
import JamScript.Client.NonceLanes
import JamScript.Client.WalletLane
import JamScript.Client.OwnershipLane
import JamScript.Client.LaneGuarantees
import JamScript.Core.Reencoding
import JamScript.Common.Agreement
import JamScript.Common.Inverse
import JamScript.Common.Delimited
import JamScript.Abi.Types
import JamScript.Abi.Names
import JamScript.Abi.Codec
import JamScript.Auth.Matrix
