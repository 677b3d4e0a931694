import CoopKernel.Device.Channel
import CoopKernel.Instr.Listing
import CoopKernel.Kernel.Schedule
import CoopKernel.Kernel.Summary
import CoopKernel.Proofs.Signals
import CoopKernel.Proofs.Splitting.Turn
import CoopKernel.Proofs.Waiting.Run
import CoopKernel.Storage.Faulty
import CoopKernel.Volume.Edit
import CoopKernel.Volume.Tree
import CoopKernel.Proofs.Memory.Flat
import CoopKernel.Proofs.Domestic
import CoopKernel.Proofs.Settled
import CoopKernel.Proofs.LoadedBack
import CoopKernel.Proofs.Overreach
import CoopKernel.Proofs.Backing.Run
import CoopKernel.Proofs.Backing.Ending
import CoopKernel.Proofs.Instr.Codec
import CoopKernel.Proofs.Snapshot.Codec
import CoopKernel.Proofs.Custody.Neighbours
import CoopKernel.Proofs.Abreast
import CoopKernel.Proofs.Commuting.Changes
import CoopKernel.Proofs.Commuting.Memory
import CoopKernel.Proofs.Commuting.Turns
import CoopKernel.Proofs.Storage.WellFormed
import CoopKernel.Proofs.Rollback
import CoopKernel.Proofs.Relocating.Run
import CoopKernel.Proofs.Limiting.Files
import CoopKernel.Proofs.Limiting.Kernel
import CoopKernel.Proofs.Limiting.Run
import CoopKernel.Proofs.Ascending
import CoopKernel.Proofs.Waiting.Cascades
import CoopKernel.Proofs.Census.Run
import CoopKernel.Proofs.Outliving.Calls
import CoopKernel.Proofs.Outliving.Step
import CoopKernel.Proofs.Blocking.Run
import CoopKernel.Proofs.Doubling
import CoopKernel.Proofs.Exchanging.Arguments
import CoopKernel.Proofs.Exchanging.Outcome
import CoopKernel.Proofs.Outliving.Run
import CoopKernel.Proofs.Fetching
import CoopKernel.Proofs.Memory.Coherence
import CoopKernel.Proofs.Memory.Growth
import CoopKernel.Proofs.Transfers
import CoopKernel.Proofs.Storage.Mutators
import CoopKernel.Proofs.Storage.Capacity
import CoopKernel.Proofs.Storage.Enumeration
import CoopKernel.Proofs.LastWords.Run
import CoopKernel.Proofs.PathArguments
import CoopKernel.Proofs.Lexing
import CoopKernel.Proofs.Device.Buffered
import CoopKernel.Proofs.Device.Channel
