import MessageCode.Main
import MessageCode.Code.Script
import MessageCode.Proofs.Code.Recorded
import MessageCode.Proofs.Code.Assembled
import MessageCode.Proofs.Machine.Exec
import MessageCode.Proofs.Machine.Points
import MessageCode.Proofs.Machine.Confined
import MessageCode.Proofs.Machine.Discipline
import MessageCode.Proofs.Code.Path
import MessageCode.Proofs.Code.Locals
import MessageCode.Proofs.Machine.Conforms
import MessageCode.Proofs.Machine.Sound
import MessageCode.Proofs.Machine.Soundness
import MessageCode.Proofs.Fallible
import MessageCode.Proofs.Schema.Loaded
import MessageCode.Proofs.Generate.Turns
import MessageCode.Proofs.Machine.Logical
import MessageCode.Proofs.Generate.Value
import MessageCode.Proofs.Generate.Interpret
import MessageCode.Proofs.Schema.Names
import MessageCode.Proofs.Generate.Access
import MessageCode.Proofs.Machine.Isolated
import MessageCode.Proofs.Machine.Mirror
import MessageCode.Proofs.Machine.Spliced
import MessageCode.Proofs.Code.Mentioned
import MessageCode.Proofs.Code.Interchange
import MessageCode.Proofs.Schema.WellFormed
import MessageCode.Proofs.Schema.Accepted
import MessageCode.Proofs.Schema.Resolved
import MessageCode.Proofs.Schema.Accessors
import MessageCode.Proofs.Machine.Identifiers
import MessageCode.Proofs.Generate.Total
import MessageCode.Proofs.Generate.Coerce
import MessageCode.Proofs.Generate.Proper
import MessageCode.Proofs.Generate.Filling
import MessageCode.Proofs.Generate.Deposits
import MessageCode.Proofs.Generate.Stores
import MessageCode.Proofs.Generate.Fills
import MessageCode.Proofs.Generate.Counted
import MessageCode.Proofs.Generate.AddAll
import MessageCode.Proofs.Generate.Construct
import MessageCode.Proofs.Text.Base64
import MessageCode.Proofs.Generate.Restacks
import MessageCode.Proofs.Generate.Admitted
import MessageCode.Proofs.Generate.Held
import MessageCode.Proofs.Generate.Refused
import MessageCode.Proofs.Generate.Offered
import MessageCode.Proofs.Generate.ReadBack
import MessageCode.Proofs.Generate.Narrowed
import MessageCode.Proofs.Machine.Policy
import MessageCode.Proofs.Machine.Policy.Native
import MessageCode.Proofs.Machine.Policy.Law
import MessageCode.Proofs.Machine.Reachable
import MessageCode.Proofs.Generate.Presence
import MessageCode.Proofs.Machine.Placed
import MessageCode.Proofs.Machine.Homed
import MessageCode.Proofs.Machine.Orderly
import MessageCode.Proofs.Generate.Built
import MessageCode.Proofs.Generate.Written
import MessageCode.Proofs.Command.Literal
import MessageCode.Proofs.Command.Construct
import MessageCode.Proofs.Generate.ByName
import MessageCode.Proofs.Code.Labels
import MessageCode.Proofs.Machine.Flat
import MessageCode.Proofs.Machine.Quiet
import MessageCode.Proofs.Generate.Coerced
import MessageCode.Proofs.Generate.Visits
import MessageCode.Proofs.Generate.Rounds
import MessageCode.Proofs.Generate.Handed
import MessageCode.Proofs.Generate.Sanitized
import MessageCode.Proofs.Generate.Wrapped
import MessageCode.Proofs.Machine.Present
import MessageCode.Proofs.Generate.Generated
import MessageCode.Proofs.Generate.Marked
import MessageCode.Proofs.Generate.Boxing
import MessageCode.Proofs.Machine.Ascending
import MessageCode.Proofs.Machine.Mutations
import MessageCode.Proofs.Code.Supertypes
import MessageCode.Proofs.Machine.Upcasts
import MessageCode.Proofs.Command.Quoted
import MessageCode.Proofs.Schema.Permuted
import MessageCode.Proofs.Code.Refusal
import MessageCode.Proofs.Code.Numbering
