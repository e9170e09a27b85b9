import SC32.Command.FileSystem
import SC32.Main
import SC32.Proofs.Instruction.Codec
import SC32.Proofs.Machine.Reference
import SC32.Proofs.Machine.Step
import SC32.Proofs.Outcome
import SC32.Proofs.Text.Numeral
import SC32.Proofs.Assembly.Meaning
import SC32.Proofs.Assembly.Passes
import SC32.Proofs.Assembly.Exact
import SC32.Proofs.Assembly.Execution
import SC32.Proofs.Machine.History
import SC32.Proofs.Machine.Observation
import SC32.Proofs.Machine.ObservedRun
import SC32.Proofs.MachineCode.RoundTrip
import SC32.Proofs.MachineCode.Reading
import SC32.Proofs.Assembly.FirstFault
import SC32.Proofs.Assembly.Concatenation
import SC32.Proofs.Assembly.Intact
import SC32.Proofs.BitString
import SC32.Proofs.Field.Values
import SC32.Proofs.Field.Strings
import SC32.Proofs.Field.Partition
import SC32.Proofs.Text.Colour
import SC32.Proofs.Text.Tokens
import SC32.Proofs.Instruction.Display
import SC32.Proofs.Assembly.Columns
import SC32.Proofs.Assembly.Listing
import SC32.Proofs.Assembly.Unlabelled
import SC32.Proofs.Machine.Extension
import SC32.Proofs.Machine.Resumption
import SC32.Proofs.Machine.Forward
import SC32.Proofs.Machine.Recurrence
import SC32.Proofs.Machine.Attribution
import SC32.Proofs.Machine.WatchRows
import SC32.Proofs.Machine.Transcript
import SC32.Proofs.Machine.Snapshot
import SC32.Proofs.Machine.Addresses
import SC32.Proofs.Assembly.Correspondence
import SC32.Proofs.Text.Substitution
import SC32.Proofs.Assembly.Renaming
import SC32.Proofs.Assembly.Unused
import SC32.Proofs.Assembly.Layout
import SC32.Proofs.Assembly.Grammar
import SC32.Proofs.Assembly.Table
import SC32.Proofs.Assembly.Rows
import SC32.Proofs.Command.Disk
import SC32.Proofs.Command.AllOrNothing
import SC32.Proofs.Command.Pipeline
