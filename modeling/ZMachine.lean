import ZMachine.CommandLine
import ZMachine.Main
import ZMachine.Proofs.CommandLine
import ZMachine.Proofs.Dictionary.Keys
import ZMachine.Proofs.Dictionary.Tokens
import ZMachine.Proofs.Host.Recorded
import ZMachine.Proofs.Instruction.Exactness
import ZMachine.Proofs.Interpreter.Capture
import ZMachine.Proofs.Interpreter.Companions
import ZMachine.Proofs.Interpreter.Conversation
import ZMachine.Proofs.Interpreter.Depth
import ZMachine.Proofs.Interpreter.HostCall
import ZMachine.Proofs.Interpreter.Isolation
import ZMachine.Proofs.Interpreter.LimitedRun
import ZMachine.Proofs.Interpreter.Limits
import ZMachine.Proofs.Interpreter.Outcome
import ZMachine.Proofs.Interpreter.Recoding
import ZMachine.Proofs.Interpreter.Refusal
import ZMachine.Proofs.Interpreter.Restart
import ZMachine.Proofs.Interpreter.SavedState
import ZMachine.Proofs.Interpreter.Suspension
import ZMachine.Proofs.Interpreter.Unlimited
import ZMachine.Proofs.Interpreter.Unseen
import ZMachine.Proofs.Machine.Cells
import ZMachine.Proofs.ObjectTree.Damage
import ZMachine.Proofs.ObjectTree.Fields
import ZMachine.Proofs.ObjectTree.Moves
import ZMachine.Proofs.Property.Operations
import ZMachine.Proofs.Random
import ZMachine.Proofs.Snapshot.Padding
import ZMachine.Proofs.Snapshot.Pieces
import ZMachine.Proofs.Snapshot.RoundTrip
import ZMachine.Proofs.Snapshot.StoreMarks
