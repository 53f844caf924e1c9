import SimpleMachine.Machine.Session
import SimpleMachine.Run
import SimpleMachine.Main
import SimpleMachine.Proofs.Refinement
import SimpleMachine.Proofs.Atomicity
import SimpleMachine.Proofs.Faults
import SimpleMachine.Proofs.Invariant
import SimpleMachine.Proofs.Installation
import SimpleMachine.Proofs.WellFormed
import SimpleMachine.Proofs.Strictness
import SimpleMachine.Proofs.Rereading
import SimpleMachine.Proofs.Leniency
import SimpleMachine.Proofs.Containment
import SimpleMachine.Proofs.LineEnds
import SimpleMachine.Proofs.Simulation
import SimpleMachine.Proofs.Transparency
import SimpleMachine.Proofs.Composition
import SimpleMachine.Proofs.Budget
import SimpleMachine.Proofs.Showing
import SimpleMachine.Proofs.Preparation
import SimpleMachine.Proofs.ExitCodes
import SimpleMachine.Proofs.Arguments
import SimpleMachine.Proofs.Assignments
import SimpleMachine.Proofs.Agreement
import SimpleMachine.Proofs.Meaning
import SimpleMachine.Proofs.Reference
import SimpleMachine.Proofs.Renaming
import SimpleMachine.Proofs.Wrapping
import SimpleMachine.Proofs.Forward
import SimpleMachine.Proofs.Enlargement
import SimpleMachine.Proofs.Layout
import SimpleMachine.Proofs.Tracing
import SimpleMachine.Proofs.Tokens
import SimpleMachine.Proofs.Decoding
import SimpleMachine.Proofs.Factorial
import SimpleMachine.Proofs.PrintedBank
import SimpleMachine.Proofs.Decimals
