import TapeMachine.Command.Folder
import TapeMachine.Main
import TapeMachine.Proofs.Command.Agreement
import TapeMachine.Proofs.Machine.Debug
import TapeMachine.Proofs.Machine.Normal
import TapeMachine.Proofs.Machine.Termination
import TapeMachine.Proofs.Source.Language
import TapeMachine.Proofs.Source.LineEnding
import TapeMachine.Proofs.Source.Layout
import TapeMachine.Proofs.Source.Resolution
import TapeMachine.Proofs.Source.RoundTrip
import TapeMachine.Proofs.Source.Unspaced
import TapeMachine.Proofs.Source.Walk
import TapeMachine.Proofs.Source.Written
import TapeMachine.Proofs.Tape.Infinite
import TapeMachine.Proofs.Machine.Range
import TapeMachine.Proofs.Machine.Trace
import TapeMachine.Proofs.Machine.StraightLine
import TapeMachine.Proofs.Source.OneScan
import TapeMachine.Proofs.Machine.Output
import TapeMachine.Proofs.Machine.Padding
import TapeMachine.Proofs.Source.Canonical
import TapeMachine.Proofs.Machine.CutOff
import TapeMachine.Proofs.Source.Oversized
