import Calculator.Cursor
import Calculator.Grammar
import Calculator.Main
import Calculator.Proofs.Branches
import Calculator.Proofs.DepthCounter
import Calculator.Proofs.FaultPlace
import Calculator.Proofs.History
import Calculator.Proofs.Interleaving
import Calculator.Proofs.Listing
import Calculator.Proofs.LongestMatch
import Calculator.Proofs.Lookahead
import Calculator.Proofs.Meaning
import Calculator.Proofs.Moment
import Calculator.Proofs.NamesRead
import Calculator.Proofs.NestingLimit
import Calculator.Proofs.NumberReading
import Calculator.Proofs.NumberShape
import Calculator.Proofs.OrderIndependence
import Calculator.Proofs.Outline
import Calculator.Proofs.Replay
import Calculator.Proofs.Reports
import Calculator.Proofs.Retry
import Calculator.Proofs.Spacing
import Calculator.Proofs.StandardInput
import Calculator.Proofs.TypedScript
import Calculator.Session
