import BusScript.Execution.Machine
import BusScript.Main
import BusScript.Proofs.Containment
import BusScript.Proofs.Escape
import BusScript.Session
import BusScript.Proofs.Action
import BusScript.Proofs.Returning
import BusScript.Proofs.DepthLimit
import BusScript.Proofs.Emission
import BusScript.Proofs.Footprint
import BusScript.Proofs.FailStop
import BusScript.Proofs.Tolerance
import BusScript.Proofs.Provenance
import BusScript.Proofs.Cycle
import BusScript.Proofs.Decimal
import BusScript.Proofs.BigEndian
import BusScript.Proofs.FieldLine
import BusScript.Proofs.Reordering
import BusScript.Proofs.Observation
import BusScript.Proofs.Retention
import BusScript.Proofs.Registry
import BusScript.Proofs.CallRank
import BusScript.Proofs.Pairing
import BusScript.Proofs.Reference
import BusScript.Proofs.Decoding
import BusScript.Proofs.Acceptance
import BusScript.Proofs.Binding
import BusScript.Proofs.Passes
import BusScript.Proofs.Expansion
import BusScript.Proofs.FirstBracket
import BusScript.Proofs.Passing
import BusScript.Proofs.Arithmetic
import BusScript.Proofs.Counters
import BusScript.Proofs.HexText
import BusScript.Proofs.Scratch
import BusScript.Proofs.Library
import BusScript.Proofs.Leftmost
import BusScript.Proofs.Spelling
import BusScript.Proofs.Shelf
