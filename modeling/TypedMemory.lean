import TypedMemory.Main
import TypedMemory.Script.Pattern
import TypedMemory.Proofs.ByteOrder
import TypedMemory.Proofs.Effect
import TypedMemory.Proofs.Equality
import TypedMemory.Proofs.Layout
import TypedMemory.Proofs.Struct
import TypedMemory.Proofs.Building
import TypedMemory.Proofs.Report
import TypedMemory.Proofs.Accesses
import TypedMemory.Proofs.Options
import TypedMemory.Proofs.Codec.Shape
import TypedMemory.Proofs.Codec.Stores
import TypedMemory.Proofs.Codec.Validation
import TypedMemory.Proofs.Codec.Plan
import TypedMemory.Proofs.Codec.RoundTrip
import TypedMemory.Proofs.Codec.Footprint
import TypedMemory.Proofs.Codec.Commuting
import TypedMemory.Proofs.Codec.Reading
import TypedMemory.Proofs.Codec.Rewriting
import TypedMemory.Proofs.Codec.TextLaws
import TypedMemory.Proofs.Codec.History
import TypedMemory.Proofs.Codec.Mirroring
import TypedMemory.Proofs.Script.Functions
import TypedMemory.Proofs.Script.Eval
import TypedMemory.Proofs.Script.Numerals
import TypedMemory.Proofs.Script.Placement
import TypedMemory.Proofs.Script.WellLaidOut
import TypedMemory.Proofs.Script.Parsing
import TypedMemory.Proofs.Script.Declaration
import TypedMemory.Proofs.Script.Sequence
import TypedMemory.Proofs.Script.Bindings
import TypedMemory.Proofs.Script.Outcome
import TypedMemory.Proofs.Script.History
import TypedMemory.Proofs.Script.Spans
import TypedMemory.Proofs.Script.Pointers
import TypedMemory.Proofs.Script.Spacing
import TypedMemory.Proofs.Script.Matching
import TypedMemory.Proofs.Script.Describing
import TypedMemory.Proofs.Rendering
import TypedMemory.Proofs.Script.Readable
import TypedMemory.Proofs.Script.Literals
import TypedMemory.Proofs.Script.Stream
import TypedMemory.Proofs.Script.Slices
import TypedMemory.Proofs.Script.Statements
import TypedMemory.Proofs.Command.Saving
