import TypedSexp.Bridge
import TypedSexp.CommandLine.Arguments
import TypedSexp.CommandLine.Options
import TypedSexp.CommandLine.Path
import TypedSexp.CommandLine.Run
import TypedSexp.Conversion.Basic
import TypedSexp.Conversion.Carrier
import TypedSexp.Conversion.Entries
import TypedSexp.Conversion.Read
import TypedSexp.Conversion.Write
import TypedSexp.Converter.Basic
import TypedSexp.Converter.Builtin
import TypedSexp.Converter.Textual
import TypedSexp.Derivation.Basic
import TypedSexp.Derivation.Build
import TypedSexp.Derivation.Derive
import TypedSexp.Description.Basic
import TypedSexp.Description.Equality
import TypedSexp.Description.Fault
import TypedSexp.Description.Head
import TypedSexp.Description.Size
import TypedSexp.Diagnostic.Basic
import TypedSexp.Diagnostic.Failure
import TypedSexp.Diagnostic.Styled
import TypedSexp.Document
import TypedSexp.Environment
import TypedSexp.Exception.Known
import TypedSexp.Exception.Lineage
import TypedSexp.Exception.Raised
import TypedSexp.Exception.Registry
import TypedSexp.Main
import TypedSexp.Number.Binary64
import TypedSexp.Number.Column
import TypedSexp.Number.Decimal
import TypedSexp.Number.Digit
import TypedSexp.Number.Spelling
import TypedSexp.Sexp.Atom
import TypedSexp.Sexp.Basic
import TypedSexp.Sexp.Draft
import TypedSexp.Sexp.Location
import TypedSexp.Sexp.Node
import TypedSexp.Sexp.Printer
import TypedSexp.Sexp.Reading
import TypedSexp.Sexp.Slice
import TypedSexp.Sexp.Token
import TypedSexp.Switches
import TypedSexp.Text.Basic
import TypedSexp.Text.Blank
import TypedSexp.Text.CaseFold
import TypedSexp.Text.DecimalDigit
import TypedSexp.Text.Hex
import TypedSexp.Text.Literal
import TypedSexp.Text.Printable
import TypedSexp.Text.Ranges
import TypedSexp.Text.Utf8
import TypedSexp.Value.ArrayText
import TypedSexp.Value.Attribute
import TypedSexp.Value.Basic
import TypedSexp.Value.Equality
import TypedSexp.Value.Fault
import TypedSexp.Value.Literal
import TypedSexp.Value.Lookup
import TypedSexp.Value.Sequence
import TypedSexp.Value.Shape
import TypedSexp.Value.Storage
import TypedSexp.Proofs.Lists
import TypedSexp.Proofs.Value.Likeness
import TypedSexp.Proofs.Value.Comparison
import TypedSexp.Proofs.Value.Storage
import TypedSexp.Proofs.Number.Rounding
import TypedSexp.Proofs.Number.Digits
import TypedSexp.Proofs.Number.Integers
import TypedSexp.Proofs.Sexp.Grammar
import TypedSexp.Proofs.Sexp.Scanning
import TypedSexp.Proofs.Sexp.Assembly
import TypedSexp.Proofs.Sexp.Acceptance
import TypedSexp.Proofs.Sexp.Escape
import TypedSexp.Proofs.Sexp.RoundTrip
import TypedSexp.Proofs.Text.Utf8
import TypedSexp.Proofs.Sexp.Sources
import TypedSexp.Proofs.Sexp.Resumption
import TypedSexp.Proofs.Sexp.Places
import TypedSexp.Proofs.Description.Heads
import TypedSexp.Proofs.Derivation.Built
import TypedSexp.Proofs.Derivation.Parts
import TypedSexp.Proofs.Derivation.Coil
import TypedSexp.Proofs.Derivation.Ledger
import TypedSexp.Proofs.Derivation.Sound
import TypedSexp.Proofs.Derivation.Inversion
import TypedSexp.Proofs.Derivation.Define
import TypedSexp.Proofs.Derivation.Session
import TypedSexp.Proofs.Derivation.Realises
import TypedSexp.Proofs.Derivation.Links
import TypedSexp.Proofs.Derivation.Accepts
import TypedSexp.Proofs.Conversion.Resolve
import TypedSexp.Proofs.Conversion.Settle
import TypedSexp.Proofs.Conversion.Levels
import TypedSexp.Proofs.Conversion.Builtin
import TypedSexp.Proofs.Conversion.Sequence
import TypedSexp.Proofs.Conversion.Field
import TypedSexp.Proofs.Conversion.Record
import TypedSexp.Proofs.Conversion.Variant
import TypedSexp.Proofs.Description.Comparison
import TypedSexp.Proofs.Conversion.Trips
import TypedSexp.Proofs.Conversion.Absence
import TypedSexp.Proofs.Conversion.Typed
import TypedSexp.Proofs.Conversion.RoundTrip
import TypedSexp.Proofs.Conversion.Dropping
import TypedSexp.Proofs.Results
import TypedSexp.Proofs.Description.Regular
import TypedSexp.Proofs.Description.Typing
import TypedSexp.Proofs.Conversion.Taken
import TypedSexp.Proofs.Conversion.Regular
import TypedSexp.Proofs.Conversion.Reading
import TypedSexp.Proofs.Conversion.Normal
import TypedSexp.Proofs.Conversion.Carrier
import TypedSexp.Proofs.Conversion.Agreement
import TypedSexp.Proofs.Conversion.Course
import TypedSexp.Proofs.Conversion.Independence
import TypedSexp.Proofs.Conversion.Live
import TypedSexp.Proofs.Derivation.Refusal
import TypedSexp.Proofs.Derivation.Reliable
import TypedSexp.Proofs.Conversion.Concord
import TypedSexp.Proofs.Conversion.Descent
import TypedSexp.Proofs.Conversion.Leniency
import TypedSexp.Proofs.Conversion.Memory
import TypedSexp.Proofs.Conversion.Reach
import TypedSexp.Proofs.Conversion.Refused
import TypedSexp.Proofs.Conversion.Spelled
import TypedSexp.Proofs.Conversion.Stops
import TypedSexp.Proofs.Conversion.Substitution
import TypedSexp.Proofs.Conversion.Total
import TypedSexp.Proofs.Conversion.Twin
import TypedSexp.Proofs.Conversion.Unfolding
import TypedSexp.Proofs.Conversion.Walk
import TypedSexp.Proofs.Derivation.Givens
import TypedSexp.Proofs.Derivation.History
import TypedSexp.Proofs.Derivation.Steps
import TypedSexp.Proofs.Description.Replacement
import TypedSexp.Proofs.Number.Bases
import TypedSexp.Proofs.Document
import TypedSexp.Proofs.CommandLine
import TypedSexp.Proofs.Conversion.Entries
import TypedSexp.Proofs.Conversion.Filled
import TypedSexp.Proofs.Exception.Registry
import TypedSexp.Proofs.Conversion.Tags
import TypedSexp.Proofs.Conversion.Choice
import TypedSexp.Proofs.Conversion.Reordering
import TypedSexp.Proofs.Conversion.ByName
import TypedSexp.Proofs.Conversion.Arguments
import TypedSexp.Proofs.Conversion.Rewriting
import TypedSexp.Proofs.Conversion.Presence
import TypedSexp.Proofs.Sexp.Faults
import TypedSexp.Proofs.Sexp.Appending
import TypedSexp.Proofs.Conversion.Bounds
import TypedSexp.Proofs.Conversion.Lost
import TypedSexp.Proofs.Sexp.Fitting
import TypedSexp.Proofs.Sexp.Width
import TypedSexp.Proofs.Value.Exactness
import TypedSexp.Proofs.Conversion.Inheritance
import TypedSexp.Proofs.Number.Numerals
import TypedSexp.Proofs.Exception.Lineage
import TypedSexp.Proofs.Exception.Lookup
import TypedSexp.Proofs.Diagnostic.Color
import TypedSexp.Proofs.Sexp.Lines
import TypedSexp.Proofs.Diagnostic.Carets
import TypedSexp.Proofs.Switches
import TypedSexp.Proofs.Sexp.Quoting
import TypedSexp.Proofs.Bridge
import TypedSexp.Proofs.Description.Occurrences
import TypedSexp.Proofs.Derivation.Desk
import TypedSexp.Proofs.Derivation.Noted
import TypedSexp.Proofs.Derivation.Ending
