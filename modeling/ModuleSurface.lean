import ModuleSurface.Main
import ModuleSurface.Introspection
import ModuleSurface.Signature.Parse
import ModuleSurface.Proofs.Signature.Grammar
import ModuleSurface.Proofs.Signature.Written
import ModuleSurface.Proofs.Signature.ReadBack
import ModuleSurface.Proofs.Signature.Arrangement
import ModuleSurface.Proofs.Signature.RoundTrip
import ModuleSurface.Proofs.Signature.Accepted
import ModuleSurface.Proofs.Signature.Reprint
import ModuleSurface.Proofs.Json.Literal
import ModuleSurface.Proofs.Json.WriteRead
import ModuleSurface.Proofs.Exchange.RoundTrip
import ModuleSurface.Proofs.Emit.Literal
import ModuleSurface.Proofs.Emit.Docstring
import ModuleSurface.Proofs.Json.Grammar
import ModuleSurface.Proofs.Json.Token
import ModuleSurface.Proofs.Json.Past
import ModuleSurface.Proofs.Json.Reads
import ModuleSurface.Proofs.Json.Slots
import ModuleSurface.Proofs.Json.Once
import ModuleSurface.Proofs.Exchange.Accepted
import ModuleSurface.Proofs.FileTree.Path
import ModuleSurface.Proofs.FileTree.Frame
import ModuleSurface.Proofs.Output.Contained
import ModuleSurface.Proofs.Emit.OutputPath
import ModuleSurface.Proofs.FileTree.Descend
import ModuleSurface.Proofs.Output.Fresh
import ModuleSurface.Proofs.Output.Renders
import ModuleSurface.Proofs.FileTree.Closed
import ModuleSurface.Proofs.FileTree.Overwrite
import ModuleSurface.Proofs.Output.Rewrite
import ModuleSurface.Proofs.Json.Yields
import ModuleSurface.Proofs.Exchange.Canonical
import ModuleSurface.Proofs.Command.Ends
import ModuleSurface.Proofs.Command.Status
import ModuleSurface.Proofs.Command.Touched
import ModuleSurface.Proofs.Command.Format
import ModuleSurface.Proofs.Module.Growth
import ModuleSurface.Proofs.Module.Consistency
import ModuleSurface.Proofs.Signature.Places
import ModuleSurface.Proofs.Signature.Stable
import ModuleSurface.Proofs.Emit.SignatureText
import ModuleSurface.Proofs.Signature.Position
import ModuleSurface.Proofs.Signature.Spacing
import ModuleSurface.Proofs.Output.Emitted
import ModuleSurface.Proofs.Output.Writes
import ModuleSurface.Proofs.Module.Introspection
import ModuleSurface.Proofs.Emit.Undocumented
import ModuleSurface.Proofs.Signature.Characters
import ModuleSurface.Proofs.Emit.Cell
import ModuleSurface.Proofs.Emit.LineEnding
import ModuleSurface.Proofs.Signature.Scans
import ModuleSurface.Proofs.Module.Rearranged
import ModuleSurface.Proofs.Text.Rows
import ModuleSurface.Proofs.Emit.Comment
import ModuleSurface.Proofs.Json.Unique
import ModuleSurface.Proofs.Json.Layout
import ModuleSurface.Proofs.Json.Runs
import ModuleSurface.Proofs.Exchange.Layout
