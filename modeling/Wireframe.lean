import Wireframe.Command.Run
import Wireframe.Main
import Wireframe.Source.Builder
import Wireframe.Width.Pieces
import Wireframe.Proofs.Dump.RoundTrip
import Wireframe.Proofs.Dump.Reload
import Wireframe.Proofs.Json.Parse
import Wireframe.Proofs.Json.Limit
import Wireframe.Proofs.Json.Token
import Wireframe.Proofs.Node.Address
import Wireframe.Proofs.Node.Replace
import Wireframe.Proofs.Source.Canonical
import Wireframe.Proofs.Source.Header
import Wireframe.Proofs.Source.Naming
import Wireframe.Proofs.Source.Nesting
import Wireframe.Proofs.Source.Outline
import Wireframe.Proofs.Source.Parse
import Wireframe.Proofs.Source.Print
import Wireframe.Proofs.Source.Scope
import Wireframe.Proofs.Source.Draft
import Wireframe.Proofs.Source.Builder
import Wireframe.Proofs.Source.Building
import Wireframe.Proofs.Source.Fault
import Wireframe.Proofs.Source.Order
import Wireframe.Proofs.Source.Reading
import Wireframe.Proofs.Source.Relabel
import Wireframe.Proofs.Source.Group
import Wireframe.Proofs.Page.Document
import Wireframe.Proofs.Page.Skeleton
import Wireframe.Proofs.Text.Ink
import Wireframe.Proofs.Text.LineEnd
import Wireframe.Proofs.Text.Split
import Wireframe.Proofs.Width.Simple
import Wireframe.Proofs.Width.Wrap
import Wireframe.Proofs.Row.Plain
import Wireframe.Proofs.Layout.Room
import Wireframe.Proofs.Layout.Content
import Wireframe.Proofs.Layout.Overflow
import Wireframe.Proofs.Layout.Clean
import Wireframe.Proofs.Layout.Alike
import Wireframe.Proofs.Layout.Turns
import Wireframe.Proofs.Layout.Nested
import Wireframe.Proofs.Command.Save
import Wireframe.Proofs.File.Planning
import Wireframe.Proofs.Layout.Nudging
import Wireframe.Proofs.Layout.Rectangle
import Wireframe.Proofs.Width.Padding
import Wireframe.Proofs.Width.Packing
import Wireframe.Proofs.Width.Rewrap
import Wireframe.Proofs.Width.Pieces
import Wireframe.Proofs.Layout.Beside
import Wireframe.Proofs.Row.Pipes
import Wireframe.Proofs.Row.Quoted
import Wireframe.Proofs.Row.Form
import Wireframe.Proofs.Row.Prose
import Wireframe.Proofs.Page.Table
import Wireframe.Proofs.Page.Widget
import Wireframe.Proofs.Page.Name
