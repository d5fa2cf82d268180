import VectorPage.Affine
import VectorPage.Association
import VectorPage.Color
import VectorPage.CommandLine
import VectorPage.Conversion
import VectorPage.Document.BoundingBox
import VectorPage.Document.Page
import VectorPage.Files.Name
import VectorPage.Files.Store
import VectorPage.Files.Tree
import VectorPage.Graphics
import VectorPage.Literal
import VectorPage.Machine.Appearance
import VectorPage.Machine.Basic
import VectorPage.Machine.Construction
import VectorPage.Machine.Operands
import VectorPage.Machine.Painting
import VectorPage.Machine.Run
import VectorPage.Main
import VectorPage.Number.Angle
import VectorPage.Number.Exact
import VectorPage.Number.Fixed
import VectorPage.Number.Numeral
import VectorPage.Operator
import VectorPage.Path
import VectorPage.Picture
import VectorPage.Stream
import VectorPage.Text.Blank
import VectorPage.Text.Json
import VectorPage.Text.Markup
import VectorPage.Text.Octets
import VectorPage.Text.Run
import VectorPage.Token.Basic
import VectorPage.Token.Lexer
import VectorPage.Value
import VectorPage.Proofs.Boundaries
import VectorPage.Proofs.Effects
import VectorPage.Proofs.Inlining
import VectorPage.Proofs.ClipChain
import VectorPage.Proofs.Moves
import VectorPage.Proofs.Drawing
import VectorPage.Proofs.SaveRestore
import VectorPage.Proofs.Identifiers
import VectorPage.Proofs.References
import VectorPage.Proofs.Segments
import VectorPage.Proofs.Bounds
import VectorPage.Proofs.Limits
import VectorPage.Proofs.Grammar
import VectorPage.Proofs.Storing
import VectorPage.Proofs.Literals
import VectorPage.Proofs.Numerals
import VectorPage.Proofs.Strings
import VectorPage.Proofs.Lexemes
import VectorPage.Proofs.Segmentation
import VectorPage.Proofs.Printing
import VectorPage.Proofs.Splitting
import VectorPage.Proofs.Lookahead
import VectorPage.Proofs.Tracking
import VectorPage.Proofs.Placing
import VectorPage.Proofs.Dictionaries
import VectorPage.Proofs.Batch
import VectorPage.Proofs.Orders
import VectorPage.Proofs.Styles
import VectorPage.Proofs.Doubles
import VectorPage.Proofs.Framing
import VectorPage.Proofs.Additions
import VectorPage.Proofs.Comments
import VectorPage.Proofs.Tiles
import VectorPage.Proofs.Polylines
import VectorPage.Proofs.Escaping
import VectorPage.Proofs.Decoding
import VectorPage.Proofs.TextPatterns
import VectorPage.Proofs.Announcements
import VectorPage.Proofs.Origins
import VectorPage.Proofs.Coercion
import VectorPage.Proofs.Closing
import VectorPage.Proofs.Nesting
import VectorPage.Proofs.NumberTexts
import VectorPage.Proofs.PathTexts
import VectorPage.Proofs.Geometry
