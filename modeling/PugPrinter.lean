import PugPrinter.Attribute.Render
import PugPrinter.CommandLine
import PugPrinter.CommandLine.Arguments
import PugPrinter.Config
import PugPrinter.Config.Session
import PugPrinter.Constant.Expr
import PugPrinter.Constant.Grammar
import PugPrinter.Constant.Number
import PugPrinter.Constant.Token
import PugPrinter.Constant.Value
import PugPrinter.Document.Dump
import PugPrinter.Document.FieldName
import PugPrinter.Document.Load
import PugPrinter.Double
import PugPrinter.Double.Shortest
import PugPrinter.Double.Written
import PugPrinter.Edit
import PugPrinter.Edit.Normal
import PugPrinter.Edit.Rule
import PugPrinter.Edit.Sharing
import PugPrinter.Emit
import PugPrinter.Fault
import PugPrinter.Json
import PugPrinter.Json.Printer
import PugPrinter.Json.Reader
import PugPrinter.Json.Shown
import PugPrinter.Layout
import PugPrinter.LineBuffer
import PugPrinter.Location
import PugPrinter.Log
import PugPrinter.Loose
import PugPrinter.Main
import PugPrinter.Node
import PugPrinter.Piece
import PugPrinter.Run
import PugPrinter.Source
import PugPrinter.Text
import PugPrinter.Text.Decimal
import PugPrinter.Text.Interpolation
import PugPrinter.Text.Printable
import PugPrinter.Text.Quotation
import PugPrinter.Text.Shown
import PugPrinter.Proofs.Emit.Depth
import PugPrinter.Proofs.Segment
import PugPrinter.Proofs.Indentation
import PugPrinter.Proofs.Document.Fields
import PugPrinter.Proofs.Emit.RunningLine
import PugPrinter.Proofs.Emit.Walk
import PugPrinter.Proofs.WellFormed
import PugPrinter.Proofs.Document.RoundTrip
import PugPrinter.Proofs.Edit.NormalForm
import PugPrinter.Proofs.Layout
import PugPrinter.Proofs.Emit.Faults
import PugPrinter.Proofs.Emit.Causes
import PugPrinter.Proofs.Totality
import PugPrinter.Proofs.Emit.Parent
import PugPrinter.Proofs.RootWrapping
import PugPrinter.Proofs.Subtrees
import PugPrinter.Proofs.Emit.Frame
import PugPrinter.Proofs.Emit.WalkWrites
import PugPrinter.Proofs.WalkFrame
import PugPrinter.Proofs.Constant.Phrase
import PugPrinter.Proofs.Constant.Unambiguous
import PugPrinter.Proofs.Constant.Parsing
import PugPrinter.Proofs.TextPlaces
import PugPrinter.Proofs.Emit.Texts
import PugPrinter.Proofs.Contents
import PugPrinter.Proofs.Lines
import PugPrinter.Proofs.Emit.Heading
import PugPrinter.Proofs.Emit.FilterChain
import PugPrinter.Proofs.Emit.Opening
import PugPrinter.Proofs.Emit.TagCode
import PugPrinter.Proofs.Emit.Openers
import PugPrinter.Proofs.Json.Arranged
import PugPrinter.Proofs.Document.Spelling
import PugPrinter.Proofs.Document.Reading
import PugPrinter.Proofs.Document.Dialects
import PugPrinter.Proofs.Emit.Moved
import PugPrinter.Proofs.RelativeLines
import PugPrinter.Proofs.Digits
import PugPrinter.Proofs.Json.Printed
import PugPrinter.Proofs.Constant.JsonSource
import PugPrinter.Proofs.Json.Reading
import PugPrinter.Proofs.Document.JsonText
import PugPrinter.Proofs.Sessions
import PugPrinter.Proofs.Emit.TagHead
import PugPrinter.Proofs.Document.Offences
import PugPrinter.Proofs.Document.Rewriting
import PugPrinter.Proofs.Document.Acceptance
import PugPrinter.Proofs.Emit.AnyTree
import PugPrinter.Proofs.Document.AnyObject
import PugPrinter.Proofs.CommandLine
import PugPrinter.Proofs.Quotation
import PugPrinter.Proofs.Edit.BottomUp
import PugPrinter.Proofs.Emit.DotBlock
import PugPrinter.Proofs.Emit.OneLine
import PugPrinter.Proofs.StartedLines
import PugPrinter.Proofs.Constant.StringLiteral
import PugPrinter.Proofs.Attribute.Placing
import PugPrinter.Proofs.Attribute.Canonical
import PugPrinter.Proofs.Emit.BodyForm
import PugPrinter.Proofs.Emit.ColonChain
import PugPrinter.Proofs.Interpolation
import PugPrinter.Proofs.Emit.Silent
import PugPrinter.Proofs.CaseArms
import PugPrinter.Proofs.Emit.UnknownLines
import PugPrinter.Proofs.Visited
import PugPrinter.Proofs.Emit.Styles
import PugPrinter.Proofs.Options
import PugPrinter.Proofs.Constant.Strings
import PugPrinter.Proofs.Constant.Equality
import PugPrinter.Proofs.Constant.Integers
import PugPrinter.Proofs.Attribute.Rendering
import PugPrinter.Proofs.ErrorSubjects
import PugPrinter.Proofs.Constant.Evaluator
import PugPrinter.Proofs.Constant.Progress
import PugPrinter.Proofs.Constant.Evaluation
import PugPrinter.Proofs.Constant.Budget
