import XmlPaths.Build.Attributes
import XmlPaths.Build.Creation
import XmlPaths.Build.Outcome
import XmlPaths.Build.Placement
import XmlPaths.Build.Resolve
import XmlPaths.Content.Attributes
import XmlPaths.Content.Descent
import XmlPaths.Content.Values
import XmlPaths.Entries
import XmlPaths.Failure
import XmlPaths.Loading.Chain
import XmlPaths.Loading.Source
import XmlPaths.Markup.Declaration
import XmlPaths.Markup.Document
import XmlPaths.Markup.Encoding
import XmlPaths.Markup.Scope
import XmlPaths.Markup.Token
import XmlPaths.Path.Basic
import XmlPaths.Path.Error
import XmlPaths.Path.Feature
import XmlPaths.Path.Lexeme
import XmlPaths.Path.Parser
import XmlPaths.Path.Pattern
import XmlPaths.Path.Printer
import XmlPaths.Proofs.Build.Additions
import XmlPaths.Proofs.Build.Anew
import XmlPaths.Proofs.Build.Attributes
import XmlPaths.Proofs.Build.Branches
import XmlPaths.Proofs.Build.Continuation
import XmlPaths.Proofs.Build.Contradiction
import XmlPaths.Proofs.Build.Demands
import XmlPaths.Proofs.Build.Ensuring
import XmlPaths.Proofs.Build.Extension
import XmlPaths.Proofs.Build.Failures
import XmlPaths.Proofs.Build.Flaws
import XmlPaths.Proofs.Build.Following
import XmlPaths.Proofs.Build.Growth
import XmlPaths.Proofs.Build.Insertion
import XmlPaths.Proofs.Build.Making
import XmlPaths.Proofs.Build.Moving
import XmlPaths.Proofs.Build.Places
import XmlPaths.Proofs.Build.Repetition
import XmlPaths.Proofs.Build.Reuse
import XmlPaths.Proofs.Build.Runs
import XmlPaths.Proofs.Build.Siblings
import XmlPaths.Proofs.Build.Spellings
import XmlPaths.Proofs.Build.Undivided
import XmlPaths.Proofs.Content.Descent
import XmlPaths.Proofs.Loading.Chain
import XmlPaths.Proofs.Loading.Text
import XmlPaths.Proofs.Markup.Declaration
import XmlPaths.Proofs.Markup.Encoding
import XmlPaths.Proofs.Path.Acceptance
import XmlPaths.Proofs.Path.Beginnings
import XmlPaths.Proofs.Path.Clause
import XmlPaths.Proofs.Path.Comparisons
import XmlPaths.Proofs.Path.Contents
import XmlPaths.Proofs.Path.Detection
import XmlPaths.Proofs.Path.Disjunctions
import XmlPaths.Proofs.Path.Faults
import XmlPaths.Proofs.Path.Features
import XmlPaths.Proofs.Path.Grammar
import XmlPaths.Proofs.Path.Lexing
import XmlPaths.Proofs.Path.Readings
import XmlPaths.Proofs.Path.Recognition
import XmlPaths.Proofs.Path.Refusals
import XmlPaths.Proofs.Path.Rendering
import XmlPaths.Proofs.Path.Restriction
import XmlPaths.Proofs.Path.Segments
import XmlPaths.Proofs.Path.Truncation
import XmlPaths.Proofs.Selection.Agreement
import XmlPaths.Proofs.Selection.Evaluation
import XmlPaths.Proofs.Selection.Keeping
import XmlPaths.Proofs.Selection.LastNamed
import XmlPaths.Proofs.Selection.Legible
import XmlPaths.Proofs.Selection.Levels
import XmlPaths.Proofs.Selection.Reach
import XmlPaths.Proofs.Selection.Walk
import XmlPaths.Proofs.Sequence.Preference
import XmlPaths.Proofs.Tree.Naming
import XmlPaths.Proofs.Tree.Nodes
import XmlPaths.Proofs.Tree.Parents
import XmlPaths.Proofs.Tree.Replicas
import XmlPaths.Proofs.Tree.Update
import XmlPaths.Proofs.XPath.Foreign
import XmlPaths.Proofs.XPath.Lexing
import XmlPaths.Proofs.XPath.Reading
import XmlPaths.Proofs.XPath.Steps
import XmlPaths.Report
import XmlPaths.Selection
import XmlPaths.Sequence.Ends
import XmlPaths.Sequence.Preference
import XmlPaths.Text.Blank
import XmlPaths.Text.CaseFolding
import XmlPaths.Text.Digit
import XmlPaths.Text.Display
import XmlPaths.Text.LetterCase
import XmlPaths.Text.Literal
import XmlPaths.Text.Numeral
import XmlPaths.Text.Printable
import XmlPaths.Text.Ranges
import XmlPaths.Text.Reading
import XmlPaths.Text.Word
import XmlPaths.Time.Calendar
import XmlPaths.Time.Parser
import XmlPaths.Time.Timestamp
import XmlPaths.Tree.Forest
import XmlPaths.Tree.Name
import XmlPaths.Tree.Node
import XmlPaths.Tree.Uri
import XmlPaths.XPath.Axis
import XmlPaths.XPath.Eval
import XmlPaths.XPath.Function
import XmlPaths.XPath.Number
import XmlPaths.XPath.Parser
import XmlPaths.XPath.Syntax
import XmlPaths.XPath.Value
