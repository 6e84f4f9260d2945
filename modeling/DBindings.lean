import DBindings.Main
import DBindings.Proofs.Writing.Code
import DBindings.Proofs.Run.Acts
import DBindings.Proofs.Tree.Walk
import DBindings.Proofs.Run.Emitter
import DBindings.Proofs.Run.Preamble
import DBindings.Proofs.Requests.Lines
import DBindings.Proofs.Requests.Mixin
import DBindings.Proofs.Printing.Sites
import DBindings.Proofs.Requests.ByRef
import DBindings.Proofs.Text.Brackets
import DBindings.Proofs.Printing.ClosedLeaves
import DBindings.Proofs.Printing.ClosedExprs
import DBindings.Proofs.Text.Outline
import DBindings.Proofs.Printing.Operands
import DBindings.Proofs.Renaming.Rename
import DBindings.Proofs.Renaming.Types
import DBindings.Proofs.Renaming.Exprs
import DBindings.Proofs.Renaming.Printing
import DBindings.Proofs.Naming.Visited
import DBindings.Proofs.Renaming.Functions
import DBindings.Proofs.Renaming.Tables
import DBindings.Proofs.Renaming.Emission
import DBindings.Proofs.Bitfields.Packing
import DBindings.Proofs.Bitfields.Fields
import DBindings.Proofs.Tree.Scopes
import DBindings.Proofs.Document.Steps
import DBindings.Proofs.Document.Records
import DBindings.Proofs.Document.Events
import DBindings.Proofs.Document.Placements
import DBindings.Proofs.Document.Failure
import DBindings.Proofs.Document.Places
import DBindings.Proofs.Document.Once
import DBindings.Proofs.Shape.Hierarchy
import DBindings.Proofs.Types.Essence
import DBindings.Proofs.Types.Reading
import DBindings.Proofs.Printing.Printer
import DBindings.Proofs.Printing.ClosedStmts
import DBindings.Proofs.Naming.Records
import DBindings.Proofs.Naming.Typedefs
import DBindings.Proofs.Naming.Numbering
import DBindings.Proofs.Document.Coverage
import DBindings.Proofs.Shape.Bases
import DBindings.Proofs.Document.Inside
import DBindings.Proofs.Types.Words
import DBindings.Proofs.Naming.References
import DBindings.Proofs.Document.Aliases
import DBindings.Proofs.Declared.Declarators
import DBindings.Proofs.Declared.Fields
import DBindings.Proofs.Declared.Locals
import DBindings.Proofs.Declared.Functions
import DBindings.Proofs.Declared.Entries
import DBindings.Proofs.Declared.Outer
import DBindings.Proofs.Declared.Members
import DBindings.Proofs.Declared.Reserved
import DBindings.Proofs.Printing.NullCasts
import DBindings.Proofs.Bodies.Literals
import DBindings.Proofs.Bodies.Comments
import DBindings.Proofs.Document.Calls
import DBindings.Proofs.Printing.Escapes
import DBindings.Proofs.Printing.CharacterLiterals
import DBindings.Proofs.Printing.Qualifiers
import DBindings.Proofs.Tree.Inserted
import DBindings.Proofs.Tree.Mentions
import DBindings.Proofs.Renaming.Spared
import DBindings.Proofs.Naming.Stable
import DBindings.Proofs.Run.Index
import DBindings.Proofs.Document.Outside
import DBindings.Proofs.Text.Tokens
import DBindings.Proofs.Printing.Leading
import DBindings.Proofs.Text.Clauses
import DBindings.Proofs.Printing.Headers
import DBindings.Proofs.Printing.ImplicitNodes
import DBindings.Proofs.Printing.MemberChains
import DBindings.Proofs.Printing.PointerOperands
import DBindings.Proofs.Tree.Evaluation
import DBindings.Proofs.Printing.Assertions
import DBindings.Proofs.Declared.Initializers
import DBindings.Proofs.Declared.Assignments
import DBindings.Proofs.Printing.Indentation
import DBindings.Proofs.Bodies.Braces
import DBindings.Proofs.Bitfields.Segments
import DBindings.Proofs.Text.Occurrences
import DBindings.Proofs.Types.Composed
import DBindings.Proofs.Types.Nesting
import DBindings.Proofs.Document.Definitions
import DBindings.Proofs.Configuration.Overrides
import DBindings.Proofs.Tree.Listing
import DBindings.Proofs.Requests.History
import DBindings.Proofs.Document.Levels
