import SchemaDiagram.CommandLine.Arguments
import SchemaDiagram.CommandLine.FileTree
import SchemaDiagram.CommandLine.Log
import SchemaDiagram.CommandLine.Run
import SchemaDiagram.Config
import SchemaDiagram.Converter
import SchemaDiagram.Diagram
import SchemaDiagram.Document
import SchemaDiagram.Document.Block
import SchemaDiagram.Document.Definition
import SchemaDiagram.Document.Error
import SchemaDiagram.Document.Name
import SchemaDiagram.Document.Reference
import SchemaDiagram.Document.Setting
import SchemaDiagram.Document.Spacing
import SchemaDiagram.Document.Step
import SchemaDiagram.Document.Table
import SchemaDiagram.Document.TypeName
import SchemaDiagram.Event
import SchemaDiagram.Page
import SchemaDiagram.Schema
import SchemaDiagram.TableFilter
import SchemaDiagram.Text.Alphabetic
import SchemaDiagram.Text.Blank
import SchemaDiagram.Text.Case
import SchemaDiagram.Text.Lines
import SchemaDiagram.Text.Name
import SchemaDiagram.Text.Numeric
import SchemaDiagram.Text.Ranges
import SchemaDiagram.Theme
import SchemaDiagram.Token
import SchemaDiagram.Token.Layout
import SchemaDiagram.Token.Lexeme
import SchemaDiagram.Token.Lexer
import SchemaDiagram.Proofs.Grammar
import SchemaDiagram.Proofs.Phrases
import SchemaDiagram.Proofs.Definitions
import SchemaDiagram.Proofs.Lexemes
import SchemaDiagram.Proofs.Cursors
import SchemaDiagram.Proofs.Cuts
import SchemaDiagram.Proofs.Exactness
import SchemaDiagram.Proofs.RoundTrip
import SchemaDiagram.Proofs.Openings
import SchemaDiagram.Proofs.Unclosed
import SchemaDiagram.Proofs.InlineReferences
import SchemaDiagram.Proofs.Restriction
import SchemaDiagram.Proofs.DiagramLines
import SchemaDiagram.Proofs.Drawings
import SchemaDiagram.Proofs.Locality
import SchemaDiagram.Proofs.Failures
import SchemaDiagram.Proofs.TextJoins
import SchemaDiagram.Proofs.Printing
import SchemaDiagram.Proofs.Concatenation
import SchemaDiagram.Proofs.Rewriting
import SchemaDiagram.Proofs.Extraction
import SchemaDiagram.Proofs.Expansion
import SchemaDiagram.Main
import SchemaDiagram.Proofs.Sessions
import SchemaDiagram.Proofs.Runs
import SchemaDiagram.Proofs.EntryPoints
import SchemaDiagram.Proofs.TokenTexts
import SchemaDiagram.Proofs.ShownTexts
import SchemaDiagram.Proofs.PrimaryKeys
import SchemaDiagram.Proofs.Insertions
import SchemaDiagram.Proofs.TableNames
import SchemaDiagram.Proofs.InputEnds
import SchemaDiagram.Proofs.LexerProgress
import SchemaDiagram.Proofs.Pages
import SchemaDiagram.Proofs.SettledReaders
import SchemaDiagram.Proofs.TableFilters
