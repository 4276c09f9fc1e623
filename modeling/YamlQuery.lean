import YamlQuery.Batch.Line
import YamlQuery.Batch.Machine
import YamlQuery.Batch.Run
import YamlQuery.Batch.Script
import YamlQuery.Batch.Statement
import YamlQuery.Command.Basic
import YamlQuery.Command.Options
import YamlQuery.Command.Run
import YamlQuery.Command.Words
import YamlQuery.Document.Address
import YamlQuery.Document.Entries
import YamlQuery.Document.Json
import YamlQuery.Document.Value
import YamlQuery.Document.Yaml
import YamlQuery.Double.Basic
import YamlQuery.Double.Decimal
import YamlQuery.Edit.Collect
import YamlQuery.Edit.Delete
import YamlQuery.Edit.Insert
import YamlQuery.Edit.Replace
import YamlQuery.Edit.Table
import YamlQuery.Edit.Visitor
import YamlQuery.Files.Basic
import YamlQuery.Files.Change
import YamlQuery.Files.Document
import YamlQuery.Files.Path
import YamlQuery.Gzip.Basic
import YamlQuery.Gzip.Bits
import YamlQuery.Gzip.Inflate
import YamlQuery.Gzip.PrefixCode
import YamlQuery.Invocation.Basic
import YamlQuery.Invocation.Run
import YamlQuery.Json.Basic
import YamlQuery.Json.Read
import YamlQuery.Json.Write
import YamlQuery.KeyPath.Basic
import YamlQuery.Main
import YamlQuery.Numeral
import YamlQuery.Pattern.Basic
import YamlQuery.Pattern.CharSet
import YamlQuery.Pattern.Class
import YamlQuery.Pattern.Read
import YamlQuery.Properties.Basic
import YamlQuery.Properties.Sets
import YamlQuery.Reference
import YamlQuery.Session
import YamlQuery.Settings.Basic
import YamlQuery.Settings.Toml
import YamlQuery.Substitute
import YamlQuery.Text.Blank
import YamlQuery.Text.Digits
import YamlQuery.Text.Split
import YamlQuery.Toml.Basic
import YamlQuery.Toml.Read
import YamlQuery.Toml.Write
import YamlQuery.Unicode.Category
import YamlQuery.Unicode.Fold
import YamlQuery.Unicode.Property
import YamlQuery.Unicode.Runs
import YamlQuery.Unicode.Script
import YamlQuery.Walk
import YamlQuery.Yaml.Basic
import YamlQuery.Yaml.Cursor
import YamlQuery.Yaml.Node
import YamlQuery.Yaml.Pen
import YamlQuery.Yaml.Plain
import YamlQuery.Yaml.Read
import YamlQuery.Yaml.Token.Basic
import YamlQuery.Yaml.Token.Read
import YamlQuery.Yaml.Token.Scalar
import YamlQuery.Yaml.Write
import YamlQuery.Proofs.Pattern.Spans
import YamlQuery.Proofs.Pattern.Plain
import YamlQuery.Proofs.Document.Nodes
import YamlQuery.Proofs.Document.Without
import YamlQuery.Proofs.Walk.Events
import YamlQuery.Proofs.Walk.Matches
import YamlQuery.Proofs.Edit.Runs
import YamlQuery.Proofs.Edit.Reading
import YamlQuery.Proofs.Edit.Targets
import YamlQuery.Proofs.Edit.Growth
import YamlQuery.Proofs.Walk.Stops
import YamlQuery.Proofs.Edit.Jobs
import YamlQuery.Proofs.Edit.Residue
import YamlQuery.Proofs.Edit.Deletion
import YamlQuery.Proofs.Edit.DeadEnds
import YamlQuery.Proofs.Edit.Revisit
import YamlQuery.Proofs.Edit.Overwriting
import YamlQuery.Proofs.Edit.Succession
import YamlQuery.Proofs.Edit.Extension
import YamlQuery.Proofs.Edit.Skipping
import YamlQuery.Proofs.Batch.Blocks
import YamlQuery.Proofs.Pattern.Elements
import YamlQuery.Proofs.Pattern.Brackets
import YamlQuery.Proofs.Pattern.Moves
import YamlQuery.Proofs.Pattern.Framed
import YamlQuery.Proofs.Pattern.Segments
import YamlQuery.Proofs.Edit.Wildcard
import YamlQuery.Proofs.Batch.Rules
import YamlQuery.Proofs.Batch.Delimiters
import YamlQuery.Proofs.Batch.Points
import YamlQuery.Proofs.Batch.Balance
import YamlQuery.Proofs.Batch.Sequence
import YamlQuery.Proofs.Document.Entries
import YamlQuery.Proofs.Properties.Sets
import YamlQuery.Proofs.Batch.Effects
import YamlQuery.Proofs.Batch.Rounds
import YamlQuery.Proofs.Batch.Restoring
import YamlQuery.Proofs.Batch.Locations
import YamlQuery.Proofs.Batch.Memory
import YamlQuery.Proofs.Batch.Stack
import YamlQuery.Proofs.Command.Blind
import YamlQuery.Proofs.Batch.Independence
import YamlQuery.Proofs.Gzip.Expansion
import YamlQuery.Proofs.Files.Endings
import YamlQuery.Proofs.Files.Saving
import YamlQuery.Proofs.Files.Reloading
import YamlQuery.Proofs.Double.Rounding
import YamlQuery.Proofs.Double.Shortest
import YamlQuery.Proofs.Double.Reading
import YamlQuery.Proofs.Document.Parts
import YamlQuery.Proofs.Document.Keys
import YamlQuery.Proofs.Document.Numerals
import YamlQuery.Proofs.Document.Values
import YamlQuery.Proofs.Json.Reading
import YamlQuery.Proofs.Pattern.Bare
import YamlQuery.Proofs.Walk.Narrower
import YamlQuery.Proofs.Edit.Listing
import YamlQuery.Proofs.Yaml.Scalars
import YamlQuery.Proofs.Yaml.Flow
import YamlQuery.Proofs.Yaml.Nodes
import YamlQuery.Proofs.Yaml.Documents
import YamlQuery.Proofs.Files.Fallback
import YamlQuery.Proofs.Edit.Calls
import YamlQuery.Proofs.Walk.Places
import YamlQuery.Proofs.Edit.Sites
import YamlQuery.Proofs.Edit.Strictness
import YamlQuery.Proofs.Edit.Rows
import YamlQuery.Proofs.Text.Trimming
import YamlQuery.Proofs.Text.Occurrences
import YamlQuery.Proofs.KeyPath.Reassembly
import YamlQuery.Proofs.Document.Planting
import YamlQuery.Proofs.Command.Creation
import YamlQuery.Proofs.Substitute.Tokens
import YamlQuery.Proofs.Substitute.Namespaces
import YamlQuery.Proofs.Substitute.Documents
import YamlQuery.Proofs.Command.Quoting
import YamlQuery.Proofs.Batch.Comments
import YamlQuery.Proofs.Command.Arguments
import YamlQuery.Proofs.Properties.Lines
import YamlQuery.Proofs.Properties.Writing
import YamlQuery.Proofs.Properties.Calls
import YamlQuery.Proofs.Reference.Memory
import YamlQuery.Proofs.Edit.Columns
import YamlQuery.Proofs.Document.Addresses
