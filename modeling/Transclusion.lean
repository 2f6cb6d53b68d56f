import Transclusion.CommandLine.DefaultCommand
import Transclusion.CommandLine.Invocation
import Transclusion.CommandLine.Outcome
import Transclusion.CommandLine.Session
import Transclusion.CommandLine.Suite
import Transclusion.Content
import Transclusion.Decimal.Binary64
import Transclusion.Decimal.Shortest
import Transclusion.Directive.Call
import Transclusion.Directive.Lexer
import Transclusion.Directive.Literal
import Transclusion.Directive.Param
import Transclusion.Directive.Reading
import Transclusion.Directive.SyntaxError
import Transclusion.Directive.Token
import Transclusion.Directive.Trivia
import Transclusion.Engine.Builtin
import Transclusion.Engine.Job
import Transclusion.Engine.Plan
import Transclusion.Engine.Resolve
import Transclusion.Engine.Stepwise
import Transclusion.Engine.Together
import Transclusion.Files.Access
import Transclusion.Fixture
import Transclusion.Main
import Transclusion.Node
import Transclusion.Path
import Transclusion.Pipe
import Transclusion.Proofs.Engine.Execution
import Transclusion.Proofs.Engine.Splice
import Transclusion.Proofs.Lexer.Cutting
import Transclusion.Proofs.Lexer.Partition
import Transclusion.Registry
import Transclusion.ResolveError
import Transclusion.Resource.Builtin
import Transclusion.Resource.Loader
import Transclusion.Settings
import Transclusion.Shortcut.Scope
import Transclusion.Shortcut.Template
import Transclusion.Target
import Transclusion.Text.Blank
import Transclusion.Text.Infix
import Transclusion.Text.Newline
import Transclusion.Text.Offset
import Transclusion.Text.Place
import Transclusion.Text.Quoted
import Transclusion.Text.Utf8
import Transclusion.Text.Word
import Transclusion.Toml.Decode
import Transclusion.Toml.Document
import Transclusion.Toml.Moment
import Transclusion.Toml.Number
import Transclusion.Toml.Text
import Transclusion.Toml.Value
import Transclusion.Transform.Builtin
import Transclusion.Transform.Pipeline
import Transclusion.Proofs.Engine.DepthLimit
import Transclusion.Proofs.Pipe.Escaping
import Transclusion.Proofs.Pipe.RoundTrip
import Transclusion.Proofs.Engine.Stepwise
import Transclusion.Proofs.Engine.Polling
import Transclusion.Proofs.Engine.Promptness
import Transclusion.Proofs.Engine.Verdicts
import Transclusion.Proofs.Engine.Transparency
import Transclusion.Proofs.Lexer.Marker
import Transclusion.Proofs.Lexer.Bodies
import Transclusion.Proofs.Lexer.Origins
import Transclusion.Proofs.Pipe.Seam
import Transclusion.Proofs.Shortcut.Appending
import Transclusion.Proofs.Engine.Correspondence
import Transclusion.Proofs.Lexer.Coverage
import Transclusion.Proofs.Resource.Observation
import Transclusion.Proofs.Resource.SingleRead
import Transclusion.Proofs.Engine.Replay
import Transclusion.Proofs.Shortcut.Overlay
import Transclusion.Proofs.Engine.Compositionality
import Transclusion.Proofs.Engine.ErrorOrigin
import Transclusion.Proofs.Engine.Scheduling
import Transclusion.Proofs.Lexer.Spans
import Transclusion.Proofs.Lexer.Cursor
import Transclusion.Proofs.Lexer.Slicing
import Transclusion.Proofs.Lexer.Delimitation
import Transclusion.Proofs.Lexer.Frames
import Transclusion.Proofs.Lexer.Refilling
import Transclusion.Proofs.Shortcut.Histories
import Transclusion.Proofs.Shortcut.Rounds
import Transclusion.Proofs.Lexer.CallTexts
import Transclusion.Proofs.Lexer.Extents
import Transclusion.Proofs.Transform.Quoting
import Transclusion.Proofs.Path.Components
import Transclusion.Proofs.Path.NormalForms
import Transclusion.Proofs.Path.Relocation
import Transclusion.Proofs.Pipe.Scans
import Transclusion.Proofs.Shortcut.Substitution
import Transclusion.Proofs.Fixture.Frontmatter
import Transclusion.Proofs.Lexer.SelfDelimiting
import Transclusion.Proofs.Node.Walk
import Transclusion.Proofs.Transform.Indentation
import Transclusion.Proofs.CommandLine.Insertion
