import Playground.Text.Space
import Playground.Text.Digit
import Playground.Text.Search
import Playground.Text.Utf8
import Playground.Text.Utf16
import Playground.Diagnostics.LineOffset
import Playground.Diagnostics.Reference
import Playground.Diagnostics.Entry
import Playground.Diagnostics.Document
import Playground.Diagnostics.Marker
import Playground.Text.Lines
import Playground.Header.Bundled
import Playground.Header.Include
import Playground.State.Compiler
import Playground.State.Example
import Playground.State.Fields
import Playground.State
import Playground.Error
import Playground.Rendering
import Playground.Rendering.Plain
import Playground.Json.Value
import Playground.Json.Reader
import Playground.Json.Printer
import Playground.Phase
import Playground.Json.Shape
import Playground.Json.Wire
import Playground.Share.Sextet
import Playground.Share.Code
import Playground.Share.Compress
import Playground.Share.Expand
import Playground.Text.Percent
import Playground.Share.Link
import Playground.Files.Path
import Playground.Files.Disk
import Playground.Storage
import Playground.Session
import Playground.Text.Hex
import Playground.Decimal.Shortest
import Playground.Decimal.Style
import Playground.Split
import Playground.SharePanel
import Playground.Url.Punycode
import Playground.Url.Domain
import Playground.Url.Host
import Playground.Url.Address
import Playground.Http.Charset
import Playground.Http.Message
import Playground.Http.Wire
import Playground.Service.Compile
import Playground.Service.Parse
import Playground.Service.Shorten
import Playground.Desk.Edit
import Playground.Desk.Cycle
import Playground.Desk
import Playground.Timeline
import Playground.Toml.Value
import Playground.Toml.Scalar
import Playground.Toml.Quoted
import Playground.Toml.Reader
import Playground.Config
import Playground.CommandLine.Arguments
import Playground.CommandLine.Command
import Playground.CommandLine.Execution
import Playground.Main
import Playground.Proofs.Phase.Recent
import Playground.Proofs.Desk.Step
import Playground.Proofs.Desk.Exchange
import Playground.Proofs.Desk.OnScreen
import Playground.Proofs.Text.Runs
import Playground.Proofs.Text.Pieces
import Playground.Proofs.Header.Directive
import Playground.Proofs.Header.Standing
import Playground.Proofs.Header.Lines
import Playground.Proofs.Text.Digits
import Playground.Proofs.Text.Leftmost
import Playground.Proofs.Diagnostics.Renumber
import Playground.Proofs.Diagnostics.Pattern
import Playground.Proofs.Diagnostics.Relocation
import Playground.Proofs.Diagnostics.Landing
import Playground.Proofs.Text.Transcoding
import Playground.Proofs.Share.Packing
import Playground.Proofs.Share.Reading
import Playground.Proofs.Share.Expansion
import Playground.Proofs.Share.RoundTrip
import Playground.Proofs.Desk.Course
import Playground.Proofs.Desk.History
import Playground.Proofs.Desk.Calls
import Playground.Proofs.Desk.Progress
import Playground.Proofs.Timeline.Passing
import Playground.Proofs.Timeline.Timers
import Playground.Proofs.Timeline.Waiting
import Playground.Proofs.Timeline.Debounce
import Playground.Proofs.Timeline.Answers
import Playground.Proofs.Timeline.Settling
import Playground.Proofs.Timeline.Indicator
import Playground.Proofs.Timeline.Alone
import Playground.Proofs.Diagnostics.Hiding
import Playground.Proofs.Files.Locations
import Playground.Proofs.Storage.Slots
import Playground.Proofs.Files.Directories
import Playground.Proofs.Storage.Saving
import Playground.Proofs.Storage.Overwriting
import Playground.Proofs.Session.Persistence
import Playground.Proofs.Session.Fieldwise
import Playground.Proofs.Session.Opening
import Playground.Proofs.Share.Carrying
import Playground.Proofs.Session.Origin
import Playground.Proofs.Json.Literals
import Playground.Proofs.Json.Printed
import Playground.Proofs.Json.Wire
import Playground.Proofs.Service.Parsing
import Playground.Proofs.Share.Size
import Playground.Proofs.CommandLine.Compiling
import Playground.Proofs.CommandLine.Agreement
import Playground.Proofs.Header.Spread
import Playground.Proofs.Header.Joining
import Playground.Proofs.Diagnostics.Cuts
import Playground.Proofs.Diagnostics.Gutters
import Playground.Proofs.Diagnostics.Width
import Playground.Proofs.Diagnostics.Correction
import Playground.Proofs.Diagnostics.Overflow
import Playground.Proofs.Diagnostics.Placement
import Playground.Proofs.Text.Octets
import Playground.Proofs.Share.Damage
import Playground.Proofs.Share.Growth
import Playground.Proofs.Files.Absence
import Playground.Proofs.Storage.Loading
import Playground.Proofs.Diagnostics.Pulling
import Playground.Proofs.SharePanel.Links
import Playground.Proofs.Text.Escapes
import Playground.Proofs.Url.Segments
import Playground.Proofs.Url.Hosts
import Playground.Proofs.Url.Joining
import Playground.Proofs.Service.Endpoint
