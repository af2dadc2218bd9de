import TableMarkup.Command.Line
import TableMarkup.Command.Program
import TableMarkup.Command.Views
import TableMarkup.Json.Length
import TableMarkup.Main
import TableMarkup.Markup.Selector
import TableMarkup.Proofs.Command.Answers
import TableMarkup.Proofs.Command.Labels
import TableMarkup.Proofs.Command.Views
import TableMarkup.Proofs.Json.Ending
import TableMarkup.Proofs.Json.Listening
import TableMarkup.Proofs.Json.Meaning
import TableMarkup.Proofs.Json.Numbers
import TableMarkup.Proofs.Json.Quotes
import TableMarkup.Proofs.Json.RoundTrip
import TableMarkup.Proofs.Markup.AttributeEdits
import TableMarkup.Proofs.Markup.AttributeLaws
import TableMarkup.Proofs.Markup.HeaderCells
import TableMarkup.Proofs.Markup.Likeness
import TableMarkup.Proofs.Markup.Places
import TableMarkup.Proofs.Markup.RoundTrip
import TableMarkup.Proofs.Ordered.Edits
import TableMarkup.Proofs.Ordered.Insertions
import TableMarkup.Proofs.Ordered.Reordering
import TableMarkup.Proofs.Rendering.Calls
import TableMarkup.Proofs.Rendering.Course
import TableMarkup.Proofs.Rendering.DiscoveryPass
import TableMarkup.Proofs.Rendering.FailedTries
import TableMarkup.Proofs.Rendering.Grants
import TableMarkup.Proofs.Rendering.HandOver
import TableMarkup.Proofs.Rendering.History
import TableMarkup.Proofs.Rendering.Journal
import TableMarkup.Proofs.Rendering.KeyClashes
import TableMarkup.Proofs.Rendering.Keys
import TableMarkup.Proofs.Rendering.Queries
import TableMarkup.Proofs.Rendering.Recorder
import TableMarkup.Proofs.Rendering.Reinitialisation
import TableMarkup.Proofs.Rendering.RepeatedDiscovery
import TableMarkup.Proofs.Rendering.Rounds
import TableMarkup.Proofs.Rendering.SeparateTargets
import TableMarkup.Proofs.Resolution.Budget
import TableMarkup.Proofs.Resolution.Errands
import TableMarkup.Proofs.Resolution.Forms
import TableMarkup.Proofs.Resolution.HostObjects
import TableMarkup.Proofs.Resolution.IntegerForm
import TableMarkup.Proofs.Resolution.IntegerTexts
import TableMarkup.Proofs.Resolution.Interview
import TableMarkup.Proofs.Resolution.Quoting
import TableMarkup.Proofs.Resolution.Walk
import TableMarkup.Proofs.Resolution.WrittenCall
import TableMarkup.Proofs.Resolution.WrittenJson
import TableMarkup.Proofs.Settings.PartialFiles
import TableMarkup.Proofs.Table.Changes
import TableMarkup.Proofs.Table.LetterCase
import TableMarkup.Proofs.Table.Meaning
import TableMarkup.Proofs.Table.OptionAttributes
import TableMarkup.Proofs.Table.Outline
import TableMarkup.Proofs.Table.Requests
import TableMarkup.Proofs.Text.Trimming
import TableMarkup.Proofs.Text.WholeNumbers
import TableMarkup.Rendering.Session
import TableMarkup.Resolution.Resolve
import TableMarkup.Settings.Loading
import TableMarkup.Table.Build
import TableMarkup.Yaml.Printer
