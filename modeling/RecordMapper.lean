import RecordMapper.Calendar.Day
import RecordMapper.Calendar.Moment
import RecordMapper.Calendar.Reader
import RecordMapper.Cast
import RecordMapper.Dialect
import RecordMapper.Fault
import RecordMapper.Json.Basic
import RecordMapper.Json.Reader
import RecordMapper.Json.Text
import RecordMapper.NameMap
import RecordMapper.Number.Binary
import RecordMapper.Number.Layout
import RecordMapper.Number.Reader
import RecordMapper.Number.Shortest
import RecordMapper.Proofs.Calendar.Clock
import RecordMapper.Proofs.Calendar.Days
import RecordMapper.Proofs.Calendar.Moments
import RecordMapper.Proofs.Calendar.Reading
import RecordMapper.Proofs.Cast.Integers
import RecordMapper.Proofs.Cast.Twice
import RecordMapper.Proofs.Json.Strings
import RecordMapper.Proofs.NameMap
import RecordMapper.Proofs.Number.Integers
import RecordMapper.Proofs.Number.Numerals
import RecordMapper.Proofs.Number.Patterns
import RecordMapper.Proofs.Outcome
import RecordMapper.Proofs.Query.Batches
import RecordMapper.Proofs.Query.Compiling
import RecordMapper.Proofs.Query.Cursor
import RecordMapper.Proofs.Query.DollarPaths
import RecordMapper.Proofs.Query.Finding
import RecordMapper.Proofs.Query.Grouping
import RecordMapper.Proofs.Query.Identifiers
import RecordMapper.Proofs.Query.Markers
import RecordMapper.Proofs.Query.Masking
import RecordMapper.Proofs.Query.Offsets
import RecordMapper.Proofs.Query.OnePass
import RecordMapper.Proofs.Query.OuterDialect
import RecordMapper.Proofs.Query.Parametric
import RecordMapper.Proofs.Query.PathGrammar
import RecordMapper.Proofs.Query.Placeholders
import RecordMapper.Proofs.Query.Quoting
import RecordMapper.Proofs.Query.Refusals
import RecordMapper.Proofs.Query.Rows
import RecordMapper.Proofs.Query.SameRows
import RecordMapper.Proofs.Query.Scopes
import RecordMapper.Proofs.Query.Streams
import RecordMapper.Proofs.Query.Supplied
import RecordMapper.Proofs.Query.TableCommands
import RecordMapper.Proofs.Query.Truth
import RecordMapper.Proofs.Query.Unambiguous
import RecordMapper.Proofs.Query.Windows
import RecordMapper.Proofs.Record.Addressing
import RecordMapper.Proofs.Record.Assignment
import RecordMapper.Proofs.Record.Attempts
import RecordMapper.Proofs.Record.Calls
import RecordMapper.Proofs.Record.Casting
import RecordMapper.Proofs.Record.Dirty
import RecordMapper.Proofs.Record.Disclosure
import RecordMapper.Proofs.Record.Failing
import RecordMapper.Proofs.Record.Hydrating
import RecordMapper.Proofs.Record.Marking
import RecordMapper.Proofs.Record.Saving
import RecordMapper.Proofs.Record.Sending
import RecordMapper.Proofs.Record.Tracking
import RecordMapper.Proofs.Record.Trashing
import RecordMapper.Proofs.Related.Agreement
import RecordMapper.Proofs.Related.Asking
import RecordMapper.Proofs.Related.Economy
import RecordMapper.Proofs.Related.Level
import RecordMapper.Proofs.Related.LinkAttributes
import RecordMapper.Proofs.Related.LinkBatches
import RecordMapper.Proofs.Related.Mixed
import RecordMapper.Proofs.Related.Owners
import RecordMapper.Proofs.Related.Paths
import RecordMapper.Proofs.Related.Prefixes
import RecordMapper.Proofs.Related.Queries
import RecordMapper.Proofs.Related.Reached
import RecordMapper.Proofs.Related.StoredTypes
import RecordMapper.Proofs.Related.Sync
import RecordMapper.Proofs.Related.Together
import RecordMapper.Proofs.Related.Toggle
import RecordMapper.Proofs.Schema.TypeNames
import RecordMapper.Proofs.Session.Action
import RecordMapper.Proofs.Session.Atomicity
import RecordMapper.Proofs.Session.Brackets
import RecordMapper.Proofs.Session.Defaults
import RecordMapper.Proofs.Session.Program
import RecordMapper.Proofs.Session.Recorded
import RecordMapper.Proofs.Session.Savepoints
import RecordMapper.Proofs.Session.Tables
import RecordMapper.Proofs.Statement.Outline
import RecordMapper.Proofs.Statement.Slots
import RecordMapper.Proofs.Statement.Supplied
import RecordMapper.Proofs.Statement.Tokens
import RecordMapper.Proofs.Statement.Written
import RecordMapper.Proofs.Text
import RecordMapper.Proofs.Text.Hexadecimal
import RecordMapper.Proofs.Value.CompoundKeys
import RecordMapper.Proofs.Value.Identifiers
import RecordMapper.Proofs.Value.JsonNumbers
import RecordMapper.Proofs.Value.SameKeys
import RecordMapper.Proofs.Value.Sameness
import RecordMapper.Proofs.Value.Temporal
import RecordMapper.Query.Basic
import RecordMapper.Query.Build
import RecordMapper.Query.Fetch
import RecordMapper.Query.JsonPath
import RecordMapper.Query.Marked
import RecordMapper.Query.Operator
import RecordMapper.Query.Page
import RecordMapper.Query.Select
import RecordMapper.Query.Write
import RecordMapper.Record.Basic
import RecordMapper.Record.Json
import RecordMapper.Record.Lifecycle
import RecordMapper.Related.Bound
import RecordMapper.Related.Candidates
import RecordMapper.Related.Links
import RecordMapper.Related.Loading
import RecordMapper.Related.Matching
import RecordMapper.Repository
import RecordMapper.Row
import RecordMapper.Schema.Basic
import RecordMapper.Schema.Morph
import RecordMapper.Schema.Relation
import RecordMapper.Session.Basic
import RecordMapper.Session.Change
import RecordMapper.Session.Hooks
import RecordMapper.Session.Script
import RecordMapper.Session.Transaction
import RecordMapper.Session.World
import RecordMapper.Statement.Fragment
import RecordMapper.Text.Blank
import RecordMapper.Text.DecimalDigit
import RecordMapper.Text.Digits
import RecordMapper.Text.Split
import RecordMapper.Value.Basic
import RecordMapper.Value.Convert
import RecordMapper.Value.Exact
import RecordMapper.Value.Json
import RecordMapper.Value.Key
