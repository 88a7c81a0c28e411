import BlockScript.Block
import BlockScript.Command
import BlockScript.Command.Words
import BlockScript.Config
import BlockScript.Decimal.Layout
import BlockScript.Decimal.Reading
import BlockScript.Decimal.Scaling
import BlockScript.Decimal.Shortest
import BlockScript.Document
import BlockScript.Entries
import BlockScript.Environment
import BlockScript.Error
import BlockScript.Execution
import BlockScript.Json.Basic
import BlockScript.Json.Node
import BlockScript.Json.Printing
import BlockScript.Json.Syntax
import BlockScript.Json.Token
import BlockScript.Kinds
import BlockScript.Kinds.Control
import BlockScript.Kinds.Services
import BlockScript.Kinds.Values
import BlockScript.Kinds.Variables
import BlockScript.Log.Codec
import BlockScript.Log.Modifier
import BlockScript.Log.Record
import BlockScript.Main
import BlockScript.Nesting
import BlockScript.Outcome
import BlockScript.Path
import BlockScript.Program
import BlockScript.Proofs.AbortSafety
import BlockScript.Proofs.Alongside
import BlockScript.Proofs.Arena
import BlockScript.Proofs.BracketDepth
import BlockScript.Proofs.Children
import BlockScript.Proofs.Composition
import BlockScript.Proofs.CutShort
import BlockScript.Proofs.Deadlines
import BlockScript.Proofs.DocumentGrammar
import BlockScript.Proofs.DocumentReading
import BlockScript.Proofs.EntryMaps
import BlockScript.Proofs.Events
import BlockScript.Proofs.HeaderReading
import BlockScript.Proofs.Interceptions
import BlockScript.Proofs.Lifecycle
import BlockScript.Proofs.Mirroring
import BlockScript.Proofs.Moments
import BlockScript.Proofs.Noninterference
import BlockScript.Proofs.Recording
import BlockScript.Proofs.Replaying
import BlockScript.Proofs.RunRecords
import BlockScript.Proofs.ScopeAgreement
import BlockScript.Proofs.ScopeDiscipline
import BlockScript.Proofs.SlotReading
import BlockScript.Proofs.TextGrammar
import BlockScript.Proofs.Traces
import BlockScript.Proofs.Transparency
import BlockScript.Proofs.TreeHeight
import BlockScript.Proofs.TwoTier
import BlockScript.Proofs.Waiting
import BlockScript.Registry
import BlockScript.Rehearsal.Kind
import BlockScript.Rehearsal.Modifier
import BlockScript.Rehearsal.Stage
import BlockScript.Scope
import BlockScript.Script
import BlockScript.Stepper
import BlockScript.Text.Blank
import BlockScript.Time.Duration
import BlockScript.Time.Timestamp
import BlockScript.Value
import BlockScript.Proofs.CheckOrder
import BlockScript.Proofs.FirstFault
import BlockScript.Proofs.Sessions
import BlockScript.Proofs.SteppedRuns
import BlockScript.Proofs.LaterRuns
import BlockScript.Proofs.Calendar
import BlockScript.Proofs.TimestampText
import BlockScript.Proofs.RecordCodec
import BlockScript.Proofs.FrozenRecords
import BlockScript.Proofs.RootVariables
import BlockScript.Proofs.Renaming
import BlockScript.Proofs.Positions
import BlockScript.Proofs.EntryCounts
import BlockScript.Proofs.RepeatedEntries
import BlockScript.Proofs.TextReading
import BlockScript.Proofs.TextWriting
import BlockScript.Proofs.StoredLogs
import BlockScript.Proofs.RegistryGrowth
import BlockScript.Proofs.SurfaceForms
import BlockScript.Proofs.DecisionLists
import BlockScript.Proofs.Repetition
import BlockScript.Proofs.Expressions
import BlockScript.Proofs.SiteCalls
import BlockScript.Proofs.ExtraStatements
import BlockScript.Proofs.ValueConversions
import BlockScript.Proofs.RoundingIntervals
import BlockScript.Proofs.ShortestDecimals
import BlockScript.Proofs.TextEquality
import BlockScript.Proofs.PartialReplays
import BlockScript.Proofs.FailedAttachments
import BlockScript.Proofs.FloatRounding
import BlockScript.Proofs.MutationLookup
import BlockScript.Proofs.NearestFloats
import BlockScript.Proofs.NumberReading
import BlockScript.Proofs.NumericEquality
