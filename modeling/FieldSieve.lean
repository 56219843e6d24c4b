import FieldSieve.Batch
import FieldSieve.Bytes
import FieldSieve.Capture
import FieldSieve.CaseReport
import FieldSieve.CommandLine
import FieldSieve.CommandLine.Item
import FieldSieve.CommandLine.UsageError
import FieldSieve.Cursor
import FieldSieve.Event
import FieldSieve.Extraction
import FieldSieve.Fault
import FieldSieve.Fee
import FieldSieve.FieldPath
import FieldSieve.FieldPath.Text
import FieldSieve.Input
import FieldSieve.Key
import FieldSieve.Main
import FieldSieve.Message
import FieldSieve.Nesting
import FieldSieve.Nesting.Label
import FieldSieve.Policy
import FieldSieve.Program
import FieldSieve.Proofs.CallOrder
import FieldSieve.Proofs.Calls
import FieldSieve.Proofs.CapturedPayloads
import FieldSieve.Proofs.CollectedFields
import FieldSieve.Proofs.Continuation
import FieldSieve.Proofs.Crossing
import FieldSieve.Proofs.DeliveredForms
import FieldSieve.Proofs.DepthLimits
import FieldSieve.Proofs.EncodedText
import FieldSieve.Proofs.EnteredMessages
import FieldSieve.Proofs.ErrorPlaces
import FieldSieve.Proofs.FailingLoops
import FieldSieve.Proofs.FeeLines
import FieldSieve.Proofs.FewerDescents
import FieldSieve.Proofs.FieldLines
import FieldSieve.Proofs.FieldOutcomes
import FieldSieve.Proofs.FrameLists
import FieldSieve.Proofs.Framing
import FieldSieve.Proofs.GivenNumbers
import FieldSieve.Proofs.GroupSums
import FieldSieve.Proofs.HexText
import FieldSieve.Proofs.InputRows
import FieldSieve.Proofs.Journal
import FieldSieve.Proofs.KeyForms
import FieldSieve.Proofs.LastCoin
import FieldSieve.Proofs.LastMessages
import FieldSieve.Proofs.LineResults
import FieldSieve.Proofs.NumberedLines
import FieldSieve.Proofs.OpenFrames
import FieldSieve.Proofs.OpenedTrees
import FieldSieve.Proofs.OptionGroups
import FieldSieve.Proofs.Overruns
import FieldSieve.Proofs.PathGrammar
import FieldSieve.Proofs.Placement
import FieldSieve.Proofs.Reencoding
import FieldSieve.Proofs.Replays
import FieldSieve.Proofs.Reruns
import FieldSieve.Proofs.Runs
import FieldSieve.Proofs.ScalarValues
import FieldSieve.Proofs.SelectedPaths
import FieldSieve.Proofs.ShortestForms
import FieldSieve.Proofs.SkippedBytes
import FieldSieve.Proofs.SlicedScan
import FieldSieve.Proofs.Spelling
import FieldSieve.Proofs.TextForms
import FieldSieve.Proofs.Transport
import FieldSieve.Proofs.Truncation
import FieldSieve.Proofs.UnbrokenText
import FieldSieve.Proofs.VisitedFields
import FieldSieve.Proofs.WordBytes
import FieldSieve.Proofs.WordReads
import FieldSieve.Proofs.WorkBounds
import FieldSieve.Proofs.Wrapping
import FieldSieve.Proofs.WrittenFields
import FieldSieve.Proofs.WrittenForms
import FieldSieve.Proofs.WrittenTrees
import FieldSieve.Report
import FieldSieve.Scalar
import FieldSieve.Scan
import FieldSieve.Scan.Basic
import FieldSieve.Scan.Field
import FieldSieve.Selection
import FieldSieve.Text.Blank
import FieldSieve.Text.CharRange
import FieldSieve.Text.Decimal
import FieldSieve.Text.DefaultIgnorable
import FieldSieve.Text.GraphemeExtend
import FieldSieve.Text.Hex
import FieldSieve.Text.Json
import FieldSieve.Text.Printable
import FieldSieve.Text.Quoted
import FieldSieve.Text.Utf8
import FieldSieve.Tree
import FieldSieve.Tree.Decode
import FieldSieve.Varint
import FieldSieve.WireType
import FieldSieve.WordCursor
import FieldSieve.Workers
import FieldSieve.Proofs.GivenNumbers
