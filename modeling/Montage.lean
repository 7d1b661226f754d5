import Montage.Base64
import Montage.Command
import Montage.Encoding
import Montage.Environment
import Montage.Filter.Basic
import Montage.Filter.Graph
import Montage.Filter.Plan
import Montage.Filter.Quoting
import Montage.Filter.Units
import Montage.Http.MediaType
import Montage.Http.Message
import Montage.Http.Percent
import Montage.Http.Sharing
import Montage.Instant.Basic
import Montage.Instant.Reading
import Montage.Json.Basic
import Montage.Json.Decode
import Montage.Json.Fault
import Montage.Json.Printer
import Montage.Json.Reader
import Montage.Json.Record
import Montage.Json.Token
import Montage.Machine.Disk
import Montage.Machine.Ending
import Montage.Machine.Identifier
import Montage.Machine.Job
import Montage.Machine.Path
import Montage.Metrics.Path
import Montage.Metrics.Tally
import Montage.Number.Binary
import Montage.Number.Notation
import Montage.Number.PowerOfTen
import Montage.Number.Reading
import Montage.Number.Rounding
import Montage.Number.Shortest
import Montage.Proofs.CommandWords
import Montage.Proofs.CueTimes
import Montage.Proofs.DecimalDigits
import Montage.Proofs.DiskFrame
import Montage.Proofs.DiskPlaces
import Montage.Proofs.DiskTree
import Montage.Proofs.DoubleArithmetic
import Montage.Proofs.DoubleErrors
import Montage.Proofs.DoubleOrder
import Montage.Proofs.DoubleRounding
import Montage.Proofs.DoubleSums
import Montage.Proofs.DoubleValue
import Montage.Proofs.DoubleWords
import Montage.Proofs.EncodedImages
import Montage.Proofs.FilterAmounts
import Montage.Proofs.FilterBlur
import Montage.Proofs.FilterClosure
import Montage.Proofs.FilterCompile
import Montage.Proofs.FilterContents
import Montage.Proofs.FilterEffects
import Montage.Proofs.FilterGrammar
import Montage.Proofs.FilterInputs
import Montage.Proofs.FilterIntent
import Montage.Proofs.FilterLabels
import Montage.Proofs.FilterNotation
import Montage.Proofs.FilterNumbers
import Montage.Proofs.FilterPicture
import Montage.Proofs.FilterRenaming
import Montage.Proofs.FilterSound
import Montage.Proofs.FilterStages
import Montage.Proofs.FilterWiring
import Montage.Proofs.JobFrame
import Montage.Proofs.JobLogic
import Montage.Proofs.JobMishaps
import Montage.Proofs.JobPool
import Montage.Proofs.JobTrouble
import Montage.Proofs.JsonPrinted
import Montage.Proofs.JsonReading
import Montage.Proofs.JsonRecords
import Montage.Proofs.JsonTokens
import Montage.Proofs.LabelPasses
import Montage.Proofs.ModelsWritten
import Montage.Proofs.NumberText
import Montage.Proofs.PathJoin
import Montage.Proofs.PathLabels
import Montage.Proofs.PoolHoldings
import Montage.Proofs.PoolWrites
import Montage.Proofs.PowerAccuracy
import Montage.Proofs.PowerBounds
import Montage.Proofs.QuotedTokens
import Montage.Proofs.RecordMembers
import Montage.Proofs.RenderArrival
import Montage.Proofs.RenderCourse
import Montage.Proofs.RenderFootprint
import Montage.Proofs.RenderHoldings
import Montage.Proofs.RenderLayout
import Montage.Proofs.RenderLeavings
import Montage.Proofs.RenderLogs
import Montage.Proofs.RenderNames
import Montage.Proofs.RenderOutcome
import Montage.Proofs.RenderOutput
import Montage.Proofs.RenderPrograms
import Montage.Proofs.RenderReservation
import Montage.Proofs.RenderStaging
import Montage.Proofs.RenderSteps
import Montage.Proofs.RenderUnwritten
import Montage.Proofs.RenderWorkspace
import Montage.Proofs.RequestMeaning
import Montage.Proofs.RequestNumbers
import Montage.Proofs.RequestViolations
import Montage.Proofs.RequestedNames
import Montage.Proofs.ReservedNames
import Montage.Proofs.ServiceDiscretion
import Montage.Proofs.ServiceHeaders
import Montage.Proofs.ServicePreflight
import Montage.Proofs.StagedNames
import Montage.Proofs.StoreKept
import Montage.Proofs.StoreMaps
import Montage.Proofs.StoreMishaps
import Montage.Proofs.StoreReads
import Montage.Proofs.StoreShelves
import Montage.Proofs.StoreUploads
import Montage.Proofs.SubtitleEvents
import Montage.Proofs.SubtitleLines
import Montage.Proofs.SubtitlePaths
import Montage.Proofs.SubtitleStyles
import Montage.Proofs.TempoFactors
import Montage.Proofs.TextDecode
import Montage.Proofs.TextTrimming
import Montage.Proofs.TimestampGrammar
import Montage.Proofs.TrackTimes
import Montage.Proofs.WrittenRecords
import Montage.Render.Audit
import Montage.Render.Fault
import Montage.Render.Naming
import Montage.Render.Probe
import Montage.Render.Run
import Montage.Render.Settings
import Montage.Report
import Montage.Request.Basic
import Montage.Request.Format
import Montage.Request.Violation
import Montage.Service.Basic
import Montage.Service.Endpoint
import Montage.Service.Refusal
import Montage.Service.Settings
import Montage.Store.Basic
import Montage.Store.Record
import Montage.Subtitle.Color
import Montage.Subtitle.Document
import Montage.Subtitle.Timecode
import Montage.Text.Blank
import Montage.Text.Pieces
import Montage.Text.Printable
import Montage.Text.Quoted
import Montage.Text.Utf8
