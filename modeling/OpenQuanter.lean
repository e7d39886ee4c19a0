import OpenQuanter.Logged
import OpenQuanter.SortedAssoc
import OpenQuanter.Fixed
import OpenQuanter.Balances
import OpenQuanter.Margin
import OpenQuanter.RestingBook
import OpenQuanter.L0
import OpenQuanter.L1
import OpenQuanter.VenueBook
import OpenQuanter.L2
import OpenQuanter.Matcher
import OpenQuanter.Trace
import OpenQuanter.Holding
import OpenQuanter.Event
import OpenQuanter.State
import OpenQuanter.Kernel
import OpenQuanter.Check
import OpenQuanter.Frames
import OpenQuanter.Outputs
import OpenQuanter.Liquidation
import OpenQuanter.Solvency
import OpenQuanter.WorkingSet
import OpenQuanter.OrdersEnd
import OpenQuanter.VenueMatching
import OpenQuanter.HedgeMode
import OpenQuanter.Overlay
import OpenQuanter.DepthChain
import OpenQuanter.Bytes
import OpenQuanter.EventCodec
import OpenQuanter.EventStrict
import OpenQuanter.JournalFrame
import OpenQuanter.Reader
import OpenQuanter.Writer
import OpenQuanter.Sequencer
import OpenQuanter.Dedup
import OpenQuanter.LiveBook
import OpenQuanter.LiveBooks
import OpenQuanter.Checked
import OpenQuanter.Ledger
import OpenQuanter.Traded
import OpenQuanter.LateFees
import OpenQuanter.LedgerFees
import OpenQuanter.Identity
import OpenQuanter.Legs
import OpenQuanter.Conservation
import OpenQuanter.Transparent
import OpenQuanter.L1Moves
import OpenQuanter.Ladder
import OpenQuanter.Shards
import OpenQuanter.Decimal
import OpenQuanter.OrderIds
import OpenQuanter.ClientIds
import OpenQuanter.Window
import OpenQuanter.Instrument
import OpenQuanter.RiskGate
import OpenQuanter.History
import OpenQuanter.L0Run
import OpenQuanter.CrossedBook
import OpenQuanter.Custody
import OpenQuanter.Take
import OpenQuanter.LiveRecord
import OpenQuanter.Belief
import OpenQuanter.LiveSession
import OpenQuanter.Recovery
import OpenQuanter.FundingWatch
import OpenQuanter.FundingOnce
import OpenQuanter.FundingWhole
import OpenQuanter.FundingSkips
import OpenQuanter.Coverage
import OpenQuanter.CoverageWire
import OpenQuanter.TextLines
import OpenQuanter.FundingJournal
import OpenQuanter.FundingReplay
import OpenQuanter.OrderMap
import OpenQuanter.OrderRuns
import OpenQuanter.LegSizes
import OpenQuanter.Postings
import OpenQuanter.Readers
import OpenQuanter.Attribution
import OpenQuanter.Shadow
import OpenQuanter.ShadowPairs
import OpenQuanter.CaptureFrame
import OpenQuanter.TickFile
import OpenQuanter.TickReaders
import OpenQuanter.RunFile
import OpenQuanter.RunRoundTrip
import OpenQuanter.CaptureManifest
import OpenQuanter.CaptureScan
import OpenQuanter.CaptureWriter
import OpenQuanter.CaptureTruth
import OpenQuanter.CaptureTools
import OpenQuanter.Aggregator
import OpenQuanter.CapturePlaces
import OpenQuanter.TickWindows
import OpenQuanter.TopOfBook
import OpenQuanter.Backtest
import OpenQuanter.Endings
import OpenQuanter.Env
import OpenQuanter.Unplaced
import OpenQuanter.Twins
import OpenQuanter.Brackets
import OpenQuanter.Maintenance
import OpenQuanter.LiquidationPrice
import OpenQuanter.LiquidationLevels
import OpenQuanter.FundingSchedule
import OpenQuanter.FundingRun
import OpenQuanter.QueueWaits
import OpenQuanter.CaptureSession
import OpenQuanter.EveryHolding
import OpenQuanter.ClosingPrice
import OpenQuanter.AfterLiquidation
import OpenQuanter.Pulled
import OpenQuanter.HeldTarget
import OpenQuanter.DepthTake
import OpenQuanter.BookMap
import OpenQuanter.PartialClose
import OpenQuanter.GateBounds
import OpenQuanter.SmallestOrder
import OpenQuanter.SplitFills
import OpenQuanter.Numeral
import OpenQuanter.DecimalText
import OpenQuanter.FundingCharge
import OpenQuanter.AcrossCurrencies
import OpenQuanter.Lookahead
import OpenQuanter.ChunkedScan
import OpenQuanter.SealedWindows
import OpenQuanter.BufWriter
import OpenQuanter.BufferedWriter
import OpenQuanter.FlushedRecords
import OpenQuanter.BitDivision
import OpenQuanter.CrcBursts
import OpenQuanter.BlockStream
import OpenQuanter.RootFractions
import OpenQuanter.SecureHash
import OpenQuanter.Sha256Stream
import OpenQuanter.Sha512
import OpenQuanter.Hmac
import OpenQuanter.EditScript
import OpenQuanter.FillDiff
import OpenQuanter.AlignedFills
import OpenQuanter.Interleaving
import OpenQuanter.MergedCaptures
import OpenQuanter.FirstCopies
import OpenQuanter.ReorderedRecords
import OpenQuanter.JsonText
import OpenQuanter.JsonScan
import OpenQuanter.ScannedObjects
import OpenQuanter.ScannedFields
import OpenQuanter.PartitionPoint
import OpenQuanter.TierSchedule
import OpenQuanter.Interlock
import OpenQuanter.MarchYear
import OpenQuanter.PaddedDecimal
import OpenQuanter.UtcDays
import OpenQuanter.MatchedBrackets
import OpenQuanter.EnclosingObjects
import OpenQuanter.MemberValues
import OpenQuanter.Deviation
import OpenQuanter.XorShift
import OpenQuanter.FillReport
import OpenQuanter.SimVenue
import OpenQuanter.SimMatching
import OpenQuanter.SimRuns
import OpenQuanter.ExactlyOnce
import OpenQuanter.Streak
import OpenQuanter.Supervisor
import OpenQuanter.Snapshots
import OpenQuanter.PagedHistory
