import PerpCarry.Queue.Fifo
import PerpCarry.Book.Meaning
import PerpCarry.Book.Compare
import PerpCarry.Book.Rejection
import PerpCarry.Impact.CostNeutral
import PerpCarry.Impact.DepthFlag
import PerpCarry.Pipeline.Sequential
import PerpCarry.Strategy.SettlementChain
import PerpCarry.Tools.PassVerdict
import PerpCarry.Tools.MergeTotals
import PerpCarry.Models.RollingFunding
import PerpCarry.Strategy.Carry
import PerpCarry.Strategy.Sizing
import PerpCarry.Strategy.WalkForward
import PerpCarry.Strategy.RunnerSteps
import PerpCarry.Strategy.Hedged
import PerpCarry.Strategy.Solvency
import PerpCarry.Strategy.Cadence
import PerpCarry.Strategy.Evidence
import PerpCarry.Tools.RunBacktest
import PerpCarry.Pipeline.Batch
import PerpCarry.Ingestion.CorpusGate
import PerpCarry.Ingestion.FetchBook
import PerpCarry.Lib.Groups
import PerpCarry.Impact.Checkpoint
import PerpCarry.Pipeline.Threads
import PerpCarry.Models.CalibrationDataset
import PerpCarry.Models.SamplerSteps
import PerpCarry.Models.SamplerReference
import PerpCarry.Impact.Resume
import PerpCarry.Impact.StaticCost
import PerpCarry.Impact.Liquidity
import PerpCarry.Impact.SizeMonotone
import PerpCarry.Strategy.SizingCapacity
import PerpCarry.Models.FundingWalkForward
import PerpCarry.Models.ImpactFit
import PerpCarry.Strategy.Hysteresis
import PerpCarry.Strategy.CapitalCap
import PerpCarry.Strategy.BookedCosts
import PerpCarry.Models.FundingWindow
import PerpCarry.Models.SequentialPosterior
import PerpCarry.Ingestion.FundingSeries
import PerpCarry.Models.SeriesAdmission
import PerpCarry.Ingestion.TradeIds
import PerpCarry.Ingestion.SymbolMeta
import PerpCarry.Strategy.Simultaneous
import PerpCarry.Strategy.FeeOrder
import PerpCarry.Tools.CsvRows
import PerpCarry.Ingestion.FetchSnapshot
import PerpCarry.Tools.SnapshotImages
import PerpCarry.Tools.ExportBook
import PerpCarry.Core.Digest
import PerpCarry.Lib.Blocks
import PerpCarry.Ingestion.MarkPrices
import PerpCarry.Lib.Firsts
import PerpCarry.Ingestion.CombineWindows
import PerpCarry.Models.CumulativeScore
import PerpCarry.Models.ImpactStrata
import PerpCarry.Strategy.AverageCost
import PerpCarry.Models.SliceGrid
import PerpCarry.Lib.Delimited
import PerpCarry.Book.DumpCsv
import PerpCarry.Lib.Files
import PerpCarry.Ingestion.Download
import PerpCarry.Models.ImpactArtifact
import PerpCarry.Models.ImpactExport
import PerpCarry.Strategy.TrainingRows
import PerpCarry.Strategy.BookExecutor
import PerpCarry.Strategy.TradingCosts
import PerpCarry.Lib.Partitions
import PerpCarry.Core.Months
import PerpCarry.Ingestion.FetchTrades
import PerpCarry.Ingestion.BackfillGate
import PerpCarry.Lib.Cursor
import PerpCarry.Core.Dates
import PerpCarry.Ingestion.ValidateData
import PerpCarry.Core.Civil
import PerpCarry.Ingestion.PriceBars
import PerpCarry.Lib.Tally
import PerpCarry.Core.DecimalSum
import PerpCarry.Models.BarVolume
import PerpCarry.Tools.ExportText
import PerpCarry.Tools.ValidateBook
import PerpCarry.Tools.RunPipeline
import PerpCarry.Models.VerifiedInputs
