import Svp.Lib.System
import Svp.Lib.OrderedMap
import Svp.Exec.OrderedReduction
import Svp.Exec.RetryBudget
import Svp.Exec.LeaseTimes
import Svp.Exec.LossQuarantine
import Svp.Exec.FrameDecoder
import Svp.Exec.CancelOrder
import Svp.Exec.TaskGraphCreate
import Svp.Blocks.BlockSizes
import Svp.Cache.PinSafety
import Svp.Vision.ReuseSources
import Svp.Audio.ChunkReconciliation
import Svp.Package.MediaOffsets
import Svp.Query.ShortestPath
import Svp.Package.TimelineAgreement
import Svp.Exec.CanonicalJson
import Svp.Cache.Eviction
import Svp.Vision.OcrTemporalSampling
import Svp.Worker.MemoryShares
import Svp.Worker.SessionAccounts
import Svp.Worker.MemoryTurns
import Svp.Worker.Admission
import Svp.Worker.AgentSession
import Svp.Lib.Layers
import Svp.Query.Traversal
import Svp.Lib.DisjointSets
import Svp.Vision.OcrReadings
import Svp.Vision.OcrReconciliation
import Svp.Lib.Extent
import Svp.Vision.EntityWindows
import Svp.Vision.EntityAccounts
import Svp.Vision.EntityAssembly
import Svp.Vision.EntityAssembly
import Svp.Audio.ChunkPlan
import Svp.Lib.Outcome
import Svp.Media.CanonicalTiming
import Svp.Lib.BestPath
import Svp.Audio.SequenceDecoder
import Svp.Lib.LowerEnvelope
import Svp.Validation.DistanceTransform
import Svp.Vision.EntitySampling
import Svp.Lib.Leb128
import Svp.Vision.MaskRle
import Svp.Validation.MaskPayloads
import Svp.Vision.OcrBatchJournal
import Svp.Lib.Accumulation
import Svp.Vision.FrameCatalog
import Svp.Lib.ChainedChecks
import Svp.Validation.EquivalenceLedger
import Svp.Exec.JsonLines
import Svp.Vision.OcrDetectionsCodec
import Svp.Lib.Slots
import Svp.Vision.OcrBatchReduction
import Svp.Package.EntryPaths
import Svp.Builder.StageTaskPlan
import Svp.Builder.StagingScope
import Svp.Builder.StageGraphWidth
import Svp.Lib.Antichain
import Svp.Builder.StageRuns
import Svp.Exec.JsonText
import Svp.Package.MediaBinding
import Svp.Package.MediaBindingText
import Svp.Builder.PiecePlan
import Svp.Audio.SpeakerClusters
import Svp.Lib.KeySort
import Svp.Package.IndexLogicalRows
import Svp.Lib.ByteStrings
import Svp.Builder.StagingTree
import Svp.Builder.StagingRestore
import Svp.Lib.BestWalk
import Svp.Audio.CtcAlignment
import Svp.Audio.CtcAligner
import Svp.Vision.EntityTracker
import Svp.Vision.SceneCuts
import Svp.Lib.Binary64Order
import Svp.Lib.EditDistance
import Svp.Vision.OcrSimilarity
import Svp.Lib.Colouring
import Svp.Audio.CannotLinkRepair
import Svp.Vision.SceneSegmentation
import Svp.Lib.InputStream
import Svp.Audio.WavReaders
import Svp.Audio.WavAgreement
import Svp.Audio.VadTimeMapper
import Svp.Audio.VadSpeech
import Svp.Validation.JsonNumbers
import Svp.Validation.JsonSchemaSubset
import Svp.Validation.JsonSchemaMeaning
import Svp.Validation.JsonSchemaVerdict
import Svp.Package.MaskRelationships
import Svp.Blocks.WrittenBlocks
import Svp.Vision.MaskStream
import Svp.Package.StreamedMasks
import Svp.Package.MediaBindingFactory
import Svp.Package.MediaBindingVerification
import Svp.Audio.OwnershipTurns
import Svp.Audio.WordOwnership
import Svp.Audio.OwnershipVerdicts
import Svp.Audio.MutualSuppression
import Svp.Lib.DurableCalls
import Svp.Exec.JournalRows
import Svp.Exec.RecoveryJournal
import Svp.Exec.JournalCommit
import Svp.Exec.JournalResume
import Svp.Exec.JournalRecovery
import Svp.Exec.CommittedResults
