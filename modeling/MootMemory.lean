import MootMemory.BitCount
import MootMemory.GosperStep
import MootMemory.RankHeap
import MootMemory.BestOf
import MootMemory.SortedSearch
import MootMemory.StableSort
import MootMemory.ByteCodec
import MootMemory.Utf8Text
import MootMemory.OrderedMap
import MootMemory.BasisCodec
import MootMemory.BasisRoundTrip
import MootMemory.TermDocumentCounts
import MootMemory.BasisMath
import MootMemory.EmbeddingLanes
import MootMemory.RandomIndexing
import MootMemory.Ppmi
import MootMemory.Lsa
import MootMemory.Nmf
import MootMemory.BasisProvider
import MootMemory.CountsResumption
import MootMemory.BasisSafety
import MootMemory.BasisLifecycle
import MootMemory.VectorTypes
import MootMemory.EffectRun
import MootMemory.EffectViews
import MootMemory.ResidentArray
import MootMemory.SidecarFormat
import MootMemory.ResidentPartitions
import MootMemory.ResidentSlots
import MootMemory.ResidentStore
import MootMemory.ResidentStoreEffects
import MootMemory.SidecarParse
import MootMemory.ResidentStoreRefines
import MootMemory.SwiftSidecar
import MootMemory.SwiftSidecarTraps
import MootMemory.SwiftPartitions
import MootMemory.SwiftSidecarSafety
import MootMemory.Nearest
import MootMemory.BruteForce
import MootMemory.BruteForceSearch
import MootMemory.MihMasks
import MootMemory.MihIndex
import MootMemory.RecordMap
import MootMemory.MihUpdate
import MootMemory.MihBands
import MootMemory.MihKnn
import MootMemory.IndexAgreement
import MootMemory.VectorTable
import MootMemory.FloatScan
import MootMemory.FloatBruteForce
import MootMemory.FloatIndexRuns
import MootMemory.MaxSim
import MootMemory.GroupRanking
import MootMemory.SourceLanes
import MootMemory.MihBudget
import MootMemory.IsoEpochs
import MootMemory.BitSeriesPartition
import MootMemory.CumulativeChoose
import MootMemory.Fusion
import MootMemory.ChunkSpans
import MootMemory.ChunkIdentity
import MootMemory.VectorStore
import MootMemory.VectorStoreEffects
import MootMemory.VectorWriteFailure
import MootMemory.VectorContents
import MootMemory.ResidentStoreHolds
import MootMemory.VectorHeld
import MootMemory.VectorMirror
import MootMemory.VectorRuns
import MootMemory.Formula
import MootMemory.TieredFormula
import MootMemory.BitField
import MootMemory.DrawerTypes
import MootMemory.AuditTypes
import MootMemory.BitmapEvaluator
import MootMemory.SensitivityCeiling
import MootMemory.ReferenceSubstrate
import MootMemory.FormulaLeaves
import MootMemory.TieredExactness
import MootMemory.TieredNecessity
import MootMemory.TieredSeparable
import MootMemory.PlainEvaluation
import MootMemory.RecallVerbs
import MootMemory.FilterAlgebra
import MootMemory.KeyedTable
import MootMemory.Vocabulary
import MootMemory.NodeTree
import MootMemory.ContainerFingerprints
import MootMemory.ContainerPruning
import MootMemory.DrawerStore
import MootMemory.DrawerWrites
import MootMemory.DrawerFingerprint
import MootMemory.DrawerExpunge
import MootMemory.DrawerPlacement
import MootMemory.DrawerEffects
import MootMemory.DrawerWriteCases
import MootMemory.DrawerLineageCases
import MootMemory.NodeLifecycle
import MootMemory.DrawerPlacementCases
import MootMemory.LoopRuns
import MootMemory.StoreCalls
import MootMemory.PrintedStore
import MootMemory.StoredFingerprints
import MootMemory.PrintedErasure
import MootMemory.ByIdAgreement
import MootMemory.RowSet
import MootMemory.InvertedIndexStore
import MootMemory.IndexFreshness
import MootMemory.WorkClaims
import MootMemory.CorpusTypes
import MootMemory.Chunker
import MootMemory.SwiftChunker
import MootMemory.CorpusSession
import MootMemory.CorpusRuns
import MootMemory.CorpusStores
import MootMemory.CorpusIngest
import MootMemory.CorpusLifecycle
import MootMemory.CorpusSteady
import MootMemory.FaultSteps
import MootMemory.VectorRows
import MootMemory.CorpusEffects
import MootMemory.CorpusFrames
import MootMemory.CorpusCalls
import MootMemory.CallFrames
import MootMemory.ReferenceCorpus
import MootMemory.BatchIngest
import MootMemory.Reindexing
import MootMemory.ShardedImport
import MootMemory.SourceRanking
import MootMemory.CorpusReach
import MootMemory.NamedWrites
import MootMemory.StoreWrites
import MootMemory.CorpusAnswers
import MootMemory.CorpusBooks
import MootMemory.MaintainedCounts
import MootMemory.CountedRuns
import MootMemory.CountedCalls
import MootMemory.MerkleRoots
import MootMemory.IdSpelling
import MootMemory.SpelledRuns
import MootMemory.IndexActor
import MootMemory.IndexStages
import MootMemory.IndexActorSound
import MootMemory.IndexActorRuns
import MootMemory.RestartTransparency
import MootMemory.NamedPostings
import MootMemory.ShardAgreement
import MootMemory.ChunkProvenance
import MootMemory.Retrieval
import MootMemory.GateLaws
import MootMemory.AuditStamps
import MootMemory.BitmapWrites
import MootMemory.AuditHistory
import MootMemory.ProjectionSteps
import MootMemory.AuditProjection
import MootMemory.DestinationNames
import MootMemory.CoverageSteps
import MootMemory.FingerprintCoverage
import MootMemory.ParentForest
import MootMemory.DrawerTunnels
import MootMemory.OutlineForest
import MootMemory.ReparentOutcomes
import MootMemory.TopScan
import MootMemory.InvertedIndex
import MootMemory.PostingCursors
import MootMemory.PivotScan
import MootMemory.PivotSteps
import MootMemory.WandExactness
import MootMemory.BlockMaxExactness
import MootMemory.StorageFaults
import MootMemory.FailedCapture
import MootMemory.EstateCapture
import MootMemory.KnownRooms
import MootMemory.BatchCapture
import MootMemory.EstateVerbs
import MootMemory.SensitivityWrites
import MootMemory.TunnelExposure
import MootMemory.IngestQueue
import MootMemory.DrainPrograms
import MootMemory.DrainWorld
import MootMemory.DrainSoundness
import MootMemory.DrainTakeover
import MootMemory.ReducedVocabulary
import MootMemory.LatentProviders
import MootMemory.PpmiOrders
import MootMemory.RecallStream
import MootMemory.NodeBundles
import MootMemory.MerkleRollup
import MootMemory.EstateRemoval
import MootMemory.LineageHeads
import MootMemory.LineageRuns
import MootMemory.ExpungeFinality
