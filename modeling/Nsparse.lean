import Nsparse.Lib.TopK
import Nsparse.Lib.Ranks
import Nsparse.Lib.Loop
import Nsparse.Lib.BitSet
import Nsparse.Lib.Buckets
import Nsparse.Lib.Csr
import Nsparse.Lib.Wire
import Nsparse.Lib.Truncation
import Nsparse.Lib.CountingSort
import Nsparse.Types
import Nsparse.Std
import Nsparse.SparseVectors
import Nsparse.Ranker
import Nsparse.InvertedLists
import Nsparse.IdSelector
import Nsparse.Index
import Nsparse.InvertedIndex
import Nsparse.TermScorer
import Nsparse.MaxScore
import Nsparse.InvertedHistory
import Nsparse.ExactSearch
import Nsparse.IdMapIndex
import Nsparse.InvertedCorpus
import Nsparse.IdMapSearch
import Nsparse.Values
import Nsparse.Serialize
import Nsparse.Kmeans
import Nsparse.Clusters
import Nsparse.Windows
import Nsparse.ClusteredBuild
import Nsparse.WindowPostings
import Nsparse.ClusteredLists
import Nsparse.ClusterStore
import Nsparse.KmeansPartition
import Nsparse.StorableLists
import Nsparse.VectorStore
import Nsparse.Quantizer
import Nsparse.BatchedBuild
import Nsparse.SeismicIndex
import Nsparse.BatchedEqual
import Nsparse.SpillHistory
import Nsparse.InlineLayout
import Nsparse.InlineForward
import Nsparse.InlineSafety
import Nsparse.InlineBlock
import Nsparse.InlineRoundTrip
import Nsparse.CopyReader
import Nsparse.ListReaders
import Nsparse.ListAgreement
import Nsparse.VectorReaders
import Nsparse.CsrLayout
import Nsparse.CsrIngest
import Nsparse.SeismicSearch
import Nsparse.DiskSeismicIndex
import Nsparse.DiskPayload
import Nsparse.IndexFile
import Nsparse.CopyRoundTrip
import Nsparse.PostingRoundTrip
import Nsparse.BuiltIndex
import Nsparse.StoredSearch
import Nsparse.FileRoundTrip
import Nsparse.InvertedFile
import Nsparse.WholeFile
import Nsparse.Truncation
import Nsparse.TruncatedFile
import Nsparse.SummarySpec
import Nsparse.BrutalIndex
import Nsparse.PlainIndex
import Nsparse.AddBatches
import Nsparse.GpuCorpus
import Nsparse.GpuSummarizer
import Nsparse.DenseQuery
import Nsparse.ExactMatch
import Nsparse.Lib.ScratchPool
import Nsparse.QueryScratch
import Nsparse.WidthAgreement
import Nsparse.DocDirectory
import Nsparse.DiskReload
import Nsparse.DiskFile
import Nsparse.DiskBuilt
import Nsparse.WindowBalance
import Nsparse.WindowInversion
import Nsparse.PrunedClusters
import Nsparse.ClusterCount
import Nsparse.WindowProgress
import Nsparse.NearestCentroid
import Nsparse.SummaryScores
import Nsparse.SummaryOrder
import Nsparse.BlockScores
import Nsparse.ReloadedBlocks
import Nsparse.BlockOrder
import Nsparse.BlockBudget
import Nsparse.ReloadedSearch
import Nsparse.ExactReload
import Nsparse.SavedIndex
import Nsparse.MappedHistory
import Nsparse.SavedHistory
import Nsparse.LabelTranslation
import Nsparse.Selection
import Nsparse.ParallelRegion
import Nsparse.Heaps
import Nsparse.ScalarCodec
import Nsparse.IntegerKernels
import Nsparse.ArgmaxKernels
import Nsparse.GatherKernels
import Nsparse.MappedCsr
import Nsparse.FailedConversion
import Nsparse.GpuAssigner
import Nsparse.SummarizeKernel
import Nsparse.GpuMaxPool
import Nsparse.BestRows
import Nsparse.PrunedVisit
import Nsparse.SummaryBounds
import Nsparse.LosslessLists
import Nsparse.LosslessSearch
import Nsparse.Lib.DelimitedText
import Nsparse.IndexFactory
import Nsparse.FilledOutput
import Nsparse.IdMapFile
import Nsparse.IdMapHistory
import Nsparse.ResidentIndex
import Nsparse.SoundSearch
import Nsparse.CoveringBudget
import Nsparse.BufferBounds
import Nsparse.Agreement
import Nsparse.LosslessAgreement
import Nsparse.CoveringAgreement
