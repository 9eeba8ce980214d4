import CyborgdbEmbed.TransitionSystem
import CyborgdbEmbed.Registry
import CyborgdbEmbed.SessionStoreState
import CyborgdbEmbed.SessionStoreSteps
import CyborgdbEmbed.SessionStoreReferences
import CyborgdbEmbed.SessionStoreInvariant
import CyborgdbEmbed.SessionStorePreservation
import CyborgdbEmbed.SessionStoreExclusion
import CyborgdbEmbed.SessionStoreFailures
import CyborgdbEmbed.SessionStoreStaleErrors
import CyborgdbEmbed.SessionStoreListing
import CyborgdbEmbed.SessionStoreAtRest
import CyborgdbEmbed.Tokenizer
import CyborgdbEmbed.GenRegistry
import CyborgdbEmbed.ModelLookup
import CyborgdbEmbed.ParityMaintenance
import CyborgdbEmbed.Loops
import CyborgdbEmbed.Pooling
import CyborgdbEmbed.OrtSession
import CyborgdbEmbed.EncodeRows
import CyborgdbEmbed.EncodeEquivalence
import CyborgdbEmbed.FilePaths
import CyborgdbEmbed.Resolve
import CyborgdbEmbed.EnsureFile
import CyborgdbEmbed.SharedCache
import CyborgdbEmbed.EnsureFileSound
import CyborgdbEmbed.CacheSafety
import CyborgdbEmbed.ThreadPool
import CyborgdbEmbed.ThreadPoolSize
import CyborgdbEmbed.ExactFloat
import CyborgdbEmbed.PoolingExact
import CyborgdbEmbed.PoolingPadding
import CyborgdbEmbed.PoolingArms
import CyborgdbEmbed.Stores
import CyborgdbEmbed.EncodeBatches
import CyborgdbEmbed.EncodeStores
import CyborgdbEmbed.SessionStoreRoles
import CyborgdbEmbed.SessionStoreStats
import CyborgdbEmbed.SessionStoreSharedFailures
import CyborgdbEmbed.EnsureFileEndings
import CyborgdbEmbed.CachePaths
import CyborgdbEmbed.RegistryText
import CyborgdbEmbed.ParityGate
import CyborgdbEmbed.CppLiterals
import CyborgdbEmbed.CppReader
import CyborgdbEmbed.RegistryHeader
import CyborgdbEmbed.RegistryReading
import CyborgdbEmbed.ListSplits
import CyborgdbEmbed.ModelNames
import CyborgdbEmbed.AccessToken
import CyborgdbEmbed.Download
import CyborgdbEmbed.OnePassElimination
import CyborgdbEmbed.RedundantArchives
import CyborgdbEmbed.ArchiveMembers
import CyborgdbEmbed.LinePatterns
import CyborgdbEmbed.SymbolDiff
import CyborgdbEmbed.SymbolCollisions
import CyborgdbEmbed.EncodeAccesses
import CyborgdbEmbed.LoadSession
import CyborgdbEmbed.EncodeBounds
import CyborgdbEmbed.RegistryRewrites
import CyborgdbEmbed.VerdictWrites
import CyborgdbEmbed.PinWrites
import CyborgdbEmbed.Sha256File
import CyborgdbEmbed.GoldenScore
import CyborgdbEmbed.CompareMetrics
import CyborgdbEmbed.MakeOrtSession
import CyborgdbEmbed.SessionStoreProgress
import CyborgdbEmbed.VerifiedLoads
import CyborgdbEmbed.ColdLoad
import CyborgdbEmbed.Embedder
import CyborgdbEmbed.RunOrtEncode
import CyborgdbEmbed.ConcurrentEncodes
import CyborgdbEmbed.GoldenFiles
import CyborgdbEmbed.ListsInStep
import CyborgdbEmbed.PinnedReleases
import CyborgdbEmbed.OpenedModels
import CyborgdbEmbed.RecallAtK
import CyborgdbEmbed.ArtifactCache
import CyborgdbEmbed.ArtifactTrust
import CyborgdbEmbed.GoldenTest
import CyborgdbEmbed.GoldenTestRuns
