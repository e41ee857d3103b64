import TypedGraph.Store.Features
import TypedGraph.Store.Localize
import TypedGraph.Proofs.SampleOutcome
import TypedGraph.Proofs.Refinement
import TypedGraph.Proofs.OffsetTables
import TypedGraph.Proofs.EdgeEnds
import TypedGraph.Proofs.EdgeIndices
import TypedGraph.Proofs.FeatureRows
import TypedGraph.Proofs.SampleShortcut
import TypedGraph.Proofs.LaterLoads
import TypedGraph.Proofs.FetchedColumns
import TypedGraph.Proofs.FeatureShortcuts
import TypedGraph.Proofs.IntegerFeatures
import TypedGraph.Proofs.OldIds
import TypedGraph.Proofs.TypeConsistency
import TypedGraph.Proofs.FailedBuilds
import TypedGraph.Proofs.KeptIds
import TypedGraph.Proofs.RepeatedBuilds
import TypedGraph.Proofs.CallSequences
import TypedGraph.Proofs.LoadOrder
import TypedGraph.Proofs.StableIds
import TypedGraph.Proofs.StableStores
import TypedGraph.Proofs.FeatureBatches
import TypedGraph.Proofs.Subgraphs
import TypedGraph.Proofs.Tilings
import TypedGraph.Proofs.EdgeBlocks
import TypedGraph.Proofs.Selections
import TypedGraph.Proofs.TypeNumerals
import TypedGraph.Proofs.Descriptors
import TypedGraph.Proofs.PartitionedFetches
import TypedGraph.Proofs.Narrowing
import TypedGraph.Proofs.IdWidths
import TypedGraph.Proofs.ColumnTyping
import TypedGraph.Proofs.FetchedTables
import TypedGraph.Proofs.AllColumns
import TypedGraph.Proofs.JoinedTensors
import TypedGraph.Proofs.FrameMatrices
import TypedGraph.Proofs.TensorShapes
import TypedGraph.Proofs.LocalIds
