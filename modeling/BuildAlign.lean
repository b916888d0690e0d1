import BuildAlign.Main
import BuildAlign.Proofs.OperationNotation
import BuildAlign.Proofs.RecordBoundaries
import BuildAlign.Proofs.OrderedMapLookup
import BuildAlign.Proofs.ReferenceSources
import BuildAlign.Proofs.AlignmentAccount
import BuildAlign.Proofs.DecisionSurvival
import BuildAlign.Proofs.PassRuns
import BuildAlign.Proofs.PomLookups
import BuildAlign.Proofs.PomTextEdits
import BuildAlign.Proofs.ElementEdits
import BuildAlign.Proofs.ReactorEdits
import BuildAlign.Proofs.DiskWrites
import BuildAlign.Proofs.JsonAssembly
import BuildAlign.Proofs.JsonPhase
import BuildAlign.Proofs.PathWalks
import BuildAlign.Proofs.PathReadings
import BuildAlign.Proofs.NodeEdits
import BuildAlign.Proofs.MatchesAfterSetting
import BuildAlign.Proofs.StrictAlignment
import BuildAlign.Proofs.IntroducedProperties
import BuildAlign.Proofs.PathSpellings
import BuildAlign.Proofs.NamedChildren
import BuildAlign.Proofs.MixedNamespaces
import BuildAlign.Proofs.VersionEdits
import BuildAlign.Proofs.NamespaceIndependence
import BuildAlign.Proofs.PropertyEdits
import BuildAlign.Proofs.PomReadings
import BuildAlign.Proofs.CommentTransparency
import BuildAlign.Proofs.KeyedMerges
import BuildAlign.Proofs.MergedResults
import BuildAlign.Proofs.ChangeReport
import BuildAlign.Proofs.PathGrammar
import BuildAlign.Proofs.MatchComposition
import BuildAlign.Proofs.DocumentOrder
import BuildAlign.Proofs.SteadyPaths
import BuildAlign.Proofs.DocumentKinds
import BuildAlign.Proofs.PassEffects
import BuildAlign.Proofs.FailingRuns
import BuildAlign.Proofs.MalformedSettings
import BuildAlign.Proofs.NumberlessIndices
import BuildAlign.Proofs.PathAnswers
import BuildAlign.Proofs.PropertyLines
import BuildAlign.Proofs.PathPlaces
import BuildAlign.Proofs.ModuleSearch
import BuildAlign.Proofs.PlainDocuments
import BuildAlign.Proofs.ReachableModules
import BuildAlign.Proofs.PassOutputs
import BuildAlign.Proofs.ProcessedPoms
import BuildAlign.Proofs.SearchInvariance
import BuildAlign.Proofs.DryRuns
import BuildAlign.Proofs.ContinuedLines
import BuildAlign.Proofs.OperationLines
import BuildAlign.Proofs.FatalViolations
import BuildAlign.Proofs.ReferenceChains
import BuildAlign.Proofs.NearestAncestors
import BuildAlign.Proofs.ConsistentEdits
import BuildAlign.Proofs.UndeclaredCandidates
import BuildAlign.Proofs.CandidateLists
import BuildAlign.Proofs.ExclusionKeys
import BuildAlign.Proofs.VersionOrder
import BuildAlign.Proofs.IndependentEdits
import BuildAlign.Proofs.ManagedAdditions
import BuildAlign.Proofs.DocumentNames
import BuildAlign.Proofs.WritableTrees
import BuildAlign.Proofs.WrittenPoms
