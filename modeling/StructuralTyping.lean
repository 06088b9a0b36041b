import StructuralTyping.LogLevel
import StructuralTyping.Main
import StructuralTyping.Narrowing.Workspace
import StructuralTyping.Proofs.Reporting
import StructuralTyping.Proofs.ReportingNarrowing
import StructuralTyping.Proofs.Membership
import StructuralTyping.Proofs.Guarded
import StructuralTyping.Proofs.IdentityMeaning
import StructuralTyping.Proofs.Meeting
import StructuralTyping.Proofs.NormalizeHalts
import StructuralTyping.Proofs.NormalizeMeaning
import StructuralTyping.Proofs.Evaluation
import StructuralTyping.Proofs.Execution
import StructuralTyping.Proofs.NormalForm
import StructuralTyping.Proofs.NarrowingPredicates
import StructuralTyping.Proofs.NarrowingEquality
import StructuralTyping.Proofs.PropertyReads
import StructuralTyping.Proofs.FactsMeaning
import StructuralTyping.Proofs.Refinement
import StructuralTyping.Proofs.ScopeMeaning
import StructuralTyping.Proofs.TypingMeaning
import StructuralTyping.Proofs.WideningMeaning
import StructuralTyping.Proofs.CoverageMeaning
import StructuralTyping.Proofs.WalkMeaning
import StructuralTyping.Proofs.AssignMeaning
import StructuralTyping.Proofs.Idempotence
import StructuralTyping.Proofs.Reduction
import StructuralTyping.Proofs.Limits
import StructuralTyping.Proofs.Termination
import StructuralTyping.Proofs.KeptApplications
import StructuralTyping.Proofs.Likeness
import StructuralTyping.Proofs.IdentityEquivalence
import StructuralTyping.Proofs.GroupedObjects
import StructuralTyping.Proofs.Grouping
import StructuralTyping.Proofs.DefaultClause
import StructuralTyping.Proofs.NormalizedOperands
import StructuralTyping.Proofs.RelaxedChecks
import StructuralTyping.Proofs.ClosedCycles
import StructuralTyping.Proofs.ClosedSuites
import StructuralTyping.Proofs.CoverageRuns
import StructuralTyping.Proofs.FallOff
import StructuralTyping.Proofs.CycleGuard
import StructuralTyping.Proofs.EndlessComparison
import StructuralTyping.Proofs.MergedBases
import StructuralTyping.Proofs.ParameterPositions
import StructuralTyping.Proofs.OptionalChaining
import StructuralTyping.Proofs.UtilityFailures
import StructuralTyping.Proofs.UtilityAlgebra
import StructuralTyping.Proofs.SplitObjects
import StructuralTyping.Proofs.TypeTags
import StructuralTyping.Proofs.CompatibleTypes
import StructuralTyping.Proofs.Enumerations
import StructuralTyping.Proofs.TargetIntersections
import StructuralTyping.Proofs.Resemblance
import StructuralTyping.Proofs.AssignableCopies
import StructuralTyping.Proofs.SuppliedMembers
import StructuralTyping.Proofs.NegationNormalForm
import StructuralTyping.Proofs.Discrimination
import StructuralTyping.Proofs.Copies
import StructuralTyping.Proofs.KeptNames
import StructuralTyping.Proofs.Comparisons
import StructuralTyping.Proofs.Mirroring
import StructuralTyping.Proofs.CopiedRuns
import StructuralTyping.Proofs.CopiedEvaluations
import StructuralTyping.Proofs.JoinedContents
import StructuralTyping.Proofs.RearrangedUnions
import StructuralTyping.Proofs.Freezing
import StructuralTyping.Proofs.WideningClosure
import StructuralTyping.Proofs.MethodFree
import StructuralTyping.Proofs.FailingPaths
import StructuralTyping.Proofs.QuotedTexts
import StructuralTyping.Proofs.UniqueReading
import StructuralTyping.Proofs.ArenaHistory
import StructuralTyping.Proofs.ArenaTables
