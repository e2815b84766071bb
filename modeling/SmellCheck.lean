import SmellCheck.Detection
import SmellCheck.Main
import SmellCheck.Proofs.Applying
import SmellCheck.Proofs.BracketedRepair
import SmellCheck.Proofs.References
import SmellCheck.Proofs.Descent
import SmellCheck.Proofs.Confinement
import SmellCheck.Proofs.ConfinedRepair
import SmellCheck.Proofs.ChildCounts
import SmellCheck.Proofs.Convergence
import SmellCheck.Proofs.NothingToName
import SmellCheck.Proofs.DeclaredConstants
import SmellCheck.Proofs.NamedOnce
import SmellCheck.Proofs.PlanningOrder
import SmellCheck.Proofs.Reporting
import SmellCheck.Proofs.ByteOrder
import SmellCheck.Proofs.Configuration
import SmellCheck.Proofs.MemberNames
import SmellCheck.Proofs.MemberClashes
import SmellCheck.Proofs.GuardLoop
import SmellCheck.Proofs.LineComments
import SmellCheck.Proofs.ShimEntries
import SmellCheck.Proofs.NullGuards
import SmellCheck.Proofs.Detectors
import SmellCheck.Proofs.NamedDocument
import SmellCheck.Proofs.EncapsulatedUses
import SmellCheck.Proofs.BottomUp
import SmellCheck.Proofs.RemovedFakes
import SmellCheck.Proofs.TokenPlaces
import SmellCheck.Proofs.BlockEnds
import SmellCheck.Proofs.UnwrappedGuards
import SmellCheck.Proofs.CopiedLambdas
import SmellCheck.Proofs.ShimTypes
import SmellCheck.Proofs.ExposedFields
import SmellCheck.Proofs.EncapsulationLoop
import SmellCheck.Proofs.DroppedValues
import SmellCheck.Proofs.DeclarationRanges
import SmellCheck.Proofs.VisibleNames
import SmellCheck.Proofs.UnusedParameters
import SmellCheck.Proofs.Comments
import SmellCheck.Proofs.InlinedComments
import SmellCheck.Proofs.KeptComments
import SmellCheck.Proofs.Dereferences
import SmellCheck.Proofs.NestedGuards
import SmellCheck.Proofs.Spacing
import SmellCheck.Proofs.RawKinds
import SmellCheck.Proofs.SharedArguments
import SmellCheck.Proofs.PropertyNames
import SmellCheck.Proofs.LiteralNames
import SmellCheck.Proofs.CaseConversions
