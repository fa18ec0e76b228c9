import Blorp.Check.Reachability
import Blorp.Check.Overlap
import Blorp.Check.PathBoundedness
import Blorp.Check.GrowthAgreement
import Blorp.Check.TraitAcceptance
import Blorp.Own.LabelErasure
import Blorp.Verify.LayoutStorage
import Blorp.Verify.Soundness
import Blorp.Verify.Agreement
import Blorp.Library.DictRefinement
import Blorp.Load.Inventory
import Blorp.Lex.Nesting
import Blorp.Lex.BlankLines
import Blorp.Namespace.OrderFree
import Blorp.Runtime.LineFold
import Blorp.Verify.SelectionReads
import Blorp.Check.TailCalls
import Blorp.Check.StructuralEquality
import Blorp.Check.AutomaticEquality
import Blorp.Check.EqualityFixpoint
import Blorp.Library.CheckedInt
import Blorp.Library.PathLocation
import Blorp.Library.ListSort
import Blorp.Lex.Utf8
import Blorp.Utils.Interning
import Blorp.Namespace.Issued
import Blorp.Load.ModuleOrder
import Blorp.Lib.Actions
import Blorp.Lib.Counted
import Blorp.Runtime.Decimal
import Blorp.Runtime.Heap
import Blorp.Runtime.ListUpdates
import Blorp.Runtime.HeapRules
import Blorp.Runtime.Consuming
import Blorp.Check.Solving
import Blorp.Check.SolvingRuns
import Blorp.Check.SupertraitCycles
import Blorp.Emit.Aggregates
import Blorp.Verify.LayoutReferences
import Blorp.Emit.AggregateOrder
import Blorp.Check.Freezing
import Blorp.Check.FreezingChains
import Blorp.Check.FrozenChains
import Blorp.Emit.FloatLiteral
import Blorp.Check.SolvingSolutions
