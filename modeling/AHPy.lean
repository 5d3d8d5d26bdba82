import AHPy.HandleModel.Objects
import AHPy.Optimize.SwitchEquivalence
import AHPy.FunctionArguments.Agreement
import AHPy.Dependencies.DistutilsInfo
import AHPy.Compare.Agreement
import AHPy.Overflow.Checked
import AHPy.AsyncGen.Exclusion
import AHPy.StringTable.Correctness
import AHPy.MatchCase.ClassAgreement
import AHPy.MatchCase.Statements
import AHPy.Coroutine.Protocol
import AHPy.ModuleWriter.NumericDispatch
import AHPy.ModuleWriter.NativeReturns
import AHPy.ModuleWriter.NativeNarrowing
import AHPy.MemoryView.IndexExpansion
import AHPy.MemoryView.Transposition
import AHPy.MemoryView.ObjectReferences
import AHPy.ModuleWriter.ConstantSharing
import AHPy.ModuleWriter.FieldAccess
import AHPy.CMath.IntPow
import AHPy.Operators.Agreement
import AHPy.Operators.LongAgreement
import AHPy.Formatting.Characters
import AHPy.Buffer.Totality
import AHPy.MemoryView.ItemAddresses
import AHPy.StringTools.SliceAgreement
import AHPy.MemoryView.LockPool
import AHPy.FunctionArguments.MergeAgreement
import AHPy.PyrexTypes.WidestType
import AHPy.PyrexTypes.FaithfulIdentifiers
import AHPy.NumberTable.Correctness
import AHPy.Scanning.Rollback
import AHPy.ModuleWriter.TypeOrder
import AHPy.Optimize.MinMax
import AHPy.Optimize.InListTests
import AHPy.FunctionArguments.FusedAgreement
import AHPy.ModuleWriter.RichCompareAgreement
import AHPy.ModuleWriter.BinopDispatch
import AHPy.Dataclass.Agreement
import AHPy.LineTable.RoundTrip
import AHPy.FlowControl.Analysis
import AHPy.StringEncoding.Splitting
import AHPy.Optimize.CascadeAgreement
import AHPy.Optimize.LoopVisits
import AHPy.Plex.TransitionObjects
import AHPy.Plex.RegexpMachines
import AHPy.Plex.CharRanges
import AHPy.Plex.TokenStreams
import AHPy.Dependencies.IncludedFiles
import AHPy.FunctionState.TempSafety
