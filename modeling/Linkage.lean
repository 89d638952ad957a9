import Linkage.ClassFile.Assembler
import Linkage.ClassFile.Descriptor
import Linkage.Classpath.Export
import Linkage.CommandLine
import Linkage.Graph.FieldSite
import Linkage.Graph.Query
import Linkage.Main
import Linkage.Mangle
import Linkage.Text.Truncate
import Linkage.Proofs.Hierarchy
import Linkage.Proofs.Members
import Linkage.Proofs.Extension
import Linkage.Proofs.Overriding
import Linkage.Proofs.Defaults
import Linkage.Proofs.MethodTable
import Linkage.Proofs.DefaultSlots
import Linkage.Proofs.Rebuild
import Linkage.Proofs.Drafting
import Linkage.Proofs.Coherence
import Linkage.Proofs.Linking
import Linkage.Proofs.Reachability
import Linkage.Proofs.TableShape
import Linkage.Proofs.TableSound
import Linkage.Proofs.InterfaceDispatch
import Linkage.Proofs.Dispatch
import Linkage.Proofs.SlotHistory
import Linkage.Proofs.DefaultSelection
import Linkage.Proofs.VirtualCalls
import Linkage.Proofs.Dependencies
import Linkage.Proofs.Atomicity
import Linkage.Proofs.Replay
import Linkage.Proofs.CallSelection
import Linkage.Proofs.History
import Linkage.Proofs.Renaming
import Linkage.Proofs.RenamedTables
import Linkage.Proofs.Lockstep
import Linkage.Proofs.RenamedLinking
import Linkage.Proofs.InsertionOrder
import Linkage.Proofs.LinkStack
import Linkage.Proofs.Faults
import Linkage.Proofs.Cycles
import Linkage.Proofs.VerifiedSlots
import Linkage.Proofs.SeparateSlots
import Linkage.Proofs.Verification
import Linkage.Proofs.DispatchAgreement
import Linkage.Proofs.FieldLayout
import Linkage.Proofs.FieldAccess
import Linkage.Proofs.LinkedClasses
import Linkage.Proofs.ModifiedUtf8
import Linkage.Proofs.Reading
import Linkage.Proofs.PoolCoding
import Linkage.Proofs.Assembling
import Linkage.Proofs.RoundTrip
import Linkage.Proofs.Framing
import Linkage.Proofs.SpecialCalls
import Linkage.Proofs.OverridingClosure
import Linkage.Proofs.OverridingSearch
import Linkage.Proofs.Outline
import Linkage.Proofs.OutlinedTables
import Linkage.Proofs.OutlinedCalls
import Linkage.Proofs.OutlinedLinking
import Linkage.Proofs.SupertypeWalk
import Linkage.Proofs.MostSpecific
import Linkage.Proofs.FieldSearch
import Linkage.Proofs.DescriptorGrammar
import Linkage.Proofs.DescriptorBytes
import Linkage.Proofs.AttributeTables
import Linkage.Proofs.PoolIndexes
import Linkage.Proofs.TextSpellings
import Linkage.Proofs.TruncatedText
import Linkage.Proofs.Registration
import Linkage.Proofs.NameMaps
import Linkage.Proofs.ClasspathLoading
import Linkage.Proofs.Identifiers
import Linkage.Proofs.MangledNames
import Linkage.Proofs.NativeNames
import Linkage.Proofs.NativeArguments
