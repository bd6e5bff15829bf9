import Linkage.Main
import Linkage.Proofs.Catalog.Closure
import Linkage.Proofs.Catalog.Selection
import Linkage.Proofs.Compile.Retained
import Linkage.Proofs.Compile.Towers
import Linkage.Proofs.Dispatch.Conformance
import Linkage.Proofs.Dispatch.Interfaces
import Linkage.Proofs.Export.Fields
import Linkage.Proofs.Export.Tree
import Linkage.Proofs.Ledger.Parameters
import Linkage.Proofs.Link.Filled
import Linkage.Proofs.Link.Subtyping
import Linkage.Proofs.Merge.Consistent
import Linkage.Proofs.Pool
import Linkage.Proofs.Rely.Encoding
import Linkage.Proofs.Rely.Kinds
import Linkage.Proofs.Rely.Permuted
import Linkage.Proofs.Reorder.Compiled
import Linkage.Proofs.Scope.Qualified
import Linkage.Proofs.Scope.Shelter
import Linkage.Proofs.Source.Bodies
import Linkage.Proofs.Source.Faults
import Linkage.Proofs.Source.Respaced
import Linkage.Proofs.Source.TypeText
import Linkage.Proofs.Symbols.Complete
import Linkage.Proofs.Symbols.Overloads
