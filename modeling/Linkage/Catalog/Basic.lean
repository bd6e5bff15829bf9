/-
Purpose: All tables that one compilation can see, as one place to ask.
-/
import Linkage.Kernel
import Linkage.Table.Entities

namespace Linkage

/-- The table of the library being compiled and those of the libraries it relies on, in
the order of the rely list.  The kernel is always there too. -/
structure Catalog where
  own : Table
  relies : List Table

namespace Catalog

def table? (c : Catalog) : Home → Option Table
  | .kernel => some Kernel.table
  | .here => some c.own
  | .rely i => c.relies[i]?

def tables (c : Catalog) : List Table := Kernel.table :: c.own :: c.relies

/-- The first library of a name among those relied on. -/
def relyNamed? (c : Catalog) (name : String) : Option Table := c.relies.find? fun t => t.name = name

/-- The definition of a class or of a value type. -/
def classDef? (c : Catalog) (id : TypeId) : Option ClassDef :=
  if id.kind.isDefinition then (c.table? id.home).bind fun t => t.classes[id.index]? else none

def interfaceDef? (c : Catalog) (id : TypeId) : Option InterfaceDef :=
  if id.kind = .interface then (c.table? id.home).bind fun t => t.interfaces[id.index]? else none

def delegateDef? (c : Catalog) (id : TypeId) : Option DelegateDef :=
  if id.kind = .delegate then (c.table? id.home).bind fun t => t.delegates[id.index]? else none

/-- The type right above a type.  Interfaces, delegates and coroutines each have a root
in the kernel, and those roots are handles. -/
def parent (c : Catalog) (id : TypeId) : TypeRef :=
  match id.kind with
  | .invalid => .invalid
  | .struct | .handle => ((c.classDef? id).map (·.parent)).getD .invalid
  | .interface => TypeId.interface.scalar
  | .delegate => TypeId.delegate.scalar
  | .coroutine => TypeId.coroutine.scalar

def declaredType (c : Catalog) (d : Declaration) : Option TypeId :=
  (c.table? d.home).bind fun t => t.declaredType d

/-- The member of a name that a type has itself, not by inheritance. -/
def findMember (c : Catalog) (owner : TypeId) (name : String) : Option Declaration :=
  match c.classDef? owner with
  | some definition => definition.members.find? name
  | none => (c.interfaceDef? owner).bind fun i => i.members.find? name

/-- The method of a name that a type has itself. -/
def findMethod (c : Catalog) (owner : TypeId) (name : String) : Option Declaration :=
  (c.findMember owner name).filter fun d => d.entity.isMethod

/-- The functions of a method, or the constructors of a class. -/
def overloads (c : Catalog) (d : Declaration) : Option (List Function) :=
  (c.table? d.home).bind fun t => t.overloads d

def function (c : Catalog) (d : Declaration) : Option Function :=
  (c.table? d.home).bind fun t => t.function d

def ownerType (c : Catalog) (d : Declaration) : Option TypeId :=
  (c.table? d.home).bind fun t => t.ownerType d

end Catalog

end Linkage
