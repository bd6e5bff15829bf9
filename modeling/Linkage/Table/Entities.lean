/-
Purpose: What a declaration stands for in the table of its library.
-/
import Linkage.Table.Spaces

namespace Linkage.Table

/-! ### Types -/

/-- The type that a declaration declares, if it declares one. -/
def declaredType (t : Table) (d : Declaration) : Option TypeId :=
  match d.entity with
  | .classDef i => t.classes[i]?.map fun c => ⟨t.home, c.kind, i⟩
  | .interface i => some ⟨t.home, .interface, i⟩
  | .delegate i => some ⟨t.home, .delegate, i⟩
  | .coroutine i => some ⟨t.home, .coroutine, i⟩
  | _ => none

/-- The name of a type and the space it is declared in. -/
def typeName (t : Table) (id : TypeId) : Option (String × Nat) :=
  match id.kind with
  | .struct | .handle => t.classes[id.index]?.map fun c => (c.name, c.space)
  | .interface => t.interfaces[id.index]?.map fun i => (i.name, i.space)
  | .delegate => t.delegates[id.index]?.map fun d => (d.name, d.space)
  | .coroutine => t.coroutines[id.index]?.map fun c => (c.name, c.space)
  | .invalid => none

/-- How many types of a kind the table has. -/
def typeCount (t : Table) : TypeKind → Nat
  | .struct | .handle => t.classes.length
  | .interface => t.interfaces.length
  | .delegate => t.delegates.length
  | .coroutine => t.coroutines.length
  | .invalid => 0

/-! ### Methods and functions -/

/-- The method of a method declaration, or of one of its functions. -/
def method (t : Table) (d : Declaration) : Option Method :=
  match d.entity.group with
  | .memberMethod c m => t.classes[c]?.bind fun c => c.methods[m]?
  | .interfaceMethod i m => t.interfaces[i]?.bind fun i => i.methods[m]?
  | .globalMethod m => t.methods[m]?
  | .nativeMethod m => t.natives[m]?
  | _ => none

/-- The functions of a method; those of a class are its constructors. -/
def overloads (t : Table) (d : Declaration) : Option (List Function) :=
  match d.entity with
  | .classDef i => t.classes[i]?.map (·.constructors)
  | .constructor c _ => t.classes[c]?.map (·.constructors)
  | _ => (t.method d).map (·.functions)

def function (t : Table) (d : Declaration) : Option Function :=
  match d.entity with
  | .memberFunction _ _ o | .interfaceFunction _ _ o | .globalFunction _ o
  | .nativeFunction _ o | .constructor _ o => (t.overloads d).bind fun fs => fs[o]?
  | _ => none

/-- The visibility of the first function of a method. -/
def firstVisibility (m : Method) (otherwise : Visibility) : Visibility :=
  (m.functions.head?.map (·.visibility)).getD otherwise

/-- The methods of one class, then the class itself for its constructors, if it has any. -/
def classGroups (home : Home) (c : ClassDef) (index : Nat) : List Declaration :=
  c.methods.mapIdx (fun m method =>
    ⟨home, firstVisibility method c.visibility, .memberMethod index m⟩) ++
  if c.constructors.isEmpty then [] else [⟨home, c.visibility, .classDef index⟩]

/-- Every group of overloads: those of classes, interfaces, globals and natives. -/
def overloadGroups (t : Table) : List Declaration :=
  (t.classes.mapIdx fun index c => classGroups t.home c index).flatten ++
  (t.interfaces.mapIdx fun index i =>
    i.methods.mapIdx fun m _ => ⟨t.home, .public_, .interfaceMethod index m⟩).flatten ++
  t.methods.mapIdx (fun m method => ⟨t.home, firstVisibility method .public_, .globalMethod m⟩) ++
  t.natives.mapIdx (fun m method => ⟨t.home, firstVisibility method .public_, .nativeMethod m⟩)

/-- One function of a method, or one constructor of a class. -/
def overloadEntity (overload : Nat) : Entity → Option Entity
  | .classDef i => some (.constructor i overload)
  | entity => entity.overload? overload

/-- One function of a group of overloads, with the visibility of that function. -/
def overloadDeclaration (t : Table) (group : Declaration) (overload : Nat) : Option Declaration :=
  (overloadEntity overload group.entity).bind fun entity =>
    (t.overloads group).bind fun fs => fs[overload]?.map fun f => ⟨group.home, f.visibility, entity⟩

/-! ### Names, owners and spaces -/

/-- The name of a declaration, without those of its owner and spaces. -/
def declarationName (t : Table) (d : Declaration) : Option String :=
  match d.entity with
  | .classDef i | .constructor i _ => t.classes[i]?.map (·.name)
  | .memberVariable c i => t.classes[c]?.bind fun c => c.fields[i]?.map (·.name)
  | .delegate i => t.delegates[i]?.map (·.name)
  | .coroutine i => t.coroutines[i]?.map (·.name)
  | .interface i => t.interfaces[i]?.map (·.name)
  | .globalVariable i => t.globals[i]?.map (·.name)
  | .memberMethod .. | .memberFunction .. | .interfaceMethod .. | .interfaceFunction ..
  | .globalMethod .. | .globalFunction .. | .nativeMethod .. | .nativeFunction .. =>
    (t.method d).map (·.name)
  | .invalid | .lambda _ | .localVariable _ => none

/-- The type that a member belongs to. -/
def ownerType (t : Table) (d : Declaration) : Option TypeId :=
  match d.entity with
  | .memberVariable c _ | .memberMethod c _ | .memberFunction c _ _ | .constructor c _ =>
    t.classes[c]?.map fun owner => ⟨t.home, owner.kind, c⟩
  | .interfaceMethod i _ | .interfaceFunction i _ _ => some ⟨t.home, .interface, i⟩
  | _ => none

/-- The space that a declaration stands in, unless it is a member of a type. -/
def declarationSpace (t : Table) (d : Declaration) : Option Nat :=
  match d.entity with
  | .classDef i => t.classes[i]?.map (·.space)
  | .interface i => t.interfaces[i]?.map (·.space)
  | .delegate i => t.delegates[i]?.map (·.space)
  | .coroutine i => t.coroutines[i]?.map (·.space)
  | .globalVariable i => t.globals[i]?.map (·.space)
  | .globalMethod .. | .globalFunction .. | .nativeMethod .. | .nativeFunction .. =>
    (t.method d).map (·.space)
  | _ => none

/-- The space that a declaration stands in, for a member the space of its owner. -/
def declaringSpace (t : Table) (d : Declaration) : Option Nat :=
  match t.ownerType d with
  | some owner => (t.typeName owner).map (·.2)
  | none => t.declarationSpace d

end Linkage.Table
