/-
Purpose: What can be wrong with a library, and how it is worded.
-/
import Linkage.Diagnostic.Code
import Linkage.TypeRef
import Linkage.Visibility

namespace Linkage

/-- Problems with the libraries that a compilation relies on. -/
inductive RelyProblem where
  /-- A library name that is taken already. -/
  | duplicate (name : String)
  /-- Libraries that rely on one another in a circle, from one of them back to it. -/
  | cycle (chain : List String)
  /-- A declared dependency that was not provided. -/
  | missing (library dependency : String)
  /-- Libraries that wait for one another. -/
  | unresolvable (pending : List String)
  /-- A reference to a type that its library does not have. -/
  | unresolvedType (library target : String) (kind : TypeKind) (index : Nat)
  /-- A space other than the root with no parent. -/
  | spaceWithoutParent (library space : String)
  /-- A space whose parent does not exist. -/
  | unknownParent (library space : String) (parent : Nat)
  /-- A declaration in a space that does not exist. -/
  | unknownSpace (library name : String) (space : Nat)
deriving DecidableEq, Repr

namespace RelyProblem

def code : RelyProblem → Code
  | duplicate _ => .duplicateLibrary
  | cycle _ => .circularRely
  | missing .. => .missingRely
  | unresolvable _ => .unresolvableRely
  | unresolvedType .. | spaceWithoutParent .. | unknownParent .. | unknownSpace .. =>
    .unresolvedRely

/-- The library that a problem is reported against. -/
def library : RelyProblem → String
  | duplicate name => name
  | cycle names | unresolvable names => names.head?.getD ""
  | missing library _ | unresolvedType library .. | spaceWithoutParent library _
  | unknownParent library .. | unknownSpace library .. => library

def message : RelyProblem → String
  | duplicate name => s!"library name `{name}` is used more than once"
  | cycle chain => "circular rely: " ++ String.intercalate " -> " chain
  | missing library dependency =>
    s!"library `{library}` relies on `{dependency}`, which was not provided"
  | unresolvable pending =>
    "rely graph cannot be resolved; still pending: " ++ String.intercalate ", " pending
  | unresolvedType library target kind index =>
    s!"library `{library}` references {kind.text} #{index} of `{target}`, which does not exist"
  | spaceWithoutParent library space =>
    s!"library `{library}` is malformed: space `{space}` has no parent"
  | unknownParent library space parent =>
    s!"library `{library}` is malformed: space `{space}` has unknown parent {parent}"
  | unknownSpace library name space =>
    s!"library `{library}` is malformed: `{name}` is declared in unknown space {space}"

end RelyProblem

/-- A problem in the library being compiled or in those it relies on. -/
inductive Problem where
  -- Lexing and parsing
  | unexpectedCharacter (c : Char)
  | unterminatedString
  | expectedType (found : String)
  | notFunctionName (text : String)
  | severalVariableTypes
  | constantFunction
  | unexpectedInClass (found className : String)
  | interfaceVariable
  | expected (wanted found : String)
  | expectedName (found : String)
  | expectedParameters (what : String)
  | expectedInitializer
  | visibilityClash (extra first : Visibility)
  | lateImport
  | unexpectedIndentation
  -- Relying
  | rely (problem : RelyProblem)
  -- Merging
  | alreadyDeclared (name kind scope : String)
  | alreadyMember (name owner : String)
  | protectedInSpace
  | interfaceVisibility (visibility : Visibility) (name : String)
  | repeatedParameter (name : String)
  | memberNamedAsClass (name : String)
  -- Linking
  | nameNotFound (name : String)
  | equivocal (name candidate : String)
  | notAType (path kind : String)
  | spaceNotFound (path : String)
  | inaccessible (name : String) (visibility : Visibility)
  | invalidParent (type owner : String)
  | circularInheritance (names : List String)
  | secondParent (type : String)
  | notAnInterface (type owner : String)
  | circularInterfaces (names : List String)
  -- Validity
  | duplicateOverload (name : String)
  | hiddenVariable (owner name ancestor : String)
  | notImplemented (owner required : String)
  | wrongReturns (required owner found wanted : String)
  | privateImplementation (required owner : String)
  | delegateMismatch (path delegate : String)
  -- Generation
  | overrideMismatch (name base found wanted : String)
  | unexportedType (user type : String)
  /-- A report of a code generator, in its own words. -/
  | generator (code : Code) (message : String)
deriving DecidableEq, Repr

namespace Problem

def code : Problem → Code
  | unexpectedCharacter _ => .unexpectedCharacter
  | unterminatedString => .unterminatedString
  | expectedType _ | notFunctionName _ | severalVariableTypes | constantFunction
  | unexpectedInClass .. | interfaceVariable => .unexpectedToken
  | expected .. | expectedName _ | expectedParameters _ | expectedInitializer => .missingToken
  | visibilityClash .. => .visibilityClash
  | lateImport => .lateImport
  | unexpectedIndentation => .unexpectedIndentation
  | rely problem => problem.code
  | alreadyDeclared .. => .duplicateDeclaration
  | alreadyMember .. => .duplicateMember
  | protectedInSpace | interfaceVisibility .. => .visibilityNotAllowed
  | repeatedParameter _ => .duplicateParameter
  | memberNamedAsClass _ => .memberNamedAsClass
  | nameNotFound _ => .nameNotFound
  | equivocal .. => .equivocalName
  | notAType .. => .notAType
  | spaceNotFound _ => .spaceNotFound
  | inaccessible .. => .inaccessible
  | invalidParent .. => .invalidParent
  | circularInheritance _ => .circularInheritance
  | secondParent _ | notAnInterface .. => .notAnInterface
  | circularInterfaces _ => .circularInterfaces
  | duplicateOverload _ => .duplicateOverload
  | hiddenVariable .. => .hiddenVariable
  | notImplemented .. => .notImplemented
  | wrongReturns .. | privateImplementation .. => .implementationMismatch
  | delegateMismatch .. => .delegateMismatch
  | overrideMismatch .. => .overrideMismatch
  | unexportedType .. => .unexportedType
  | generator code _ => code

def message : Problem → String
  | unexpectedCharacter c => s!"unexpected character `{c}`"
  | unterminatedString => "unterminated string literal"
  | expectedType found => s!"expected a type, found {found}"
  | notFunctionName text => s!"`{text}` is not a valid function name"
  | severalVariableTypes => "a variable has exactly one type"
  | constantFunction => "`const` applies to variables only"
  | unexpectedInClass found className => s!"unexpected {found} in class `{className}`"
  | interfaceVariable => "interfaces declare functions only"
  | expected wanted found => s!"expected {wanted}, found {found}"
  | expectedName found => s!"expected a name, found {found}"
  | expectedParameters what => s!"expected `(` after {what} name"
  | expectedInitializer => "expected an initializer after `=`"
  | visibilityClash extra first => s!"visibility clash: `{extra.keyword}` after `{first.keyword}`"
  | lateImport => "imports must appear at the top of the file, before any declaration"
  | unexpectedIndentation => "unexpected indentation"
  | rely problem => problem.message
  | alreadyDeclared name kind scope => s!"`{name}` is already declared as a {kind} in {scope}"
  | alreadyMember name owner => s!"`{name}` is already a member of `{owner}`"
  | protectedInSpace => "`protected` is not allowed at namespace level"
  | interfaceVisibility visibility name =>
    s!"interface functions are always public; `{visibility.keyword}` is not allowed on `{name}`"
  | repeatedParameter name => s!"parameter `{name}` is declared twice"
  | memberNamedAsClass name =>
    s!"member function `{name}` has the name of its class; constructors have no return types"
  | nameNotFound name => s!"`{name}` not found"
  | equivocal name candidate => s!"`{name}` is equivocal; candidate `{candidate}`"
  | notAType path kind => s!"`{path}` is a {kind}, not a type"
  | spaceNotFound path => s!"space `{path}` not found"
  | inaccessible name visibility => s!"`{name}` is {visibility.keyword} and not accessible here"
  | invalidParent type owner =>
    s!"`{type}` cannot be the parent of `{owner}`; expected a class or interface"
  | circularInheritance names => "circular inheritance: " ++ String.intercalate " -> " names
  | secondParent type =>
    s!"`{type}` is not an interface; only the first entry may name a parent class"
  | notAnInterface type owner =>
    s!"interface `{owner}` can only inherit interfaces; `{type}` is not one"
  | circularInterfaces names =>
    "circular interface inheritance: " ++ String.intercalate " -> " names
  | duplicateOverload name => s!"`{name}` is already declared with the same parameter types"
  | hiddenVariable owner name ancestor =>
    s!"`{owner}.{name}` hides the variable inherited from `{ancestor}`"
  | notImplemented owner required => s!"`{owner}` does not implement `{required}`"
  | wrongReturns required owner found wanted =>
    s!"implementation of `{required}` in `{owner}` returns {found} but {wanted} is required"
  | privateImplementation required owner =>
    s!"implementation of `{required}` in `{owner}` is private"
  | delegateMismatch path delegate => s!"no overload of `{path}` matches delegate `{delegate}`"
  | overrideMismatch name base found wanted =>
    s!"`{name}` overrides `{base}` but returns {found} instead of {wanted}"
  | unexportedType user type => s!"`{user}` is exported but refers to `{type}`, which is not public"
  | generator _ message => message

end Problem

end Linkage
