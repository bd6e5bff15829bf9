/-
Purpose: A library that is ready for code generation, and the generators of code.
-/
import Linkage.Draft.Binding
import Linkage.Pool
import Linkage.Text.Blank

namespace Linkage

/-- What the artifact of a compilation is to hold. -/
structure Options where
  /-- Functions are not given an exit at their end. -/
  ignoreImplicitExit : Bool := false
  symbolTable : Bool := true
  debugTable : Bool := false
deriving DecidableEq, Repr

/-- A linked and checked library with its bindings. -/
structure LinkedLibrary where
  draft : Draft
  relies : List Table
  bindings : List Binding
  options : Options

namespace LinkedLibrary

/-- All tables that the library can see. -/
def catalog (l : LinkedLibrary) : Catalog := l.draft.catalog l.relies

/-- The functions of a table, each with its declaration, group after group. -/
def functions (t : Table) : List (Declaration × Function) :=
  t.overloadGroups.flatMap fun group =>
    ((t.overloads group).getD []).zipIdx.filterMap fun (f, i) =>
      (t.overloadDeclaration group i).map fun d => (d, f)

/-- The functions that have bodies, with their declarations. -/
def bodies (l : LinkedLibrary) : List (Declaration × FunctionSource × Body) :=
  (functions l.draft.table).filterMap fun (d, f) =>
    f.source.bind fun source => source.body.map fun body => (d, source, body)

end LinkedLibrary

structure Generated where
  code : List UInt8
  strings : List String
deriving DecidableEq

/-- A generator of code.  It may report problems, and it has the use of the pool. -/
def Generator : Type := LinkedLibrary → Pool → Reported (Generated × Pool)

/-- The text between the quotes if a text is nothing but a string in quotes. -/
def stringLiteral? (text : String) : Option String :=
  match Text.trim text.toList with
  | '"' :: rest => if rest.getLast? = some '"' then some (String.ofList rest.dropLast) else none
  | _ => none

/-- The generator that produces no code, only the distinct strings that variables are
initialized with. -/
def Generator.plain : Generator := fun l pool =>
  let literals := l.draft.table.globals.filterMap fun v => v.initializer.bind stringLiteral?
  pure (⟨[], literals.eraseDups⟩, pool)

end Linkage
