/-
Purpose: Codes of the problems that a compilation can report.
-/

namespace Linkage

/-- The phases of a compilation, in the order of their numbers. -/
inductive Phase where
  | lexing
  | parsing
  | relying
  | merging
  | linking
  | validity
  | generation
deriving DecidableEq, Repr

namespace Phase

/-- The letter that the codes of a phase start with. -/
def letter : Phase → Char
  | lexing => 'L'
  | parsing => 'P'
  | relying => 'R'
  | merging => 'D'
  | linking => 'K'
  | validity => 'V'
  | generation => 'G'

def number : Phase → Nat
  | lexing => 1
  | parsing => 2
  | relying => 3
  | merging => 4
  | linking => 5
  | validity => 6
  | generation => 7

end Phase

/-- What kind of problem was found. -/
inductive Code where
  | unexpectedCharacter
  | unterminatedString
  | unexpectedToken
  | missingToken
  | visibilityClash
  | lateImport
  | unexpectedIndentation
  | duplicateLibrary
  | circularRely
  | missingRely
  | unresolvableRely
  | unresolvedRely
  | duplicateDeclaration
  | duplicateOverload
  | duplicateMember
  | visibilityNotAllowed
  | duplicateParameter
  | memberNamedAsClass
  | nameNotFound
  | equivocalName
  | notAType
  | spaceNotFound
  | inaccessible
  | invalidParent
  | circularInheritance
  | notAnInterface
  | notImplemented
  | circularInterfaces
  | implementationMismatch
  | hiddenVariable
  | delegateMismatch
  | overrideMismatch
  | unexportedType
deriving DecidableEq, Repr

namespace Code

/-- All codes, by phase and ordinal. -/
def all : List Code :=
  [unexpectedCharacter, unterminatedString,
   unexpectedToken, missingToken, visibilityClash, lateImport, unexpectedIndentation,
   duplicateLibrary, circularRely, missingRely, unresolvableRely, unresolvedRely,
   duplicateDeclaration, duplicateOverload, duplicateMember, visibilityNotAllowed,
   duplicateParameter, memberNamedAsClass,
   nameNotFound, equivocalName, notAType, spaceNotFound, inaccessible,
   invalidParent, circularInheritance, notAnInterface, notImplemented, circularInterfaces,
   implementationMismatch, hiddenVariable, delegateMismatch,
   overrideMismatch, unexportedType]

/-- The phase that a code belongs to, and its ordinal there. -/
def place : Code → Phase × Nat
  | unexpectedCharacter => (.lexing, 1)
  | unterminatedString => (.lexing, 2)
  | unexpectedToken => (.parsing, 1)
  | missingToken => (.parsing, 2)
  | visibilityClash => (.parsing, 3)
  | lateImport => (.parsing, 4)
  | unexpectedIndentation => (.parsing, 5)
  | duplicateLibrary => (.relying, 1)
  | circularRely => (.relying, 2)
  | missingRely => (.relying, 3)
  | unresolvableRely => (.relying, 4)
  | unresolvedRely => (.relying, 5)
  | duplicateDeclaration => (.merging, 1)
  | duplicateOverload => (.merging, 2)
  | duplicateMember => (.merging, 3)
  | visibilityNotAllowed => (.merging, 4)
  | duplicateParameter => (.merging, 5)
  | memberNamedAsClass => (.merging, 6)
  | nameNotFound => (.linking, 1)
  | equivocalName => (.linking, 2)
  | notAType => (.linking, 3)
  | spaceNotFound => (.linking, 4)
  | inaccessible => (.linking, 5)
  | invalidParent => (.validity, 1)
  | circularInheritance => (.validity, 2)
  | notAnInterface => (.validity, 3)
  | notImplemented => (.validity, 4)
  | circularInterfaces => (.validity, 5)
  | implementationMismatch => (.validity, 6)
  | hiddenVariable => (.validity, 7)
  | delegateMismatch => (.validity, 8)
  | overrideMismatch => (.generation, 1)
  | unexportedType => (.generation, 2)

/-- The code as it is written: the letter of the phase and three digits. -/
def text (c : Code) : String :=
  let (phase, ordinal) := c.place
  phase.letter.toString ++ "00" ++ toString ordinal

/-- The code as a number: a hundred for each phase, then the ordinal. -/
def number (c : Code) : Nat :=
  let (phase, ordinal) := c.place
  phase.number * 100 + ordinal

def ofText? (s : String) : Option Code := all.find? fun c => c.text = s

end Code

end Linkage
