/-
Purpose: The arguments of the command line.
-/

namespace Linkage

/-- What is to be done. -/
inductive Command.Verb where
  /-- Compile a library and write what was asked for. -/
  | compile
  /-- Compile a library and write nothing. -/
  | check
deriving DecidableEq, Repr

/-- A command with the values of its arguments. -/
structure Command where
  verb : Command.Verb
  /-- The source files, in the order of compilation. -/
  files : List String := []
  name : Option String := none
  /-- The files with the surfaces of the libraries that are relied on. -/
  relies : List String := []
  /-- Where the surface is written to. -/
  emitSurface : Option String := none
  /-- Where the artifact is written to. -/
  emitArtifact : Option String := none
  symbols : Bool := false
  debugTable : Bool := false
  ignoreImplicitExit : Bool := false
deriving DecidableEq, Repr

/-- Why arguments are not a command. -/
inductive Usage where
  /-- They ask for help. -/
  | help
  | wrong
deriving DecidableEq, Repr

namespace Command

/-- An option that takes a value. -/
inductive Setting where
  | name
  | rely
  | emitSurface
  | emitArtifact
deriving DecidableEq, Repr

/-- An option that takes none. -/
inductive Switch where
  | symbols
  | debugTable
  | ignoreImplicitExit
deriving DecidableEq, Repr

/-- What an option is. -/
inductive OptionKind where
  | setting (s : Setting)
  | switch (s : Switch)
  | help
deriving DecidableEq, Repr

def longOption? (verb : Verb) (name : String) : Option OptionKind :=
  match name with
  | "name" => some (.setting .name)
  | "rely" => some (.setting .rely)
  | "help" => some .help
  | _ =>
    if verb = .compile then
      match name with
      | "emit-reference" => some (.setting .emitSurface)
      | "emit-library" => some (.setting .emitArtifact)
      | "symbols" => some (.switch .symbols)
      | "debug-table" => some (.switch .debugTable)
      | "ignore-implicit-exit" => some (.switch .ignoreImplicitExit)
      | _ => none
    else none

def shortOption? : Char → Option OptionKind
  | 'n' => some (.setting .name)
  | 'r' => some (.setting .rely)
  | 'h' => some .help
  | _ => none

/-- Store the value of an option.  Only libraries can be given several times, and a file
needs a name. -/
def set (c : Command) (s : Setting) (value : String) : Except Usage Command :=
  match s with
  | .name => if c.name.isSome then .error .wrong else .ok { c with name := some value }
  | .rely => if value = "" then .error .wrong else .ok { c with relies := c.relies ++ [value] }
  | .emitSurface =>
    if value = "" ∨ c.emitSurface.isSome then .error .wrong
    else .ok { c with emitSurface := some value }
  | .emitArtifact =>
    if value = "" ∨ c.emitArtifact.isSome then .error .wrong
    else .ok { c with emitArtifact := some value }

/-- Turn a switch on.  It can be given only once. -/
def turnOn (c : Command) : Switch → Except Usage Command
  | .symbols => if c.symbols then .error .wrong else .ok { c with symbols := true }
  | .debugTable => if c.debugTable then .error .wrong else .ok { c with debugTable := true }
  | .ignoreImplicitExit =>
    if c.ignoreImplicitExit then .error .wrong else .ok { c with ignoreImplicitExit := true }

def addFile (c : Command) (file : String) : Except Usage Command :=
  if file = "" then .error .wrong else .ok { c with files := c.files ++ [file] }

/-- An argument by its form. -/
inductive Form where
  /-- Two dashes alone: all that follows are files. -/
  | escape
  /-- An option, known or not, perhaps with its value in the same argument. -/
  | option (kind : Option OptionKind) (value : Option String)
  | plain (text : String)
deriving DecidableEq, Repr

/-- What follows an equals sign, if there is one. -/
def afterEquals : List Char → Option String
  | '=' :: value => some (String.ofList value)
  | _ => none

/-- The value right after the letter of an option. -/
def attached (rest : List Char) : Option String :=
  match afterEquals rest with
  | some value => some value
  | none => if rest.isEmpty then none else some (String.ofList rest)

/-- The form of an argument.  A dash alone is plain.  After the letter that asks for help
nothing is looked at. -/
def Form.of (verb : Verb) (argument : String) : Form :=
  match argument.toList with
  | ['-', '-'] => .escape
  | '-' :: '-' :: rest =>
    let name := rest.takeWhile (· ≠ '=')
    .option (longOption? verb (String.ofList name)) (afterEquals (rest.drop name.length))
  | '-' :: letter :: rest =>
    match shortOption? letter with
    | some .help => .option (some .help) none
    | kind => .option kind (attached rest)
  | _ => .plain argument

/-- Read the arguments one after the other.  The value of an option may be the next
argument. -/
def read (c : Command) : List String → Except Usage Command
  | [] => .ok c
  | argument :: rest =>
    match Form.of c.verb argument with
    | .escape => rest.foldlM addFile c
    | .plain file => (c.addFile file).bind fun c => c.read rest
    | .option none _ => .error .wrong
    | .option (some .help) none => .error .help
    | .option (some (.switch s)) none => (c.turnOn s).bind fun c => c.read rest
    | .option (some .help) (some _) | .option (some (.switch _)) (some _) => .error .wrong
    | .option (some (.setting s)) (some value) => (c.set s value).bind fun c => c.read rest
    | .option (some (.setting s)) none =>
      match rest with
      | [] => .error .wrong
      | value :: rest =>
        match Form.of c.verb value with
        | .plain value => (c.set s value).bind fun c => c.read rest
        | _ => .error .wrong

def verb? : String → Option Verb
  | "compile" => some .compile
  | "check" => some .check
  | _ => none

/-- Whether an argument in front of the verb asks for help or for the version. -/
def asksForHelp (argument : String) : Bool :=
  match argument.toList with
  | '-' :: '-' :: word => ["help", "version"].contains (String.ofList word)
  | '-' :: letter :: _ => letter == 'h' || letter == 'V'
  | _ => false

def ofArguments : List String → Except Usage Command
  | [] => .error .wrong
  | first :: rest =>
    match verb? first with
    | some verb => do
      let c ← read { verb } rest
      if c.name.isNone ∨ c.files.isEmpty then throw .wrong
      return c
    | none =>
      match first, rest with
      | "help", [] => .error .help
      | "help", [word] => .error (if word = "help" ∨ (verb? word).isSome then .help else .wrong)
      | _, _ => .error (if asksForHelp first then .help else .wrong)

end Command

end Linkage
