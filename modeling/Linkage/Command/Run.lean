/-
Purpose: What a command reads, writes and says.
-/
import Linkage.Artifact.Codec
import Linkage.Command.Arguments
import Linkage.Compile.Builder
import Linkage.Json.Parser
import Linkage.Json.Printer

namespace Linkage

/-- How files are read and written.  A failure comes with the words of the system. -/
structure Disk (m : Type → Type) where
  read : String → m (Except String String)
  write : String → String → m (Except String Unit)

/-- How a run ended: its exit code, and what it said. -/
structure RunResult where
  exit : Nat
  messages : List String
deriving DecidableEq, Repr

/-- The text that a run leaves behind: every message and a newline after it. -/
def RunResult.text (r : RunResult) : String :=
  String.join (r.messages.map fun message => message ++ "\n")

namespace Command

variable {m : Type → Type} [Monad m]

def readSources (disk : Disk m) : List String → m (Except String (List SourceFile))
  | [] => pure (.ok [])
  | file :: rest => do
    match ← disk.read file with
    | .error words => return .error s!"failed to read source file: {file}: {words}"
    | .ok text =>
      match ← readSources disk rest with
      | .error message => return .error message
      | .ok others => return .ok (⟨file, text⟩ :: others)

def readSurfaces (disk : Disk m) : List String → m (Except String (List Surface))
  | [] => pure (.ok [])
  | file :: rest => do
    match ← disk.read file with
    | .error words => return .error s!"failed to read rely library: {file}: {words}"
    | .ok text =>
      match (Json.parse? text).bind Surface.ofJson? with
      | none => return .error s!"malformed rely library: {file}"
      | some surface =>
        match ← readSurfaces disk rest with
        | .error message => return .error message
        | .ok others => return .ok (surface :: others)

/-- Write a value to a file, if there is a file to write it to. -/
def writeJson (disk : Disk m) (value : Json) : Option String → m (Except String Unit)
  | none => pure (.ok ())
  | some file => do
    match ← disk.write file value.pretty with
    | .ok () => return .ok ()
    | .error words => return .error s!"failed to write {file}: {words}"

/-- The options of the compilation.  The symbol table has to be asked for, except when
nothing is written anyway. -/
def options (c : Command) : Options :=
  match c.verb with
  | .compile => ⟨c.ignoreImplicitExit, c.symbols, c.debugTable⟩
  | .check => {}

def writeProducts (disk : Disk m) (c : Command) (products : Products) : m (Except String Unit) := do
  match ← writeJson disk products.surface.toJson c.emitSurface with
  | .error message => return .error message
  | .ok () => writeJson disk products.artifact.toJson c.emitArtifact

/-- The end of a run that something outside the source stopped. -/
def stopped (message : String) : RunResult := ⟨1, [s!"error: {message}"]⟩

/-- Compile, write what was asked for, and say how it went. -/
def execute (disk : Disk m) (c : Command) : m RunResult := do
  let name := c.name.getD ""
  match ← readSources disk c.files with
  | .error message => return stopped message
  | .ok files =>
    match ← readSurfaces disk c.relies with
    | .error message => return stopped message
    | .ok surfaces =>
      let b := Builder.compile { job := { name, files, surfaces, options := c.options } }
      let said := b.diagnostics.map (·.render)
      match b.state, b.products with
      | .completed, some products =>
        match ← writeProducts disk c products with
        | .error message => return stopped message
        | .ok () => return ⟨0, said ++ [s!"{name}: ok"]⟩
      | .failed, _ => return ⟨1, said ++ [s!"{name}: {b.diagnostics.length} error(s)"]⟩
      | .accident, _ => return ⟨1, said ++ [s!"{name}: internal compiler error"]⟩
      | _, _ => return ⟨1, said⟩

end Command

def usage : List String :=
  ["Usage: linkage compile [OPTIONS] --name <NAME> <FILES>...",
   "       linkage check [OPTIONS] --name <NAME> <FILES>..."]

/-- Run the command that some arguments give.  Arguments that give none have exit code 2,
unless they ask for help. -/
def runArguments {m : Type → Type} [Monad m] (disk : Disk m) (arguments : List String) :
    m RunResult :=
  match Command.ofArguments arguments with
  | .ok command => command.execute disk
  | .error .help => pure ⟨0, []⟩
  | .error .wrong => pure ⟨2, usage⟩

end Linkage
