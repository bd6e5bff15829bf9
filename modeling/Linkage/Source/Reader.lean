/-
Purpose: Reading the outline of a source text.
-/
import Linkage.Source.Block
import Linkage.Source.Grammar
import Linkage.Source.Lexer

namespace Linkage.Reader

/-- Turn an error into a note and no value. -/
def noteFault {α : Type} : Except Fault α → Noted Fault (Option α)
  | .ok a => ⟨some a, []⟩
  | .error fault => ⟨none, [fault]⟩

/-- What a line of a class declares. -/
inductive Member where
  | stored (decl : VariableDecl)
  | callable (decl : FunctionDecl)
  | constructor (decl : FunctionDecl)

namespace Member

def asVariable? : Member → Option VariableDecl
  | stored decl => some decl
  | _ => none

def asFunction? : Member → Option FunctionDecl
  | callable decl => some decl
  | _ => none

def asConstructor? : Member → Option FunctionDecl
  | constructor decl => some decl
  | _ => none

end Member

/-- A member of a class.  A function with the name of the class and no returns is a
constructor. -/
def classMember (className : String) (b : Block) : Noted Fault (Option Member) :=
  match TokenLine.ofLine b.line with
  | .error fault => ⟨none, [fault]⟩
  | .ok ⟨tokens, finish⟩ => do
    let (visibility, tokens) ← Grammar.visibility tokens
    match tokens.head?.bind fun token => Grammar.typeHead? token.kind with
    | none =>
      .note ⟨Grammar.place finish tokens, .unexpectedInClass (Grammar.found tokens) className⟩
      return none
    | some _ =>
      match ← noteFault (Grammar.head finish tokens) with
      | none => return none
      | some (.function returns name span params) =>
        let decl := ⟨visibility, name, span, params, returns, Block.body b.nested⟩
        if name = className ∧ returns = [] then return some (.constructor decl)
        else return some (.callable decl)
      | some (.plain type name span initializer) =>
        Block.refuseNested b.nested
        return some (.stored ⟨visibility, false, name, span, type, initializer⟩)

/-- A member of an interface: a function without a body. -/
def interfaceMember (b : Block) : Noted Fault (Option FunctionDecl) :=
  match TokenLine.ofLine b.line with
  | .error fault => ⟨none, [fault]⟩
  | .ok ⟨tokens, finish⟩ => do
    let (visibility, tokens) ← Grammar.visibility tokens
    match ← noteFault (Grammar.head finish tokens) with
    | none => return none
    | some (.function returns name span params) =>
      Block.refuseNested b.nested
      return some ⟨visibility, name, span, params, returns, none⟩
    | some (.plain _ _ span _) =>
      .note ⟨span, .interfaceVariable⟩
      return none

/-- A declaration of a space that is not a space itself. -/
def declaration (nested : List Block) (finish : Span) (tokens : List Token) :
    Noted Fault (Option Item) := do
  let (visibility, tokens) ← Grammar.visibility tokens
  match tokens with
  | ⟨.keyword .class_, _⟩ :: tokens =>
    match ← noteFault (Grammar.typeHeader finish tokens) with
    | none => return none
    | some (name, span, inherits) =>
      let members ← Block.entries (classMember name) (Block.indentOf nested) nested
      return some (.classDecl ⟨visibility, name, span, inherits,
        members.filterMap Member.asVariable?, members.filterMap Member.asFunction?,
        members.filterMap Member.asConstructor?⟩)
  | ⟨.keyword .interface, _⟩ :: tokens =>
    match ← noteFault (Grammar.typeHeader finish tokens) with
    | none => return none
    | some (name, span, inherits) =>
      let functions ← Block.entries interfaceMember (Block.indentOf nested) nested
      return some (.interfaceDecl ⟨visibility, name, span, inherits, functions⟩)
  | ⟨.keyword .delegate, _⟩ :: tokens =>
    match ← noteFault (Grammar.head finish tokens) with
    | none => return none
    | some (.function returns name span params) =>
      Block.refuseNested nested
      return some (.delegateDecl ⟨visibility, name, span, params, returns⟩)
    | some (.plain _ _ span _) =>
      Block.refuseNested nested
      .note ⟨span, .expectedParameters "delegate"⟩
      return none
  | ⟨.keyword .coroutine, _⟩ :: tokens =>
    match ← noteFault (Grammar.coroutine finish tokens) with
    | none => return none
    | some (returns, name, span) =>
      Block.refuseNested nested
      return some (.coroutineDecl ⟨visibility, name, span, returns⟩)
  | ⟨.keyword .native, _⟩ :: tokens =>
    match ← noteFault (Grammar.head finish tokens) with
    | none => return none
    | some (.function returns name span params) =>
      Block.refuseNested nested
      return some (.nativeDecl ⟨visibility, name, span, params, returns, none⟩)
    | some (.plain _ _ span _) =>
      Block.refuseNested nested
      .note ⟨span, .expectedParameters "native"⟩
      return none
  | ⟨.keyword .const, _⟩ :: tokens =>
    match ← noteFault (Grammar.head finish tokens) with
    | none => return none
    | some (.plain type name span initializer) =>
      Block.refuseNested nested
      return some (.variableDecl ⟨visibility, true, name, span, type, initializer⟩)
    | some (.function _ _ span _) =>
      .note ⟨span, .constantFunction⟩
      return none
  | tokens =>
    match ← noteFault (Grammar.head finish tokens) with
    | none => return none
    | some (.function returns name span params) =>
      return some (.functionDecl ⟨visibility, name, span, params, returns, Block.body nested⟩)
    | some (.plain type name span initializer) =>
      Block.refuseNested nested
      return some (.variableDecl ⟨visibility, false, name, span, type, initializer⟩)

mutual

/-- One declaration of a space.  `space` and a name alone on a line open a space;
imports are refused here. -/
def item : Block → Noted Fault (Option Item)
  | ⟨line, nested⟩ =>
    match TokenLine.ofLine line with
    | .error fault => ⟨none, [fault]⟩
    | .ok ⟨[⟨.keyword .space, _⟩, ⟨.ident name, span⟩], _⟩ =>
      let inner := items (Block.indentOf nested) nested
      ⟨some (.space name span inner.value), inner.notes⟩
    | .ok ⟨⟨.keyword .import_, span⟩ :: _, _⟩ => ⟨none, [⟨span, .lateImport⟩]⟩
    | .ok ⟨tokens, finish⟩ => declaration nested finish tokens

/-- The declarations of a space.  A block that is not at their common indentation is
reported and dropped, with everything under it. -/
def items (indent : Nat) : List Block → Noted Fault (List Item)
  | [] => ⟨[], []⟩
  | b :: rest =>
    let entry := if b.line.indent = indent then item b else ⟨none, [Block.stray b.line]⟩
    let entries := items indent rest
    ⟨entry.value.toList ++ entries.value, entry.notes ++ entries.notes⟩

end

/-- What a block at the top of a file gives: an import, a declaration or nothing. -/
inductive TopEntry where
  | importDecl (decl : ImportDecl)
  | item (item : Item)
  | nothing

/-- Read one block at the top of a file.  Imports are allowed until the first
declaration. -/
def topEntry (started : Bool) (b : Block) : Noted Fault TopEntry :=
  if b.line.indent ≠ 0 then ⟨.nothing, [Block.stray b.line]⟩
  else
    match started, TokenLine.ofLine b.line with
    | false, .ok ⟨⟨.keyword .import_, span⟩ :: tokens, finish⟩ =>
      match Grammar.importPath finish tokens with
      | .ok path => ⟨.importDecl ⟨path, span⟩, []⟩
      | .error fault => ⟨.nothing, [fault]⟩
    | _, _ =>
      let read := item b
      match read.value with
      | some item => ⟨.item item, read.notes⟩
      | none => ⟨.nothing, read.notes⟩

def topEntries (started : Bool) : List Block → Noted Fault Outline
  | [] => ⟨⟨[], []⟩, []⟩
  | b :: rest =>
    let entry := topEntry started b
    match entry.value with
    | .importDecl decl =>
      let outline := topEntries started rest
      ⟨{ outline.value with imports := decl :: outline.value.imports },
        entry.notes ++ outline.notes⟩
    | .item item =>
      let outline := topEntries true rest
      ⟨{ outline.value with items := item :: outline.value.items }, entry.notes ++ outline.notes⟩
    | .nothing =>
      let outline := topEntries started rest
      ⟨outline.value, entry.notes ++ outline.notes⟩

end Linkage.Reader

namespace Linkage

/-- The outline of a source text, or everything that is wrong with its form. -/
def Outline.ofSource (source : String) : Except (List Fault) Outline :=
  let read := Reader.topEntries false (Block.forest (Line.ofSource source.toList))
  if read.notes.isEmpty then .ok read.value else .error read.notes

end Linkage
