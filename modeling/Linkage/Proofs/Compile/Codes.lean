/-
Purpose: The codes that each stage after parsing can report.
-/
import Linkage.Compile.Pipeline
import Linkage.Proofs.Export.Surface

namespace Linkage

open List

variable {stage : Stage} {span : Span} {problem : Problem}

/-! ### Codes of the stages -/

namespace Stage

/-- The codes that a stage can report. -/
def codes : Stage → List Code
  | rely => [.duplicateLibrary, .circularRely, .missingRely, .unresolvableRely, .unresolvedRely]
  | parse =>
    [.unexpectedCharacter, .unterminatedString, .unexpectedToken, .missingToken,
     .visibilityClash, .lateImport, .unexpectedIndentation]
  | merge =>
    [.duplicateDeclaration, .duplicateMember, .visibilityNotAllowed, .duplicateParameter,
     .memberNamedAsClass]
  | link =>
    [.nameNotFound, .equivocalName, .notAType, .spaceNotFound, .inaccessible,
     .invalidParent, .circularInheritance, .notAnInterface, .circularInterfaces]
  | check =>
    [.duplicateOverload, .notImplemented, .implementationMismatch, .hiddenVariable,
     .delegateMismatch, .nameNotFound, .equivocalName, .spaceNotFound, .inaccessible]
  | surface => [.unexportedType]
  | binding => [.overrideMismatch]
  | generate => []

/-- These codes as they are written. -/
def codeTexts : Stage → List String
  | rely => ["R001", "R002", "R003", "R004", "R005"]
  | parse => ["L001", "L002", "P001", "P002", "P003", "P004", "P005"]
  | merge => ["D001", "D003", "D004", "D005", "D006"]
  | link => ["K001", "K002", "K003", "K004", "K005", "V001", "V002", "V003", "V005"]
  | check => ["D002", "V004", "V006", "V007", "V008", "K001", "K002", "K004", "K005"]
  | surface => ["G002"]
  | binding => ["G001"]
  | generate => []

theorem map_text_codes (stage : Stage) : stage.codes.map Code.text = stage.codeTexts := by
  cases stage <;> rfl

/-- A diagnostic has one of the codes of a stage. -/
def Owns (stage : Stage) (d : Diagnostic) : Prop := d.code ∈ stage.codes

theorem Owns.text {d : Diagnostic} (owns : stage.Owns d) : d.code.text ∈ stage.codeTexts := by
  rw [← map_text_codes]
  exact mem_map_of_mem owns

end Stage

open Noted (Reports)

theorem reports_report {path : String} (code : Code) (isCode : problem.code = code)
    (owned : stage.codes.elem code = true) : Reports stage.Owns (report path span problem) :=
  .note (show problem.code ∈ stage.codes from isCode ▸ mem_of_elem_eq_true owned)

/-! ### Relying -/

theorem loadRelies_reports (current : String) (surfaces : List Surface) :
    Reports Stage.rely.Owns (loadRelies current surfaces) := by
  unfold loadRelies
  cases (RelyGraph.mk current surfaces).load with
  | ok relies => exact .pure _
  | error problems =>
    intro d member
    obtain ⟨problem, _, rfl⟩ := mem_map.1 member
    cases problem <;> exact mem_of_elem_eq_true rfl

/-! ### Merging -/

namespace Merge

variable (m : Merge)

theorem reports_note (code : Code) (isCode : problem.code = code)
    (owned : Stage.merge.codes.elem code = true) : Reports Stage.merge.Owns (m.note span problem) :=
  reports_report code isCode owned

theorem reports_register {space : Nat} {name : String} {t : Table}
    {add : Reported Table} (added : Reports Stage.merge.Owns add) :
    Reports Stage.merge.Owns (m.register space name span t add) := by
  unfold register
  cases takenBy t space name with
  | none => exact added
  | some kind => exact (m.reports_note .duplicateDeclaration rfl rfl).bind (.pure _)

/-- What can be wrong with a declaration by itself is found in merging. -/
theorem owns_of_inner {α : Type} {x : Reported α} (inner : Reports Diagnostic.IsInner x) :
    Reports Stage.merge.Owns x := by
  have listed : ∀ code ∈ [Code.visibilityNotAllowed, .duplicateParameter, .duplicateMember,
    .memberNamedAsClass], code ∈ Stage.merge.codes := by decide
  exact inner.imp fun d isInner => listed d.code isInner

theorem reports_addLeaf (space : Nat) (leaf : Leaf) (t : Table) :
    Reports Stage.merge.Owns (addItem m space leaf.item t) := by
  have shown := owns_of_inner (m.shown_reports leaf)
  cases group : leaf.group t space with
  | some method =>
    obtain ⟨kind, decl, rfl, found⟩ := Leaf.group_eq_some.1 group
    rw [addItem_of_group found]
    exact shown.bind ((owns_of_inner (m.inner_function decl _)).bind (.pure _))
  | none =>
    rw [addItem_of_alone group]
    exact shown.bind
      (m.reports_register ((owns_of_inner (m.entry_reports _ _ _ leaf)).bind (.pure _)))

mutual

theorem reports_addItem (space : Nat) (item : Item) (t : Table) :
    Reports Stage.merge.Owns (m.addItem space item t) := by
  cases item with
  | space name span items =>
    rw [addItem]
    cases t.lookup space name with
    | some d => exact (m.reports_note .duplicateDeclaration rfl rfl).bind (.pure _)
    | none => exact reports_addItems _ items _
  | _ =>
    exact Item.of_leaf (P := fun item => Reports Stage.merge.Owns (m.addItem space item t))
      (m.reports_addLeaf space · t) rfl

theorem reports_addItems (space : Nat) (items : List Item) (t : Table) :
    Reports Stage.merge.Owns (m.addItems space items t) := by
  cases items with
  | nil =>
    rw [addItems]
    exact .pure _
  | cons item rest =>
    rw [addItems]
    exact (reports_addItem space item t).bind (reports_addItems space rest _)

end

end Merge

namespace Draft

theorem merge_reports (name : String) (files : List (SourceFile × Outline)) :
    Reports Stage.merge.Owns (merge name files) := by
  have each (index : Nat) (d : Draft) : Reports Stage.merge.Owns (mergeFiles index files d) := by
    induction files generalizing index d with
    | nil => exact .pure _
    | cons file rest ih => exact (Merge.reports_addItems _ _ _ _).bind (ih _ _)
  exact each 0 _

end Draft

/-! ### Names -/

namespace Scope

variable (s : Scope)

/-- What can be wrong with a name: a stage that looks up names has these codes. -/
structure Seeks (stage : Stage) : Prop where
  nameNotFound : stage.codes.elem .nameNotFound = true
  equivocalName : stage.codes.elem .equivocalName = true
  spaceNotFound : stage.codes.elem .spaceNotFound = true
  inaccessible : stage.codes.elem .inaccessible = true

theorem reports_find (seeks : Seeks stage) (name : String) (span : Span) :
    Reports stage.Owns (s.find name span) := by
  refine .bind ?_ (.pure _)
  cases s.resolve name with
  | found d => exact .pure _
  | equivocal first second others =>
    intro d member
    obtain ⟨_, _, rfl⟩ := mem_map.1 member
    exact mem_of_elem_eq_true seeks.equivocalName
  | hidden d => exact reports_report .inaccessible rfl seeks.inaccessible
  | absent => exact reports_report .nameNotFound rfl seeks.nameNotFound

theorem reports_findPath (seeks : Seeks stage) (path : List String) (span : Span) :
    Reports stage.Owns (s.findPath path span) := by
  unfold findPath
  cases path.getLast? with
  | none => exact .pure _
  | some name =>
    refine .ite (s.reports_find seeks name span) ?_
    cases s.findSpace path.dropLast with
    | none => exact (reports_report .spaceNotFound rfl seeks.spaceNotFound).bind (.pure _)
    | some ref =>
      dsimp only
      cases (s.catalog.table? ref.home).bind fun t => t.lookup ref.space name with
      | none => exact (reports_report .nameNotFound rfl seeks.nameNotFound).bind (.pure _)
      | some d =>
        refine .ite (.pure _) ?_
        exact (reports_report .inaccessible rfl seeks.inaccessible).bind (.pure _)

theorem reports_findType (e : TypeExpr) : Reports Stage.link.Owns (s.findType e) := by
  refine (s.reports_findPath ⟨rfl, rfl, rfl, rfl⟩ e.path e.span).bind ?_
  cases (s.findPath e.path e.span).value with
  | none => exact .pure _
  | some d =>
    dsimp only
    cases s.catalog.declaredType d with
    | some id => exact .pure _
    | none => exact (reports_report .notAType rfl rfl).bind (.pure _)

end Scope

/-! ### Linking -/

namespace Draft

variable (d : Draft) (relies : List Table) (c : Catalog)

theorem reports_importedSpaces (s : Scope) (found : List SpaceRef) (imports : List ImportDecl) :
    Reports Stage.link.Owns (importedSpaces s found imports) := by
  fun_induction importedSpaces s found imports with
  | case1 => exact .pure _
  | case2 found decl rest ref isSpace ih => exact ih
  | case3 found decl rest unknown ih => exact (reports_report .spaceNotFound rfl rfl).bind ih

theorem reports_addInherits (s : Scope) (first : Bool) (exprs : List TypeExpr) (c : ClassDef) :
    Reports Stage.link.Owns (addInherits s first exprs c) := by
  induction exprs generalizing first c with
  | nil => exact .pure _
  | cons e rest ih =>
    refine (s.reports_findType e).bind ?_
    cases (s.findType e).value with
    | none => exact ih false c
    | some type =>
      refine .ite (ih false _) (.ite (ih false _) (.bind ?_ (ih false c)))
      cases first with
      | true => exact reports_report .invalidParent rfl rfl
      | false => exact reports_report .notAnInterface rfl rfl

theorem reports_baseInterfaces (s : Scope) (name : String) (found : List TypeRef)
    (exprs : List TypeExpr) : Reports Stage.link.Owns (baseInterfaces s name found exprs) := by
  induction exprs generalizing found with
  | nil => exact .pure _
  | cons e rest ih =>
    refine (s.reports_findType e).bind ?_
    cases (s.findType e).value with
    | none => exact ih found
    | some type => exact .ite (ih _) ((reports_report .notAnInterface rfl rfl).bind (ih found))

theorem reports_linkInherits : Reports Stage.link.Owns (d.linkInherits relies) := by
  refine .bind (.traverse fun c _ => ?_) (.bind (.traverse fun i _ => ?_) (.pure _))
  · unfold linkClass
    cases c.source with
    | none => exact .pure _
    | some source => exact reports_addInherits _ _ _ _
  · unfold linkInterface
    cases i.source with
    | none => exact .pure _
    | some source => exact (reports_baseInterfaces _ _ _ _).bind (.pure _)

theorem reports_reportAt? (anchor : Option Anchor) (code : Code) (isCode : problem.code = code)
    (owned : stage.codes.elem code = true) : Reports stage.Owns (d.reportAt? anchor problem) := by
  cases anchor with
  | some anchor => exact reports_report code isCode owned
  | none => exact .pure _

theorem reports_breakClassCycles : Reports Stage.link.Owns d.breakClassCycles := by
  refine .foldlM fun d index _ => ?_
  unfold breakClassCycle
  cases classCycle d.table.classes index with
  | none => exact .pure _
  | some cycle => exact (d.reports_reportAt? _ .circularInheritance rfl rfl).bind (.pure _)

theorem reports_breakInterfaceCycle (index : Nat) :
    Reports Stage.link.Owns (d.breakInterfaceCycle index) := by
  obtain ⟨names, _, same⟩ := d.dropCycles_eq index [] _
  rw [breakInterfaceCycle, same]
  refine forall_mem_flatMap.2 fun cycle _ => ?_
  exact d.reports_reportAt? _ .circularInterfaces rfl rfl

theorem reports_linkSignature (s : Signature) :
    Reports Stage.link.Owns (d.linkSignature relies s) := by
  have linkType (s : Scope) (e : TypeExpr) : Reports Stage.link.Owns (linkType s e) :=
    (s.reports_findType e).bind (.pure _)
  unfold linkSignature
  split
  · exact .pure _
  · refine .bind (.bind (.traverse fun e _ => linkType _ e) ?_) (.pure _)
    exact .bind (.traverse fun e _ => linkType _ e) (.pure _)

theorem reports_linkSignatures : Reports Stage.link.Owns (d.linkSignatures relies) := by
  have signatures : Reports Stage.link.Owns
      (Noted.traverse (d.linkSignature relies) d.table.signatures) :=
    .traverse fun s _ => d.reports_linkSignature relies s
  rwa [← linkSignatures_signatures, Reports, Noted.notes_map] at signatures

theorem link_reports : Reports Stage.link.Owns (d.link relies) := by
  have imports : Reports Stage.link.Owns (d.linkImports relies) :=
    .bind (.traverse fun file _ => (reports_importedSpaces _ _ _).bind (.pure _)) (.pure _)
  refine imports.bind ((reports_linkInherits _ relies).bind ?_)
  refine (reports_breakClassCycles _).bind (.bind ?_ (reports_linkSignatures _ relies))
  exact .foldlM fun d index _ => d.reports_breakInterfaceCycle index

/-! ### Checking -/

theorem reports_checkGroup (group : Declaration) :
    Reports Stage.check.Owns (d.checkGroup c group) := by
  intro problem member
  obtain ⟨⟨f, i⟩, _, kept⟩ := mem_filterMap.1 member
  dsimp only at kept
  split at kept
  · obtain ⟨source, _, rfl⟩ := Option.map_eq_some_iff.1 kept
    show Code.duplicateOverload ∈ Stage.check.codes
    decide
  · cases kept

theorem reports_checkHidden (definition : ClassDef) (index : Nat) :
    Reports Stage.check.Owns (d.checkHidden c definition index) := by
  intro problem member
  obtain ⟨v, _, kept⟩ := mem_filterMap.1 member
  obtain ⟨source, _, found⟩ := Option.bind_eq_some_iff.1 kept
  obtain ⟨ancestor, _, rfl⟩ := Option.map_eq_some_iff.1 found
  show Code.hiddenVariable ∈ Stage.check.codes
  decide

/-- What can be wrong with the implementation of a function. -/
theorem code_of_implementationProblem {c : Catalog} {owner : TypeId} {definition : ClassDef}
    {anchor : Anchor} {i : InterfaceDef} {m : Method} {required : Function} {overload : Nat}
    {place : Anchor}
    (wrong : implementationProblem c owner definition anchor i m required overload =
      some (place, problem)) :
    problem.code = .notImplemented ∨ problem.code = .implementationMismatch := by
  unfold implementationProblem at wrong
  cases found : c.findImplementation owner m.name required with
  | none =>
    rw [found] at wrong
    cases wrong
    exact .inl rfl
  | some result =>
    rw [found] at wrong
    dsimp only at wrong
    split at wrong
    · cases wrong
      exact .inr rfl
    · split at wrong
      · cases wrong
        exact .inr rfl
      · cases wrong

theorem reports_checkImplementations (definition : ClassDef) (index : Nat) :
    Reports Stage.check.Owns (d.checkImplementations c definition index) := by
  unfold checkImplementations
  cases definition.source with
  | none => exact .pure _
  | some source =>
    refine .forM fun id _ => ?_
    cases c.interfaceDef? id with
    | none => exact .pure _
    | some i =>
      refine .forM fun m _ => .forM fun (required, overload) _ => ?_
      dsimp only
      cases wrong : implementationProblem c ⟨.here, definition.kind, index⟩ definition
        source.anchor i m required overload with
      | none => exact .pure _
      | some problem =>
        rcases code_of_implementationProblem wrong with absent | differs
        · exact reports_report .notImplemented absent rfl
        · exact reports_report .implementationMismatch differs rfl

theorem reports_checkDelegate (v : VariableDef) :
    Reports Stage.check.Owns (d.checkDelegate relies v) := by
  unfold checkDelegate
  dsimp only
  split
  · rename_i source delegate path _ _ _
    refine (Scope.reports_findPath _ ⟨rfl, rfl, rfl, rfl⟩ _ _).bind ?_
    cases ((d.scope relies v.space none source.anchor).findPath path source.anchor.span).value with
    | none => exact .pure _
    | some group => exact .ite (.ite (reports_report .delegateMismatch rfl rfl) (.pure _)) (.pure _)
  · exact .pure _

theorem check_reports : Reports Stage.check.Owns (d.check relies) := by
  refine .bind (.forM fun group _ => ?_) (.bind (.forM fun (c, i) _ => ?_)
    (.bind (.forM fun (c, i) _ => ?_) (.forM fun v _ => ?_)))
  · exact d.reports_checkGroup _ group
  · exact d.reports_checkHidden _ c i
  · exact d.reports_checkImplementations _ c i
  · exact d.reports_checkDelegate relies v

/-! ### Exporting -/

theorem reports_exportType (user : User) (type : TypeRef) :
    Reports Stage.surface.Owns (d.exportType user type) := by
  unfold exportType
  cases type.id.home with
  | kernel | rely i => exact .pure _
  | here =>
    refine .ite (.pure _) ?_
    cases d.table.exportIndex? type.id.kind type.id.index with
    | some index => exact .pure _
    | none =>
      cases user.anchor with
      | none => exact .pure _
      | some anchor => exact (reports_report .unexportedType rfl rfl).bind (.pure _)

theorem exportSurface_reports : Reports Stage.surface.Owns (d.exportSurface relies) := by
  intro n inside
  rw [notes_exportSurface] at inside
  obtain ⟨use, _, complained⟩ := mem_flatMap.1 inside
  exact d.reports_exportType use.1 use.2 n complained

/-! ### Binding -/

theorem reports_bindOverride (owner : TypeId) (f : Function) (implementation group : Declaration) :
    Reports Stage.binding.Owns (d.bindOverride c owner f implementation group) := by
  unfold bindOverride
  dsimp only
  split
  · exact .pure _
  · split
    · exact (reports_report .overrideMismatch rfl rfl).bind (.pure _)
    · exact .pure _

theorem bindings_reports : Reports Stage.binding.Owns (d.bindings relies) := by
  refine .bind (.traverse fun (c, i) _ => .bind ?_ (.pure _)) (.pure _)
  refine .bind (.traverse fun (name, f, implementation) _ => ?_) (.pure _)
  exact .bind (.traverse fun group _ => d.reports_bindOverride _ _ f implementation group) (.pure _)

end Draft

end Linkage
