/-
Purpose: Which overload a call selects: the first of the cheapest that it can be meant for, and
  where one takes exactly the types of the arguments, that one.
-/
import Linkage.Proofs.Catalog.Accepts

namespace Linkage

open List

variable {n : Nat} {params : List TypeRef} {f : Function} {s : Selection} {best : Option Selection}
  {accept : Declaration → Bool} {d method : Declaration} {base sub : TypeRef}

theorem Walk.Path.eq_of_zero {α : Type} {R : α → α → Prop} {a b : α} (path : Path R 0 a b) :
    a = b := by
  cases path
  rfl

namespace Catalog

variable {c : Catalog} {overload : Nat → Declaration → Function → Prop} {i : Nat}

/-! ### What a call costs -/

/-- What some arguments cost together, up to the largest cost. -/
def totalCost (c : Catalog) (params args : List TypeRef) : Nat :=
  min ((params.zip args).map fun pair => (c.conversionCost pair.1 pair.2).getD 0).sum maxCost

/-- A call can be meant for an overload: it has as many parameters as there are arguments, each
argument can be passed for its parameter, and the overload is accepted under its own visibility. -/
structure Admissible (c : Catalog) (accept : Declaration → Bool) (args : List TypeRef)
    (d : Declaration) (f : Function) : Prop where
  arity : f.params.length = args.length
  converts : ∀ pair ∈ f.paramTypes.zip args, (c.conversionCost pair.1 pair.2).isSome = true
  accepted : accept d = true

theorem addCost_eq_min (a b : Nat) : addCost a b = min (a + b) maxCost := by
  unfold addCost
  split <;> omega

/-- Adding costs one after the other, and staying at the largest, is adding them up first. -/
theorem foldlM_addCost (pairs : List (TypeRef × TypeRef)) {start : Nat} (small : start ≤ maxCost) :
    pairs.foldlM (fun total pair => (c.conversionCost pair.1 pair.2).map (addCost total)) start =
        some n ↔
      (∀ pair ∈ pairs, (c.conversionCost pair.1 pair.2).isSome = true) ∧
        n = min (start + (pairs.map fun pair => (c.conversionCost pair.1 pair.2).getD 0).sum)
          maxCost := by
  induction pairs generalizing start with
  | nil =>
    simp
    constructor
    · omega
    · omega
  | cons pair pairs ih =>
    rw [foldlM_cons, forall_mem_cons, map_cons, sum_cons]
    cases cost : c.conversionCost pair.1 pair.2 with
    | none => simp
    | some m =>
      have onward : addCost start m ≤ maxCost := by
        exact min_le_right _ _
      simp only [Option.map_some, Option.bind_eq_bind, Option.bind_some, ih onward,
        Option.isSome_some, true_and, Option.getD_some]
      apply and_congr_right
      intro _
      rw [addCost_eq_min]
      constructor
      · omega
      · omega

/-- A call has a cost if each argument can be passed for its parameter, and then it is the sum. -/
theorem callCost_eq_some {args : List TypeRef} :
    c.callCost params args = some n ↔ params.length = args.length ∧
      (∀ pair ∈ params.zip args, (c.conversionCost pair.1 pair.2).isSome = true) ∧
        n = c.totalCost params args := by
  unfold callCost totalCost
  dsimp only
  by_cases arity : params.length = args.length
  · have sums := foldlM_addCost (c := c) (n := n) (params.zip args) (Nat.zero_le maxCost)
    simpa [arity] using sums
  · simp [arity]

/-! ### The running best

The overloads are looked at one after the other.  What stands after some of them is the first of the
cheapest among these, and one more overload keeps it so. -/

/-- The overload at a position can be called with some arguments and is not refused. -/
def Candidate (c : Catalog) (declare : Nat → Function → Option Declaration)
    (functions : List Function) (args : List TypeRef) (i : Nat) (s : Selection) : Prop :=
  ∃ f, functions[i]? = some f ∧ c.callCost f.paramTypes args = some s.cost ∧
    declare i f = some s.declaration

/-- Of the candidates at some positions this is the first of the cheapest, or there is none. -/
def Leads (candidates : Nat → Selection → Prop) : Option Selection → Prop
  | none => ∀ i s, ¬candidates i s
  | some s => ∃ i, candidates i s ∧
      ∀ j s', candidates j s' → s.cost ≤ s'.cost ∧ (s'.cost = s.cost → i ≤ j)

/-- What the overload at a position makes of a call. -/
def offer (c : Catalog) (declare : Nat → Function → Option Declaration) (args : List TypeRef)
    (i : Nat) (f : Function) : Option Selection :=
  (c.callCost f.paramTypes args).bind fun cost => (declare i f).map fun d => ⟨d, cost⟩

variable {declare : Nat → Function → Option Declaration} {functions : List Function}
  {args : List TypeRef}

theorem offer_eq_some : c.offer declare args i f = some s ↔
      c.callCost f.paramTypes args = some s.cost ∧ declare i f = some s.declaration := by
  unfold offer
  cases c.callCost f.paramTypes args with
  | none => simp
  | some cost =>
    cases declare i f with
    | none => simp
    | some d =>
      obtain ⟨d', cost'⟩ := s
      simp [and_comm]

theorem Candidate.eq {s' : Selection} (one : c.Candidate declare functions args i s)
    (other : c.Candidate declare functions args i s') : s = s' := by
  obtain ⟨f, found, offered⟩ := one
  obtain ⟨f', found', offered'⟩ := other
  rw [found] at found'
  cases found'
  exact Option.some.inj ((offer_eq_some.2 offered).symm.trans (offer_eq_some.2 offered'))

/-- One more overload is one more candidate, if it is one. -/
theorem candidate_append :
    c.Candidate declare (functions ++ [f]) args i s ↔ c.Candidate declare functions args i s ∨
        i = functions.length ∧ c.offer declare args functions.length f = some s := by
  unfold Candidate
  rcases lt_trichotomy i functions.length with before | rfl | after
  · simp [getElem?_append_left before, ne_of_lt before]
  · simp [offer_eq_some]
  · have outside : functions.length + 1 ≤ i := after
    simp [getElem?_eq_none (show (functions ++ [f]).length ≤ i by simpa using outside),
      getElem?_eq_none (le_of_lt after), ne_of_gt after]

/-- What stands after one more overload. -/
theorem cheapest_append (f : Function) : c.cheapest declare (functions ++ [f]) args =
      match c.offer declare args functions.length f with
      | none => c.cheapest declare functions args
      | some next => better (c.cheapest declare functions args) next := by
  unfold cheapest offer
  rw [zipIdx_append, filterMap_append]
  cases cost : c.callCost f.paramTypes args with
  | none => simp [cost]
  | some n =>
    cases declared : declare functions.length f with
    | none | some d => simp [cost, declared]

/-- A later candidate takes the lead only if it is cheaper. -/
theorem Leads.step {candidates candidates' : Nat → Selection → Prop} {next : Selection}
    (leads : Leads candidates best) (early : ∀ i s, candidates i s → i < n)
    (more : ∀ i s, candidates' i s ↔ candidates i s ∨ i = n ∧ s = next) :
    Leads candidates' (better best next) := by
  have new : candidates' n next := (more n next).2 (.inr ⟨rfl, rfl⟩)
  cases best with
  | none =>
    refine ⟨n, new, fun j s present => ?_⟩
    rcases (more j s).1 present with old | ⟨rfl, rfl⟩
    · exact absurd old (leads j s)
    · exact ⟨le_refl _, fun _ => le_refl _⟩
  | some s =>
    obtain ⟨i, stands, least⟩ := leads
    unfold better
    dsimp only
    split
    · refine ⟨n, new, fun j s' present => ?_⟩
      rcases (more j s').1 present with old | ⟨rfl, rfl⟩
      · have above := (least j s' old).1
        exact ⟨by omega, by omega⟩
      · exact ⟨le_refl _, fun _ => le_refl _⟩
    · refine ⟨i, (more i s).2 (.inl stands), fun j s' present => ?_⟩
      rcases (more j s').1 present with old | ⟨rfl, rfl⟩
      · exact least j s' old
      · have before := early i s stands
        exact ⟨by omega, by omega⟩

/-- What is found in the end is the first of the cheapest candidates. -/
theorem leads_cheapest (c : Catalog) (declare : Nat → Function → Option Declaration)
    (functions : List Function) (args : List TypeRef) :
    Leads (c.Candidate declare functions args) (c.cheapest declare functions args) := by
  induction functions using List.reverseRecOn with
  | nil =>
    rintro i s ⟨f, found, _⟩
    cases found
  | append_singleton functions f ih =>
    rw [cheapest_append]
    have early (i : Nat) (s : Selection) (stands : c.Candidate declare functions args i s) :
        i < functions.length := by
      obtain ⟨f', found, _⟩ := stands
      exact lt_of_getElem? found
    cases offered : c.offer declare args functions.length f with
    | none =>
      have same : c.Candidate declare (functions ++ [f]) args =
          c.Candidate declare functions args := by
        funext i s
        simp [candidate_append, offered]
      rw [same]
      exact ih
    | some next =>
      refine ih.step early fun i s => ?_
      simp [candidate_append, offered, eq_comm]

/-- Only one can lead. -/
theorem Leads.eq (leads : Leads (c.Candidate declare functions args) best)
    (other : Leads (c.Candidate declare functions args) (some s)) : best = some s := by
  obtain ⟨i, stands, least⟩ := other
  cases best with
  | none => exact absurd stands (leads i s)
  | some s' =>
    obtain ⟨j, stands', least'⟩ := leads
    obtain ⟨above, first⟩ := least j s' stands'
    obtain ⟨above', first'⟩ := least' i s stands
    have same : s'.cost = s.cost := by omega
    obtain rfl : i = j := le_antisymm (first same) (first' same.symm)
    rw [stands'.eq stands]

/-! ### Functions and constructors -/

/-- The overload at a position of a method, declared under its own visibility. -/
def OverloadAt (c : Catalog) (method : Declaration) (i : Nat) (d : Declaration) (f : Function) :
    Prop :=
  ∃ functions named, c.overloads method.group = some functions ∧ functions[i]? = some f ∧
    method.group.overload? i = some named ∧ d = { named with visibility := f.visibility }

/-- The constructor at a position of a class. -/
def ConstructorAt (c : Catalog) (id : TypeId) (i : Nat) (d : Declaration) (f : Function) : Prop :=
  ∃ definition, c.classDef? id = some definition ∧ definition.constructors[i]? = some f ∧
    d = ⟨id.home, f.visibility, .constructor id.index i⟩

/-- An overload for which a call can be meant and none costs less. -/
structure Cheapest (c : Catalog) (accept : Declaration → Bool) (args : List TypeRef)
    (overload : Nat → Declaration → Function → Prop) (i : Nat) (d : Declaration) (f : Function) :
    Prop where
  stands : overload i d f
  admissible : c.Admissible accept args d f
  least : ∀ j d' f', overload j d' f' → c.Admissible accept args d' f' →
    c.totalCost f.paramTypes args ≤ c.totalCost f'.paramTypes args

/-- A call selects nothing exactly if it can be meant for no overload.  It selects the overload at
the least position of the cheapest ones, at what the arguments cost together. -/
structure Selects (c : Catalog) (accept : Declaration → Bool) (args : List TypeRef)
    (overload : Nat → Declaration → Function → Prop) (result : Option Selection) : Prop where
  eq_none_iff : result = none ↔ ∀ i d f, overload i d f → ¬c.Admissible accept args d f
  eq_some_iff : ∀ s, result = some s ↔ ∃ i f, c.Cheapest accept args overload i s.declaration f ∧
    (∀ j d' f', c.Cheapest accept args overload j d' f' → i ≤ j) ∧
      s.cost = c.totalCost f.paramTypes args

/-- Where the functions that are offered are those that are accepted, one of the overloads is
selected. -/
theorem selects_cheapest (offers : ∀ i d f, functions[i]? = some f ∧ declare i f = some d ↔
      overload i d f ∧ accept d = true) :
    c.Selects accept args overload (c.cheapest declare functions args) := by
  have leads := leads_cheapest c declare functions args
  have candidate (i : Nat) (s : Selection) : c.Candidate declare functions args i s ↔
      ∃ f, overload i s.declaration f ∧ c.Admissible accept args s.declaration f ∧
        s.cost = c.totalCost f.paramTypes args := by
    have arity (f : Function) : f.paramTypes.length = f.params.length := length_map _
    constructor
    · rintro ⟨f, found, cost, declared⟩
      obtain ⟨stands, accepted⟩ := (offers i _ f).1 ⟨found, declared⟩
      obtain ⟨counted, converts, total⟩ := callCost_eq_some.1 cost
      exact ⟨f, stands, ⟨arity f ▸ counted, converts, accepted⟩, total⟩
    · rintro ⟨f, stands, admissible, total⟩
      obtain ⟨found, declared⟩ := (offers i _ f).2 ⟨stands, admissible.accepted⟩
      exact ⟨f, found, callCost_eq_some.2 ⟨(arity f).trans admissible.arity, admissible.converts,
        total⟩, declared⟩
  have least (i : Nat) (s : Selection) (f : Function) (stands : overload i s.declaration f)
      (admissible : c.Admissible accept args s.declaration f)
      (total : s.cost = c.totalCost f.paramTypes args) :
      (∀ j s', c.Candidate declare functions args j s' →
          s.cost ≤ s'.cost ∧ (s'.cost = s.cost → i ≤ j)) ↔
        c.Cheapest accept args overload i s.declaration f ∧
          ∀ j d' f', c.Cheapest accept args overload j d' f' → i ≤ j := by
    constructor
    · intro leading
      have below (j : Nat) (d' : Declaration) (f' : Function) (stands' : overload j d' f')
          (admissible' : c.Admissible accept args d' f') :=
        leading j ⟨d', c.totalCost f'.paramTypes args⟩
          ((candidate j _).2 ⟨f', stands', admissible', rfl⟩)
      refine ⟨⟨stands, admissible, fun j d' f' stands' admissible' => ?_⟩, fun j d' f' other => ?_⟩
      · exact total ▸ (below j d' f' stands' admissible').1
      · refine (below j d' f' other.stands other.admissible).2 ?_
        have above := other.least i _ f stands admissible
        have under := (below j d' f' other.stands other.admissible).1
        dsimp only at under ⊢
        omega
    · rintro ⟨cheapest, first⟩ j s' present
      obtain ⟨f', stands', admissible', total'⟩ := (candidate j s').1 present
      rw [total, total']
      refine ⟨cheapest.least j _ f' stands' admissible', fun same => ?_⟩
      refine first j _ f' ⟨stands', admissible', fun k d'' f'' stands'' admissible'' => ?_⟩
      rw [same]
      exact cheapest.least k d'' f'' stands'' admissible''
  constructor
  · constructor
    · intro nothing i d f stands admissible
      rw [nothing] at leads
      exact leads i ⟨d, c.totalCost f.paramTypes args⟩
        ((candidate i _).2 ⟨f, stands, admissible, rfl⟩)
    · intro noneFits
      cases found : c.cheapest declare functions args with
      | none => rfl
      | some s =>
        rw [found] at leads
        obtain ⟨i, present, _⟩ := leads
        obtain ⟨f, stands, admissible, _⟩ := (candidate i s).1 present
        exact absurd admissible (noneFits i _ f stands)
  · intro s
    constructor
    · intro found
      rw [found] at leads
      obtain ⟨i, present, leading⟩ := leads
      obtain ⟨f, stands, admissible, total⟩ := (candidate i s).1 present
      obtain ⟨cheapest, first⟩ := (least i s f stands admissible total).1 leading
      exact ⟨i, f, cheapest, first, total⟩
    · rintro ⟨i, f, cheapest, first, total⟩
      refine leads.eq ⟨i, (candidate i s).2 ⟨f, cheapest.stands, cheapest.admissible, total⟩, ?_⟩
      exact (least i s f cheapest.stands cheapest.admissible total).2 ⟨cheapest, first⟩

theorem selects_none (nowhere : ∀ i d f, ¬overload i d f) :
    c.Selects accept args overload none := by
  constructor
  · simp [nowhere]
  · intro s
    constructor
    · intro impossible
      cases impossible
    · rintro ⟨i, f, cheapest, _⟩
      exact absurd cheapest.stands (nowhere i _ f)

theorem isMethod_of_overload? {named : Declaration}
    (found : d.overload? i = some named) : d.entity.isMethod = true := by
  obtain ⟨home, visibility, entity⟩ := d
  cases entity <;> first | rfl | cases found

theorem isMethod_of_overloadAt
    (stands : c.OverloadAt method i d f) : method.group.entity.isMethod = true := by
  obtain ⟨_, _, _, _, isOverload, _⟩ := stands
  exact isMethod_of_overload? isOverload

/-- A declaration names one function of a method. -/
theorem OverloadAt.function_eq {i j : Nat} {f' : Function}
    (stands : c.OverloadAt method i d f) (stands' : c.OverloadAt method j d f') : f = f' := by
  obtain ⟨functions, named, overloads, inside, isOverload, rfl⟩ := stands
  obtain ⟨functions', named', overloads', inside', isOverload', same⟩ := stands'
  obtain rfl : i = j := by
    obtain ⟨entity, isEntity, rfl⟩ := Option.map_eq_some_iff.1 isOverload
    obtain ⟨entity', isEntity', rfl⟩ := Option.map_eq_some_iff.1 isOverload'
    obtain ⟨_, _, rfl⟩ := Declaration.mk.inj same
    cases kind : method.group.entity <;> rw [kind] at isEntity isEntity' <;> cases isEntity <;>
      cases isEntity' <;> rfl
  rw [overloads] at overloads'
  cases overloads'
  rw [inside] at inside'
  exact Option.some.inj inside'

/-- A call of a method selects one of its functions. -/
theorem selects_function (c : Catalog) (accept : Declaration → Bool) (method : Declaration)
    (args : List TypeRef) : c.Selects accept args (c.OverloadAt method)
      (c.selectFunctionWhere accept method args none) := by
  unfold selectFunctionWhere
  dsimp only
  split
  · cases found : c.overloads method.group with
    | none =>
      apply selects_none
      rintro i d f ⟨functions, _, found', _⟩
      rw [found] at found'
      cases found'
    | some functions =>
      rw [Option.bind_some]
      apply selects_cheapest
      intro i d f
      rw [Option.filter_eq_some_iff, Option.map_eq_some_iff]
      constructor
      · rintro ⟨inside, ⟨named, isOverload, rfl⟩, accepted⟩
        exact ⟨⟨functions, named, found, inside, isOverload, rfl⟩, accepted⟩
      · rintro ⟨⟨functions', named, found', inside, isOverload, rfl⟩, accepted⟩
        rw [found] at found'
        cases found'
        exact ⟨inside, ⟨named, isOverload, rfl⟩, accepted⟩
  · rename_i noMethod
    apply selects_none
    intro i d f stands
    exact noMethod (isMethod_of_overloadAt stands)

/-- A call of a class selects one of its constructors. -/
theorem selects_constructor (c : Catalog) (id : TypeId) (args : List TypeRef) :
    c.Selects (fun _ => true) args (c.ConstructorAt id) (c.selectConstructor id args) := by
  unfold selectConstructor
  cases found : c.classDef? id with
  | none =>
    apply selects_none
    rintro i d f ⟨definition, found', _⟩
    rw [found] at found'
    cases found'
  | some definition =>
    rw [Option.bind_some]
    apply selects_cheapest
    intro i d f
    constructor
    · rintro ⟨inside, declared⟩
      exact ⟨⟨definition, found, inside, (Option.some.inj declared).symm⟩, rfl⟩
    · rintro ⟨⟨definition', found', inside, rfl⟩, _⟩
      rw [found] at found'
      cases found'
      exact ⟨inside, rfl⟩

/-- A call selects the first of the cheapest overloads that it can be meant for.  It selects nothing
if what is called is no method or it can be meant for none of the overloads.  The constructors of a
class follow the same law, and all of them are accepted. -/
theorem select_first_cheapest (c : Catalog) (args : List TypeRef) : (∀ accept method,
      c.Selects accept args (c.OverloadAt method) (c.selectFunctionWhere accept method args none) ∧
      (c.selectFunctionWhere accept method args none = none ↔ method.group.entity.isMethod = false ∨
          ∀ i d f, c.OverloadAt method i d f → ¬c.Admissible accept args d f)) ∧
    ∀ id, c.Selects (fun _ => true) args (c.ConstructorAt id) (c.selectConstructor id args) := by
  refine ⟨fun accept method => ?_, fun id => c.selects_constructor id args⟩
  have selects := c.selects_function accept method args
  refine ⟨selects, ?_⟩
  rw [selects.eq_none_iff]
  constructor
  · exact .inr
  · rintro (noMethod | noneFits) i d f stands
    · rw [isMethod_of_overloadAt stands] at noMethod
      cases noMethod
    · exact noneFits i d f stands

end Catalog

namespace Sample

/-- A class and one that derives from it. -/
def shelfTypes : List ClassDef :=
  [⟨"Box", 0, .public_, .handle, TypeId.handle.scalar, [], [], [], [], .empty, 0, none⟩,
   ⟨"Crate", 0, .public_, .handle, TypeId.scalar ⟨.here, .handle, 0⟩, [], [], [], [], .empty, 0,
     none⟩]

def box : TypeRef := TypeId.scalar ⟨.here, .handle, 0⟩

def crate : TypeRef := TypeId.scalar ⟨.here, .handle, 1⟩

/-- Ways to stack two things and to weigh one. -/
def shelf : Catalog where
  own :=
    { Table.empty "Shelf" .here with
      classes := shelfTypes
      methods := [ ⟨"Stack", 0, [⟨.private_, [⟨"lower", crate⟩, ⟨"upper", crate⟩], [], none⟩,
          ⟨.public_, [⟨"lower", box⟩, ⟨"upper", crate⟩], [], none⟩,
          ⟨.public_, [⟨"lower", crate⟩, ⟨"upper", box⟩], [], none⟩]⟩,
        ⟨"Weigh", 0, [⟨.public_, [⟨"what", box⟩, ⟨"unit", TypeId.real.scalar⟩], [], none⟩,
          ⟨.public_, [⟨"what", crate⟩, ⟨"unit", TypeId.integer.scalar⟩], [TypeId.real.scalar],
            none⟩]⟩] }
  relies := []

end Sample

-- The exact overload is private, and the other two are one step away each.
example : Sample.shelf.selectFunctionWhere (fun d => d.visibility = .public_)
    ⟨.here, .public_, .globalMethod 0⟩ [Sample.crate, Sample.crate] none =
      some ⟨⟨.here, .public_, .globalFunction 0 1⟩, 1⟩ := by
  decide +kernel

namespace Catalog

variable {c : Catalog} {args : List TypeRef}

/-! ### Costs of nothing -/

/-- Only a type itself is no step away. -/
theorem inheritDepth_eq_zero (free : c.inheritDepth base sub = some 0) : base = sub := by
  have measured := measured_of_inheritDepth free
  generalize zero : 0 = n at measured
  cases measured with
  | same _ => rfl
  | array _ _ _ small => omega
  | @climb _ _ _ k d _ nearest =>
    obtain ⟨rfl, rfl⟩ : k = 0 ∧ d = 0 := by omega
    cases nearest.up
    rcases ownDepth_eq_some.1 nearest.own with ⟨rfl, _⟩ | ⟨_, _, _, m, impossible, _⟩
    · rfl
    · cases impossible
  | inherits _ path _ =>
    subst zero
    rw [path.eq_of_zero]
  | root _ _ _ small => omega

theorem wideningCost_ne_zero (source target : TypeId) : wideningCost source target ≠ some 0 := by
  intro free
  obtain ⟨w, found, nothing⟩ := Option.map_eq_some_iff.1 free
  have dear : ∀ w ∈ widenings, w.2.2 ≠ 0 := by decide
  exact dear w (mem_of_find?_eq_some found) nothing

/-- Passing a value costs nothing only where its own type is expected.  Null is the exception. -/
theorem conversionCost_eq_zero (valid : sub.isValid = true)
    (notNull : sub ≠ TypeId.null.scalar) : c.conversionCost base sub = some 0 ↔ base = sub := by
  constructor
  · intro free
    by_contra different
    unfold conversionCost at free
    rw [if_neg fun same => different same.1, if_neg notNull] at free
    dsimp only at free
    split at free
    · rename_i cost widens
      cases free
      split at widens
      · cases widens
      · exact wideningCost_ne_zero _ _ widens
    · exact different (inheritDepth_eq_zero free)
  · rintro rfl
    rw [conversionCost, if_pos ⟨rfl, valid⟩]

/-- Arguments cost nothing together only where they have the types of the parameters. -/
theorem totalCost_eq_zero (arity : params.length = args.length)
    (converts : ∀ pair ∈ params.zip args, (c.conversionCost pair.1 pair.2).isSome = true)
    (valid : ∀ arg ∈ args, arg.isValid = true ∧ arg ≠ TypeId.null.scalar) :
    c.totalCost params args = 0 ↔ params = args := by
  have positive : maxCost ≠ 0 := by decide
  rw [totalCost, Nat.min_eq_zero_iff, or_iff_left positive, sum_eq_zero_iff,
    forall_mem_map]
  induction params generalizing args with
  | nil =>
    cases args with
    | nil => simp
    | cons arg args => cases arity
  | cons param params ih =>
    cases args with
    | nil => cases arity
    | cons arg args =>
      rw [zip_cons_cons, forall_mem_cons] at converts ⊢
      rw [forall_mem_cons] at valid
      obtain ⟨cost, found⟩ := Option.isSome_iff_exists.1 converts.1
      have here : (c.conversionCost param arg).getD 0 = 0 ↔ param = arg := by
        rw [← conversionCost_eq_zero valid.1.1 valid.1.2, found]
        simp
      have later : (∀ pair ∈ params.zip args, (c.conversionCost pair.1 pair.2).getD 0 = 0) ↔
          params = args := ih (Nat.succ.inj arity) converts.2 valid.2
      rw [here, later, List.cons.injEq]

/-! ### Exact matches -/

/-- With expected returns an overload is selected that takes exactly the types of the arguments. -/
theorem exists_of_selectFunctionWhere_some {returns : List TypeRef}
    (found : c.selectFunctionWhere accept method args (some returns) = some s) :
    ∃ i f, c.OverloadAt method i s.declaration f ∧ f.paramTypes = args ∧
      accept s.declaration = true ∧ s.cost = 0 := by
  unfold selectFunctionWhere at found
  dsimp only at found
  split at found
  · obtain ⟨functions, overloads, selected⟩ := Option.bind_eq_some_iff.1 found
    obtain ⟨⟨f, i⟩, member, fits⟩ := exists_of_findSome?_eq_some selected
    have inside := mk_mem_zipIdx_iff_getElem?.1 member
    obtain ⟨⟨params, _⟩, declared⟩ := Option.ite_none_right_eq_some.1 fits
    obtain ⟨d, accepted, rfl⟩ := Option.map_eq_some_iff.1 declared
    rw [Option.filter_eq_some_iff, Option.map_eq_some_iff] at accepted
    obtain ⟨⟨named, isOverload, rfl⟩, accepted⟩ := accepted
    exact ⟨i, f, ⟨functions, named, overloads, inside, isOverload, rfl⟩, params, accepted, rfl⟩
  · cases found

/-- Values of the expected types can be passed, one for one. -/
theorem admissible_of_paramTypes (params : f.paramTypes = args) (accepted : accept d = true)
    (valid : ∀ arg ∈ args, arg.isValid = true) : c.Admissible accept args d f := by
  refine ⟨?_, ?_, accepted⟩
  · rw [← params]
    exact (length_map _).symm
  · rw [params, zip_eq_zipWith, zipWith_self, forall_mem_map]
    intro arg member
    rw [conversionCost, if_pos ⟨rfl, valid arg member⟩]
    rfl

/-- Where no two overloads take the same types, exact matches and cheapest calls agree: what is
selected with expected returns is selected without them, and the cost is nothing for the overload
with the types of the arguments and for no other.  Null is left aside, since it can be passed for
any reference at no cost. -/
theorem exact_agrees (c : Catalog) (accept : Declaration → Bool) (method : Declaration)
    (args : List TypeRef) (distinct : ∀ functions, c.overloads method.group = some functions →
      (functions.map Function.paramTypes).Nodup)
    (valid : ∀ arg ∈ args, arg.isValid = true ∧ arg ≠ TypeId.null.scalar) :
    (∀ returns s, c.selectFunctionWhere accept method args (some returns) = some s →
      s.cost = 0 ∧ c.selectFunctionWhere accept method args none = some s) ∧
    ∀ s, c.selectFunctionWhere accept method args none = some s →
      (s.cost = 0 ↔ ∃ i f, c.OverloadAt method i s.declaration f ∧ f.paramTypes = args) := by
  have selects := c.selects_function accept method args
  have free {d : Declaration} {f : Function} (admissible : c.Admissible accept args d f) :
      c.totalCost f.paramTypes args = 0 ↔ f.paramTypes = args :=
    totalCost_eq_zero ((length_map _).trans admissible.arity) admissible.converts valid
  have unique {i j : Nat} {d d' : Declaration} {f f' : Function}
      (stands : c.OverloadAt method i d f) (stands' : c.OverloadAt method j d' f')
      (same : f.paramTypes = f'.paramTypes) : i = j := by
    obtain ⟨functions, _, overloads, inside, _⟩ := stands
    obtain ⟨functions', _, overloads', inside', _⟩ := stands'
    rw [overloads] at overloads'
    cases overloads'
    refine (getElem?_inj ?_ (distinct functions overloads)).1 ?_
    · rw [length_map]
      exact (List.getElem?_eq_some_iff.1 inside).1
    · simp [inside, inside', same]
  constructor
  · intro returns s found
    obtain ⟨i, f, stands, params, accepted, cost⟩ := exists_of_selectFunctionWhere_some found
    have admissible : c.Admissible accept args s.declaration f :=
      admissible_of_paramTypes params accepted fun arg member => (valid arg member).1
    have nothing := (free admissible).2 params
    refine ⟨cost, (selects.eq_some_iff s).2 ⟨i, f, ⟨stands, admissible, ?_⟩, ?_, ?_⟩⟩
    · intro j d' f' _ _
      rw [nothing]
      exact Nat.zero_le _
    · intro j d' f' other
      have cheap := other.least i _ f stands admissible
      rw [nothing, Nat.le_zero_eq] at cheap
      have same := (free other.admissible).1 cheap
      exact Nat.le_of_eq (unique stands other.stands (params.trans same.symm))
    · rw [cost, nothing]
  · intro s found
    obtain ⟨i, f, cheapest, _, total⟩ := (selects.eq_some_iff s).1 found
    rw [total, free cheapest.admissible]
    constructor
    · intro params
      exact ⟨i, f, cheapest.stands, params⟩
    · rintro ⟨j, f', stands', params'⟩
      rw [cheapest.stands.function_eq stands']
      exact params'

/-- A crate that is weighed in whole units: the later overload fits exactly, and the earlier one
costs a step and a widening. -/
theorem exact_agrees_shelf :
    Sample.shelf.selectFunctionWhere (fun _ => true) ⟨.here, .public_, .globalMethod 1⟩
        [Sample.crate, TypeId.integer.scalar] (some [TypeId.real.scalar]) =
      some ⟨⟨.here, .public_, .globalFunction 1 1⟩, 0⟩ ∧
    Sample.shelf.selectFunctionWhere (fun _ => true) ⟨.here, .public_, .globalMethod 1⟩
        [Sample.crate, TypeId.integer.scalar] none =
      some ⟨⟨.here, .public_, .globalFunction 1 1⟩, 0⟩ := by
  have distinct : ∀ functions,
      Sample.shelf.overloads (Declaration.group ⟨.here, .public_, .globalMethod 1⟩) =
        some functions → (functions.map Function.paramTypes).Nodup := by
    rintro functions overloads
    cases overloads
    decide
  have agrees := exact_agrees Sample.shelf (fun _ => true) ⟨.here, .public_, .globalMethod 1⟩
    [Sample.crate, TypeId.integer.scalar] distinct (by decide)
  exact ⟨by decide, (agrees.1 [TypeId.real.scalar] _ (by decide)).2⟩

end Catalog

end Linkage
