-- SUMMARY: A provider that mentions only nodes it was given leads no reference in a circle.
import TypeStyle.Proofs.Tree.Grounded
import TypeStyle.Proofs.Tree.Identity

/-! # Providers

Whoever puts a draft together gets to know nodes by the calls that return them. A provider that
passes on only such nodes mentions each node after it was made. Nothing in the tables shows that
order, as sites and expressions have tables of their own; but a node that is added mentions only
nodes that were there, and those keep their parts. -/

namespace TypeStyle

/-! ## Tables that grow -/

namespace Tables

variable {t t' : Tables} {r x : Ref} {ps : List Ref}

/-- The parts of the node that a reference names, if it names one. -/
def parts? (t : Tables) : Ref → Option (List Ref)
  | .site id => (t.site? id).map Site.parts
  | .expr id => (t.expr? id).map Expr.parts

theorem parts_eq (t : Tables) (r : Ref) : t.parts r = (t.parts? r).getD [] := by
  cases r with
  | site id => cases h : t.site? id <;> simp [parts, parts?, h]
  | expr id => cases h : t.expr? id <;> simp [parts, parts?, h]

/-- The reference names a node of the tables. -/
def Has (t : Tables) (r : Ref) : Prop := (t.parts? r).isSome = true

/-- What is mentioned in the tables is there, and every way through it ends. -/
structure Orderly (t : Tables) : Prop where
  has_of_mem_parts : ∀ r, ∀ q ∈ t.parts r, t.Has q
  grounded : ∀ r, t.Grounded r

theorem orderly_empty : Orderly ⟨[], #[]⟩ where
  has_of_mem_parts r q hq := by cases r <;> cases hq
  grounded r := Acc.intro r fun q hq => by cases r <;> cases hq

/-- The reference `x` now names a node with the parts `ps`, unless it named one before. -/
def Adds (t : Tables) (x : Ref) (ps : List Ref) (t' : Tables) : Prop :=
  ∀ r, t'.parts? r = (t.parts? r).or (if r = x then some ps else none)

namespace Adds

theorem has (h : t.Adds x ps t') (hr : t.Has r) : t'.Has r := by
  rw [Has, h r, Option.isSome_or, hr, Bool.true_or]

theorem has_self (h : t.Adds x ps t') : t'.Has x := by
  rw [Has, h x, if_pos rfl, Option.isSome_or, Option.isSome_some, Bool.or_true]

/-- A node that was there keeps its parts. -/
theorem parts_of_has (h : t.Adds x ps t') (hr : t.Has r) : t'.parts r = t.parts r := by
  obtain ⟨qs, hqs⟩ := Option.isSome_iff_exists.mp hr
  rw [parts_eq, parts_eq, h r, hqs, Option.some_or]

theorem mem_of_mem_parts (h : t.Adds x ps t') (hr : ¬ t.Has r) {q : Ref} (hq : q ∈ t'.parts r) :
    q ∈ ps := by
  have hnone : t.parts? r = none := Option.not_isSome_iff_eq_none.mp hr
  rw [parts_eq, h r, hnone, Option.none_or] at hq
  split at hq
  · exact hq
  · cases hq

end Adds

/-- Adding a node that mentions only nodes that are there leads no way in a circle. -/
theorem Orderly.adds (h : t.Orderly) (hadds : t.Adds x ps t') (hps : ∀ q ∈ ps, t.Has q) :
    t'.Orderly := by
  have hold : ∀ r, t.Has r → t'.Grounded r := by
    intro r
    induction h.grounded r with
    | intro r _ ih =>
      intro hr
      refine Acc.intro r fun q hq => ?_
      rw [hadds.parts_of_has hr] at hq
      exact ih q hq (h.has_of_mem_parts r q hq)
  have hmentioned : ∀ r, ∀ q ∈ t'.parts r, t.Has q := by
    intro r q hq
    by_cases hr : t.Has r
    · rw [hadds.parts_of_has hr] at hq
      exact h.has_of_mem_parts r q hq
    · exact hps q (hadds.mem_of_mem_parts hr hq)
  exact ⟨fun r q hq => hadds.has (hmentioned r q hq),
    fun r => Acc.intro r fun q hq => hold q (hmentioned r q hq)⟩

theorem adds_expr (t : Tables) (e : Expr) :
    t.Adds (.expr ⟨t.exprs.size⟩) e.parts { t with exprs := t.exprs.push e } := by
  intro r
  cases r with
  | site id => simp [parts?, site?]
  | expr id =>
    obtain ⟨i⟩ := id
    by_cases hi : i = t.exprs.size
    · simp [parts?, expr?, hi]
    · simp [parts?, expr?, Array.getElem?_push, hi]

theorem adds_site (t : Tables) (s : Site) :
    t.Adds (.site s.id) s.parts { t with sites := t.sites ++ [s] } := by
  intro r
  cases r with
  | site id =>
    have hsite : site? { t with sites := t.sites ++ [s] } id =
        (t.site? id).or (if id = s.id then some s else none) := by
      simp [site?, List.find?_append, List.find?_singleton, eq_comm]
    rw [parts?, hsite, Option.map_or]
    by_cases hid : id = s.id <;> simp [parts?, hid]
  | expr id => simp [parts?, expr?]

end Tables

/-! ## Builder calls with the nodes that they hand around -/

namespace Draft

/-- A call of the builder, with the nodes that it is passed and the nodes that it returns. -/
inductive Exchange : Draft → List Ref → List Ref → Draft → Prop where
  | usingNamespace (d : Draft) (name : String) : Exchange d [] [] (d.push (.usingNamespace name))
  | statement (d : Draft) (e : ExprId) : Exchange d [.expr e] [] (d.push (.expr e))
  | openClass (d : Draft) (name : String) (typeParams : List String) :
      Exchange d [] [] (d.openBody (.classDef name typeParams))
  | openMethod (d : Draft) (returns name : String) :
      Exchange d [] [] (d.openBody (.method returns name))
  | openBranch (d : Draft) (condition : ExprId) :
      Exchange d [.expr condition] [] (d.openBody (.branch condition))
  | openLoop (d : Draft) (type : TypeExpr) (name : String) (collection : ExprId) :
      Exchange d [.expr collection] [.site (d.openForeach type (.foreach name) collection).1]
        (d.openForeach type (.foreach name) collection).2
  | openPatternLoop (d : Draft) (type : TypeExpr) (parts : Pattern) (collection : ExprId) :
      Exchange d [.expr collection] [.site (d.openForeach type (.pattern parts) collection).1]
        (d.openForeach type (.pattern parts) collection).2
  | closeBody (d : Draft) : Exchange d [] [] d.closeBody
  | abandonBody (d : Draft) : Exchange d [] [] d.abandonBody
  | declare (d : Draft) (holder : Holder) (type : TypeExpr) (vars : List (String × Option ExprId)) :
      Exchange d (vars.filterMap fun v => v.2.map .expr) [.site (d.declare holder type vars).1]
        (d.declare holder type vars).2
  | deconstruct (d : Draft) (type : TypeExpr) (parts : Pattern) (value : ExprId) :
      Exchange d [.expr value] [.site (d.deconstruct type parts value).1]
        (d.deconstruct type parts value).2
  | addExpr (d : Draft) (e : Expr) :
      Exchange d e.parts [.expr (d.addExpr e).1] (d.addExpr e).2
  | addOutArg (d : Draft) (type : TypeExpr) (name : String) :
      Exchange d [] (d.addOutArg type name).1.ref?.toList (d.addOutArg type name).2

/-- The calls are those of any run. -/
theorem call_iff_exchange {d d' : Draft} :
    Call d d' ↔ ∃ passed returned, Exchange d passed returned d' := by
  constructor
  · intro h
    cases h with
    | usingNamespace name => exact ⟨_, _, .usingNamespace d name⟩
    | statement e => exact ⟨_, _, .statement d e⟩
    | openClass name typeParams => exact ⟨_, _, .openClass d name typeParams⟩
    | openMethod returns name => exact ⟨_, _, .openMethod d returns name⟩
    | openBranch condition => exact ⟨_, _, .openBranch d condition⟩
    | openLoop type name collection => exact ⟨_, _, .openLoop d type name collection⟩
    | openPatternLoop type parts collection => exact ⟨_, _, .openPatternLoop d type parts collection⟩
    | closeBody => exact ⟨_, _, .closeBody d⟩
    | abandonBody => exact ⟨_, _, .abandonBody d⟩
    | declare holder type vars => exact ⟨_, _, .declare d holder type vars⟩
    | deconstruct type parts value => exact ⟨_, _, .deconstruct d type parts value⟩
    | addExpr e => exact ⟨_, _, .addExpr d e⟩
    | addOutArg type name => exact ⟨_, _, .addOutArg d type name⟩
  · rintro ⟨passed, returned, h⟩
    cases h with
    | usingNamespace name => exact .usingNamespace d name
    | statement e => exact .statement d e
    | openClass name typeParams => exact .openClass d name typeParams
    | openMethod returns name => exact .openMethod d returns name
    | openBranch condition => exact .openBranch d condition
    | openLoop type name collection => exact .openLoop d type name collection
    | openPatternLoop type parts collection => exact .openPatternLoop d type parts collection
    | closeBody => exact .closeBody d
    | abandonBody => exact .abandonBody d
    | declare holder type vars => exact .declare d holder type vars
    | deconstruct type parts value => exact .deconstruct d type parts value
    | addExpr e => exact .addExpr d e
    | addOutArg type name => exact .addOutArg d type name

/-- The drafts of a provider that passes to each call only nodes that earlier calls returned,
    each as often as it likes, with the nodes that were returned so far. The site of a loop is
    returned before its body, which is as early as can be. -/
inductive Provided : List Ref → Draft → Prop where
  | empty : Provided [] .empty
  | call {known passed returned : List Ref} {d d' : Draft} : Provided known d →
      Exchange d passed returned d' → passed ⊆ known → Provided (known ++ returned) d'

/-! ## The order of nodes -/

theorem freshDeclarators_init (vars : List (String × Option ExprId)) (s : NodeSupply) :
    (freshDeclarators vars s).1.map Declarator.init = vars.map Prod.snd := by
  induction vars generalizing s with
  | nil => rfl
  | cons v vars ih => simp [freshDeclarators, ih]

/-- A site adds what its shape mentions. -/
theorem adds_addSite (d : Draft) (type : TypeExpr) {shape : Shape} {ps : List Ref}
    (h : ∀ id slot, Site.parts ⟨id, slot, shape⟩ = ps) :
    d.tables.Adds (.site (d.addSite type shape).1) ps (d.addSite type shape).2.tables := by
  let slot := (type.attach d.supply).1.spacedAfter
  have hadds := d.tables.adds_site ⟨(d.addSite type shape).1, slot, shape⟩
  rwa [h] at hadds

theorem adds_declare (d : Draft) (holder : Holder) (type : TypeExpr)
    (vars : List (String × Option ExprId)) :
    d.tables.Adds (.site (d.declare holder type vars).1) (vars.filterMap fun v => v.2.map .expr)
      (d.declare holder type vars).2.tables := by
  let shape : Shape := .«variables» holder (freshDeclarators vars d.supply).1
  have hparts : ∀ id slot, Site.parts ⟨id, slot, shape⟩ = vars.filterMap fun v => v.2.map .expr := by
    intro id slot
    have hinit : ((freshDeclarators vars d.supply).1.map Declarator.init).filterMap (Option.map Ref.expr) =
        (vars.map Prod.snd).filterMap (Option.map Ref.expr) := by rw [freshDeclarators_init]
    rw [List.filterMap_map, List.filterMap_map] at hinit
    exact hinit
  let d₁ : Draft := { d with supply := (freshDeclarators vars d.supply).2 }
  have hdeclare : (d.declare holder type vars).2 =
      (d₁.addSite type shape).2.push (.declaration (d₁.addSite type shape).1) := rfl
  rw [hdeclare, (tables_push _ _).1]
  exact d₁.adds_addSite type hparts

theorem adds_deconstruct (d : Draft) (type : TypeExpr) (parts : Pattern) (value : ExprId) :
    d.tables.Adds (.site (d.deconstruct type parts value).1) []
      (d.deconstruct type parts value).2.tables := by
  have hdeconstruct : (d.deconstruct type parts value).2 =
      (d.addSite type (.pattern parts)).2.push
        (.deconstruction (d.addSite type (.pattern parts)).1 value) := rfl
  rw [hdeconstruct, (tables_push _ _).1]
  exact d.adds_addSite type fun _ _ => rfl

/-- A call adds one node, whose parts are among what the call is passed and which is all that
    the call returns, or it adds none and returns none. -/
theorem Exchange.adds {d d' : Draft} {passed returned : List Ref}
    (h : Exchange d passed returned d') :
    (d'.tables = d.tables ∧ returned = []) ∨
      ∃ x ps, d.tables.Adds x ps d'.tables ∧ ps ⊆ passed ∧ returned = [x] := by
  cases h with
  | usingNamespace name => exact .inl ⟨(tables_push _ _).1, rfl⟩
  | statement e => exact .inl ⟨(tables_push _ _).1, rfl⟩
  | openClass name typeParams => exact .inl ⟨rfl, rfl⟩
  | openMethod returns name => exact .inl ⟨rfl, rfl⟩
  | openBranch condition => exact .inl ⟨rfl, rfl⟩
  | openLoop type name collection =>
    exact .inr ⟨_, [], d.adds_addSite type fun _ _ => rfl, List.nil_subset _, rfl⟩
  | openPatternLoop type parts collection =>
    exact .inr ⟨_, [], d.adds_addSite type fun _ _ => rfl, List.nil_subset _, rfl⟩
  | closeBody => exact .inl ⟨(tables_closeBody d).1, rfl⟩
  | abandonBody => exact .inl ⟨(tables_abandonBody d).1, rfl⟩
  | declare holder type vars =>
    exact .inr ⟨_, _, d.adds_declare holder type vars, List.Subset.refl _, rfl⟩
  | deconstruct type parts value =>
    exact .inr ⟨_, [], d.adds_deconstruct type parts value, List.nil_subset _, rfl⟩
  | addExpr e => exact .inr ⟨_, e.parts, d.tables.adds_expr e, List.Subset.refl _, rfl⟩
  | addOutArg type name =>
    exact .inr ⟨_, [], d.adds_addSite type fun _ _ => rfl, List.nil_subset _, rfl⟩

/-- What a provider got to know is there, and whatever is there is mentioned in no circle. -/
theorem Provided.orderly {known : List Ref} {d : Draft} (h : Provided known d) :
    (∀ r ∈ known, d.tables.Has r) ∧ d.tables.Orderly := by
  induction h with
  | empty => exact ⟨by simp, Tables.orderly_empty⟩
  | @call known passed returned d d' _ hcall hpassed ih =>
    obtain ⟨hhas, horderly⟩ := ih
    rcases hcall.adds with ⟨htables, rfl⟩ | ⟨x, ps, hadds, hps, rfl⟩
    · rw [List.append_nil, htables]
      exact ⟨hhas, horderly⟩
    · have hparts : ∀ q ∈ ps, d.tables.Has q := fun q hq => hhas q (hpassed (hps hq))
      refine ⟨fun r hr => ?_, horderly.adds hadds hparts⟩
      rcases List.mem_append.mp hr with hr | hr
      · exact hadds.has (hhas r hr)
      · rw [List.mem_singleton.mp hr]
        exact hadds.has_self

/-- The draft of `var x = f(out var z);` and, on the next line, of `f(f(out var z), var x = …);`
    with the same nodes: the call and the site of `x`, which is an out argument here. -/
def sharedNodes : Draft :=
  let d := (empty.addExpr (.ident "f")).2
  let d := (d.addOutArg (.implicit {}) "z").2
  let d := (d.addExpr (.call ⟨0⟩ [.outSite ⟨1⟩])).2
  let d := (d.declare (.statement false false) (.implicit {}) [("x", some ⟨1⟩)]).2
  let d := (d.addExpr (.call ⟨0⟩ [.value ⟨1⟩, .outSite ⟨4⟩])).2
  d.push (.expr ⟨2⟩)

/-- The nodes of `sharedNodes` are mentioned as they were returned. -/
theorem provided_sharedNodes : ∃ known, Provided known sharedNodes := by
  have hf := Provided.empty.call (.addExpr _ (.ident "f")) (by decide)
  have hz := hf.call (.addOutArg _ (.implicit {}) "z") (by decide)
  have hcall := hz.call (.addExpr _ (.call ⟨0⟩ [.outSite ⟨1⟩])) (by decide)
  have hx := hcall.call
    (.declare _ (.statement false false) (.implicit {}) [("x", some ⟨1⟩)]) (by decide)
  have hagain := hx.call (.addExpr _ (.call ⟨0⟩ [.value ⟨1⟩, .outSite ⟨4⟩])) (by decide)
  exact ⟨_, hagain.call (.statement _ ⟨2⟩) (by decide)⟩

/-- Such a provider makes a run of the builder, like any other. -/
theorem Provided.built {known : List Ref} {d : Draft} (h : Provided known d) : d.Built := by
  induction h with
  | empty => exact .empty
  | call _ hcall _ ih => exact ih.call (call_iff_exchange.mpr ⟨_, _, hcall⟩)

end Draft

/-! ## Retyping -/

theorem Site.parts_retyped (id : NodeId) (slot : TypeExpr) (s : Site) :
    (s.retyped id slot).parts = s.parts := by
  simp [parts]

/-- What a node mentions does not depend on the types in slots. -/
theorem Tables.parts_setSlot (t : Tables) (id : NodeId) (slot : TypeExpr) (r : Ref) :
    (t.setSlot id slot).parts r = t.parts r := by
  cases r with
  | site id' => cases h : t.site? id' <;> simp [parts, site?_setSlot, h, Site.parts_retyped]
  | expr e => rfl

end TypeStyle
