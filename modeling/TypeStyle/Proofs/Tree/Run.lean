-- SUMMARY: Runs of the builder and of retypings, and the trees they reach.
import TypeStyle.Tree.Draft

/-! # Runs

A tree comes from a run: calls that put a draft together, the finished draft, and
then any number of retypings. Calls may be nested in any way, refer to nodes that
do not exist, and leave bodies open. -/

namespace TypeStyle

namespace Draft

/-- The open bodies around a body that is left without being closed: `body` goes to
    the innermost of them, and so on outwards. Also what is left for no header. -/
def shiftBodies (body : List Stmt) : List Frame → List Frame × List Stmt
  | [] => ([], body)
  | f :: fs =>
    let (frames, rest) := shiftBodies f.body fs
    (⟨f.header, body⟩ :: frames, rest)

/-- Leaves the innermost body without closing it. Its header is dropped, and its
    statements stay where they are, for the next body outwards to close. -/
def abandonBody (d : Draft) : Draft :=
  match d.frames with
  | [] => d
  | f :: fs =>
    let (frames, rest) := shiftBodies f.body fs
    { d with items := d.items ++ rest, frames }

/-- One call of the builder. -/
inductive Call : Draft → Draft → Prop where
  | usingNamespace (d : Draft) (name : String) : Call d (d.push (.usingNamespace name))
  | statement (d : Draft) (e : ExprId) : Call d (d.push (.expr e))
  | openClass (d : Draft) (name : String) (typeParams : List String) :
      Call d (d.openBody (.classDef name typeParams))
  | openMethod (d : Draft) (returns name : String) : Call d (d.openBody (.method returns name))
  | openBranch (d : Draft) (condition : ExprId) : Call d (d.openBody (.branch condition))
  | openLoop (d : Draft) (type : TypeExpr) (name : String) (collection : ExprId) :
      Call d (d.openForeach type (.foreach name) collection).2
  | openPatternLoop (d : Draft) (type : TypeExpr) (parts : Pattern) (collection : ExprId) :
      Call d (d.openForeach type (.pattern parts) collection).2
  | closeBody (d : Draft) : Call d d.closeBody
  | abandonBody (d : Draft) : Call d d.abandonBody
  | declare (d : Draft) (holder : Holder) (type : TypeExpr)
      (vars : List (String × Option ExprId)) : Call d (d.declare holder type vars).2
  | deconstruct (d : Draft) (type : TypeExpr) (parts : Pattern) (value : ExprId) :
      Call d (d.deconstruct type parts value).2
  | addExpr (d : Draft) (e : Expr) : Call d (d.addExpr e).2
  | addOutArg (d : Draft) (type : TypeExpr) (name : String) : Call d (d.addOutArg type name).2

/-- The drafts that calls of the builder make out of the empty draft. -/
inductive Built : Draft → Prop where
  | empty : Built .empty
  | call {d d' : Draft} : Built d → Call d d' → Built d'

end Draft

namespace SyntaxTree

/-- The trees that are finished drafts, and those that come from them by retyping. -/
inductive Reachable : SyntaxTree → Prop where
  | finish {d : Draft} : d.Built → Reachable d.finish
  | retype {t : SyntaxTree} {id : NodeId} {type : TypeExpr} {r : Retyped} :
      Reachable t → t.retype id type = some r → Reachable r.tree

end SyntaxTree

/-! ## Sample runs

Small drafts on which results in several modules are seen at work. One that serves a single
result stands beside it. -/

namespace Draft

/-- The draft of `int x = 1;` and, on the next line, `var y = f();`. -/
def literalAndCall : Draft :=
  let d := (empty.addExpr (.number "1")).2
  let d := (d.declare (.statement false false) (.keyword {} "int") [("x", some ⟨0⟩)]).2
  let d := (d.addExpr (.ident "f")).2
  let d := (d.addExpr (.call ⟨1⟩ [])).2
  (d.declare (.statement false false) (.implicit {}) [("y", some ⟨2⟩)]).2

theorem built_literalAndCall : literalAndCall.Built := by
  have hnumber := Built.empty.call (.addExpr _ (.number "1"))
  have hx := hnumber.call (.declare _ (.statement false false) (.keyword {} "int") [("x", some ⟨0⟩)])
  have hcall := (hx.call (.addExpr _ (.ident "f"))).call (.addExpr _ (.call ⟨1⟩ []))
  exact hcall.call (.declare _ (.statement false false) (.implicit {}) [("y", some ⟨2⟩)])

/-- The draft of `var<int> x = new var<int>();`, where `var` is the name of a type. -/
def genericPlaceholder : Draft :=
  let type : TypeExpr := .generic TypeExpr.placeholder [.keyword {} "int"]
  let d := (empty.addExpr (.new type [])).2
  (d.declare (.statement false false) type [("x", some ⟨0⟩)]).2

theorem built_genericPlaceholder : genericPlaceholder.Built := by
  let type : TypeExpr := .generic TypeExpr.placeholder [.keyword {} "int"]
  have hnew := Built.empty.call (.addExpr _ (.new type []))
  exact hnew.call (.declare _ (.statement false false) type [("x", some ⟨0⟩)])

/-- The draft of `var x = f(out var z);` and, on the next line, `int y = 1;`. The site of `z`
    is inside that of `x`, and was made before it. -/
def nestedOutArg : Draft :=
  let d := (empty.addOutArg (.implicit {}) "z").2
  let d := (d.addExpr (.ident "f")).2
  let d := (d.addExpr (.call ⟨0⟩ [.outSite ⟨1⟩])).2
  let d := (d.declare (.statement false false) (.implicit {}) [("x", some ⟨1⟩)]).2
  let d := (d.addExpr (.number "1")).2
  (d.declare (.statement false false) (.keyword {} "int") [("y", some ⟨2⟩)]).2

theorem built_nestedOutArg : nestedOutArg.Built := by
  have hz := Built.empty.call (.addOutArg _ (.implicit {}) "z")
  have hcallee := hz.call (.addExpr _ (.ident "f"))
  have hcall := hcallee.call (.addExpr _ (.call ⟨0⟩ [.outSite ⟨1⟩]))
  have hx := hcall.call (.declare _ (.statement false false) (.implicit {}) [("x", some ⟨1⟩)])
  have hnumber := hx.call (.addExpr _ (.number "1"))
  exact hnumber.call (.declare _ (.statement false false) (.keyword {} "int") [("y", some ⟨2⟩)])

/-- The draft of a deconstruction of `p`, with a comment after the type: `((int, string), bool)`
    over the group `((a, b), c)`. -/
def nestedPattern : Draft :=
  let type : TypeExpr := .tuple { trailing := [.space, .blockComment "/*c*/"] }
    [.tuple {} [.keyword {} "int", .keyword {} "string"], .keyword {} "bool"]
  let d := (empty.addExpr (.ident "p")).2
  (d.deconstruct type (.group [.group [.single "a", .single "b"], .single "c"]) ⟨0⟩).2

theorem built_nestedPattern : nestedPattern.Built := by
  have hvalue := Built.empty.call (.addExpr _ (.ident "p"))
  exact hvalue.call (.deconstruct _
    (.tuple { trailing := [.space, .blockComment "/*c*/"] }
      [.tuple {} [.keyword {} "int", .keyword {} "string"], .keyword {} "bool"])
    (.group [.group [.single "a", .single "b"], .single "c"]) ⟨0⟩)

end Draft

end TypeStyle
