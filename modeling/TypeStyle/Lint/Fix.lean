-- SUMMARY: Applying a finding to a tree.
import TypeStyle.Lint.Finding
import TypeStyle.Lint.Obstacle
import TypeStyle.Text.Edit
import TypeStyle.Types.Resolver

/-! # Fixes

A fix replaces the type in the slot of one site, as a finding asks. The
finding may be older than the tree: one that no longer fits is refused, and the
tree is then as it was. -/

namespace TypeStyle

/-- How a finding fails to fit a tree. -/
inductive Mismatch where
  | noSite
  | slotReplaced
  | alreadyImplicit
  | alreadyExplicit
  | obstacle (o : Obstacle)
  deriving DecidableEq, Repr

def Mismatch.message : Mismatch → String
  | noSite => "no such site"
  | slotReplaced => "type slot was replaced"
  | alreadyImplicit => "type is already implicit"
  | alreadyExplicit => "type is already explicit"
  | obstacle o => s!"site cannot change type form: {o.message}"

inductive FixError where
  | invalidSite (site : NodeId) (reason : Mismatch)
  /-- The resolver knows no type for the site. -/
  | unresolvedType (site : NodeId)
  /-- The type of the site has a part without a name, shown as `ty`. -/
  | nameless (site : NodeId) (ty : String)
  /-- A diagnostic is at no site of the tree. -/
  | noLocation
  deriving DecidableEq, Repr

def FixError.message : FixError → String
  | invalidSite site reason => s!"invalid site {site.text}: {reason.message}"
  | unresolvedType site => s!"no type resolved for site {site.text}"
  | nameless site ty => s!"cannot write the type of site {site.text}: `{ty}` has no name"
  | noLocation => "diagnostic does not locate a site"

structure Fix where
  tree : SyntaxTree
  site : NodeId
  rule : Rule
  /-- The slot before and after. -/
  old : TypeExpr
  new : TypeExpr
  /-- The smallest edit from the old source to the new. -/
  edit : Edit

namespace Fix

/-- The namespaces that the new type needs and the site does not import. -/
def imports (r : Fix) : List String := r.new.info.imports

def quickFix (r : Fix) : QuickFix := r.rule.quickFix r.edit

end Fix

namespace Resolver

/-- The type that a rule wants in the slot of a site. -/
def wantedType (r : Resolver) (t : SyntaxTree) (s : Site) : Rule → Except FixError TypeExpr
  | .useImplicit =>
    if s.slot.isImplicit then .error (.invalidSite s.id .alreadyImplicit) else .ok (.implicit {})
  | .useExplicit =>
    if !s.slot.isImplicit then
      .error (.invalidSite s.id .alreadyExplicit)
    else
      match r.declaredType t s with
      | none => .error (.unresolvedType s.id)
      | some ty =>
        match r.spell t s ty with
        | .error nameless => .error (.nameless s.id nameless.ty.text)
        | .ok type => .ok type

/-- Applies a finding. -/
def fix (r : Resolver) (t : SyntaxTree) (f : Finding) : Except FixError Fix :=
  match t.site? f.site with
  | none => .error (.invalidSite f.site .noSite)
  | some s =>
    if s.slot.id ≠ f.slot then
      .error (.invalidSite s.id .slotReplaced)
    else
      match t.obstacle? s with
      | some o => .error (.invalidSite s.id (.obstacle o))
      | none =>
        match r.wantedType t s f.rule with
        | .error e => .error e
        | .ok type =>
          match t.retype s.id type with
          | none => .error (.invalidSite s.id .noSite)
          | some retyped => .ok {
              tree := retyped.tree
              site := s.id
              rule := f.rule
              old := retyped.old
              new := retyped.new
              edit := Edit.between t.source retyped.tree.source }

/-- What fixes with a resolver, spelled out. -/
def describeFixer (_ : Resolver) : String := "Rewriter \x7b .. \x7d"

/-- The finding that a diagnostic reports, if it is at a site of the tree. -/
def findingAt (t : SyntaxTree) (d : Diagnostic) : Option Finding := do
  let s ← (t.siteAt d.site).toOption.join
  return ⟨s.id, s.slot.id, (t.spanOf s.id).getD d.site, (t.spanOf s.slot.id).getD d.slot, d.rule⟩

/-- Applies the fix for a diagnostic. -/
def fixReported (r : Resolver) (t : SyntaxTree) (d : Diagnostic) :
    Except FixError Fix :=
  match findingAt t d with
  | none => .error .noLocation
  | some f => r.fix t f

end Resolver

end TypeStyle
