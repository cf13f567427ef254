-- SUMMARY: Applying many findings, one after the other.
import TypeStyle.Lint.Linter
import TypeStyle.Lint.Fix

/-! # Repairs

Applying a list of findings judges each site again on the tree so far, and applies
the judgement if it still asks for the same. A finding that is not applied is
skipped for a stated reason. -/

namespace TypeStyle

inductive SkipReason where
  /-- The site no longer exists. -/
  | noSite
  /-- The site is no longer judged as the finding says. -/
  | outdated
  | failed (error : FixError)
  deriving DecidableEq, Repr

structure Repair where
  tree : SyntaxTree
  /-- The sites that were fixed, in order. -/
  applied : List NodeId := []
  skipped : List (NodeId × SkipReason) := []
  /-- The namespaces that the applied fixes need imported. -/
  imports : List String := []

namespace Repair

def skip (r : Repair) (site : NodeId) (reason : SkipReason) : Repair :=
  { r with skipped := r.skipped ++ [(site, reason)] }

def record (r : Repair) (fix : Fix) : Repair where
  tree := fix.tree
  applied := r.applied ++ [fix.site]
  skipped := r.skipped
  imports := fix.imports.foldr NameSet.insert r.imports

/-- Applies or skips one finding. -/
def step (l : Linter) (r : Repair) (f : Finding) : Repair :=
  match r.tree.site? f.site with
  | none => r.skip f.site .noSite
  | some s =>
    match l.judge r.tree s with
    | none => r.skip f.site .outdated
    | some current =>
      if current.rule ≠ f.rule then
        r.skip f.site .outdated
      else
        match l.resolver.fix r.tree current with
        | .ok fix => r.record fix
        | .error e => r.skip f.site (.failed e)

end Repair

/-- Applies findings to a tree, in order. -/
def Linter.repair (l : Linter) (t : SyntaxTree) (findings : List Finding) : Repair :=
  findings.foldl (Repair.step l) { tree := t }

end TypeStyle
