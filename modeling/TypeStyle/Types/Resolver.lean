-- SUMMARY: The questions about types that a lint asks of its host.
import TypeStyle.Text.NameSet
import TypeStyle.Tree.Basic
import TypeStyle.Types.Spelling

/-! # Resolvers

The types of a program are known to a host, which answers questions about one
tree at a time. Identities survive a retyping, so the same resolver answers for
every tree that comes from the first one. -/

namespace TypeStyle

/-- The type of an expression: its own, and the one it has after the conversion
    that its place asks for. An expression without a type has neither. -/
structure ExprType where
  own : Option Ty
  converted : Option Ty
  deriving DecidableEq, Repr

namespace ExprType

def unknown : ExprType := ⟨none, none⟩

/-- An expression used at its own type. -/
def exact (ty : Ty) : ExprType := ⟨some ty, some ty⟩

def isConverted (e : ExprType) : Bool := e.own ≠ e.converted

end ExprType

inductive SymbolKind where
  | type
  | localVariable
  | method
  | namespaceName
  deriving DecidableEq, Repr

structure Symbol where
  name : String
  kind : SymbolKind
  /-- The number of type parameters. -/
  arity : Nat
  deriving DecidableEq, Repr

/-- Whether `ns` is imported by the tree itself. -/
def SyntaxTree.importsNamespace (t : SyntaxTree) (ns : String) : Bool :=
  t.imports.contains ns

/-- Spells a type for a site and notes the namespaces that are not imported there. -/
def spellFor (isImported : SyntaxTree → Site → String → Bool) (t : SyntaxTree) (s : Site)
    (ty : Ty) : Except Nameless TypeExpr := do
  let type ← ty.spell.result
  let needed := ty.spell.namespaces.filter fun ns => !isImported t s ns
  return type.withInfo { type.info with imports := NameSet.ofList needed }

structure Resolver where
  exprType : SyntaxTree → ExprId → Option ExprType
  /-- The type that a site's slot denotes, whether it is written or inferred. -/
  declaredType : SyntaxTree → Site → Option Ty
  /-- The symbols with a given name that are visible at a site. -/
  symbols : SyntaxTree → Site → String → List Symbol
  isImported : SyntaxTree → Site → String → Bool := fun t _ ns => t.importsNamespace ns
  spell : SyntaxTree → Site → Ty → Except Nameless TypeExpr := spellFor isImported

/-- The resolver spells types in the usual way. -/
def Resolver.SpellsUsually (r : Resolver) : Prop := r.spell = spellFor r.isImported

/-- Additions to what a resolver answers. -/
structure Overlay where
  /-- Further symbols, visible everywhere. -/
  symbols : List Symbol := []
  /-- Namespaces that count as imported everywhere. -/
  imported : List String := []
  /-- Expressions about which nothing is answered. -/
  untyped : List ExprId := []
  deriving Repr

def Overlay.apply (o : Overlay) (r : Resolver) : Resolver where
  exprType t e := if o.untyped.contains e then none else r.exprType t e
  declaredType := r.declaredType
  symbols t s name := r.symbols t s name ++ o.symbols.filter fun symbol => symbol.name = name
  isImported t s ns := o.imported.contains ns || r.isImported t s ns

end TypeStyle
