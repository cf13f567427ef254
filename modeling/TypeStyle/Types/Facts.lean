-- SUMMARY: A resolver over a table of known types.
import TypeStyle.Types.Resolver

/-! # Tables of facts

A `Facts` table knows the types of some variables, methods, expressions and sites.
Literals, casts and constructions speak for themselves. A table answers as a
resolver through `Facts.resolver`; of two entries for one key the later counts. -/

namespace TypeStyle

structure Facts where
  exprTypes : List (ExprId × ExprType) := []
  siteTypes : List (NodeId × Ty) := []
  «variables» : List (String × Ty) := []
  methods : List (String × Ty) := []
  /-- The namespaces of simple type names. -/
  namespaces : List (String × String) := []
  /-- The names and arities of the type symbols, which are visible everywhere. -/
  typeSymbols : List (String × Nat) := []
  deriving Repr

namespace Facts

/-- The entry for `key` that was added last. -/
def last? {κ α : Type} [DecidableEq κ] (key : κ) (entries : List (κ × α)) : Option α :=
  (entries.reverse.find? fun entry => entry.1 = key).map Prod.snd

/-! ## Written types -/

/-- A type named like the placeholder, if one is visible: the placeholder then
    denotes that type. -/
def placeholderType? (f : Facts) : Option Ty :=
  if f.typeSymbols.contains (TypeExpr.placeholder, 0) then
    some (.named none TypeExpr.placeholder [])
  else
    none

/-- The type that a keyword names. -/
def keywordType? (name : String) : Option Ty :=
  if name = "dynamic" then some .dynamic else (Predefined.ofKeyword? name).map .predefined

mutual

/-- The type that a written type denotes. A name without qualifier is looked up
    in the table of namespaces. -/
def writtenType? (f : Facts) : TypeExpr → Option Ty
  | .implicit _ => f.placeholderType?
  | .keyword _ name => keywordType? name
  | .named _ qualifier name args => do
    let args ← f.writtenTypes? args
    return .named (qualifier.or (last? name f.namespaces)) name args
  | .array _ element => (f.writtenType? element).map .array
  | .nullable _ inner => (f.writtenType? inner).map .nullable
  | .tuple _ elements => (f.writtenTypes? elements).map .tuple

def writtenTypes? (f : Facts) : List TypeExpr → Option (List Ty)
  | [] => some []
  | t :: ts => do
    let ty ← f.writtenType? t
    let tys ← f.writtenTypes? ts
    return ty :: tys

end

/-! ## Expressions -/

def endsWith (s : List Char) (ending : String) : Bool :=
  ending.toList.isSuffixOf s

/-- The type of a numeric literal, from its suffix and shape. -/
def numberType (literal : String) : Predefined :=
  let lower := literal.toList.map Char.toLower
  let isHex := ['0', 'x'].isPrefixOf lower
  let digits := if isHex then lower.drop 2 else lower
  if endsWith digits "ul" || endsWith digits "lu" then .ulong
  else if endsWith digits "u" then .uint
  else if endsWith digits "l" then .long
  else if isHex then .int
  else if endsWith digits "f" then .float
  else if endsWith digits "d" then .double
  else if endsWith digits "m" then .decimal
  else if digits.contains '.' || digits.contains 'e' then .double
  else .int

/-- The name under which an expression is looked up. -/
def lookupName? : Expr → Option String
  | .ident name | .member _ name => some name
  | _ => none

/-- The type of an expression, following the left operands of binary expressions
    at most `depth` times. -/
def typeWithin (f : Facts) (t : SyntaxTree) : Nat → ExprId → Option Ty
  | 0, _ => none
  | depth + 1, id =>
    match last? id f.exprTypes with
    | some known => known.own
    | none =>
      match t.expr? id with
      | none | some .null | some (.lambda _ _) => none
      | some (.str _ _ _) => some (.predefined .string)
      | some (.number literal) => some (.predefined (numberType literal))
      | some (.char _) => some (.predefined .char)
      | some (.bool _) => some (.predefined .bool)
      | some (.ident name) | some (.member _ name) => last? name f.«variables»
      | some (.call callee _) => do
        let name ← lookupName? (← t.expr? callee)
        last? name f.methods
      | some (.cast type _) | some (.asType _ type) | some (.new type _) => f.writtenType? type
      | some (.defaultOf type) => type.bind f.writtenType?
      | some (.binary _ left _) => typeWithin f t depth left
      | some (.unparsed _) => some .error

/-- The type of an expression by itself. A chain of left operands has no more
    members than the tree has expressions, unless it goes in a circle. -/
def typeOf? (f : Facts) (t : SyntaxTree) (id : ExprId) : Option Ty :=
  f.typeWithin t (t.tables.exprs.size + 1) id

/-- The type of an expression and its conversion: an initializer converts to the
    type written in the first site, in the order of the source, that it initializes. -/
def exprType? (f : Facts) (t : SyntaxTree) (id : ExprId) : Option ExprType :=
  match last? id f.exprTypes with
  | some known => some known
  | none =>
    let own := f.typeOf? t id
    match t.sites.find? fun s => s.initializer? = some id with
    | some s => some ⟨own, if s.slot.isImplicit then own else f.writtenType? s.slot⟩
    | none => some ⟨own, own⟩

/-! ## Sites -/

/-- The expression that a loop or pattern site takes its values from. -/
inductive Supplier where
  | elementsOf (collection : ExprId)
  | value (e : ExprId)
  deriving DecidableEq, Repr

mutual

/-- What supplies site `id`, if the statement is or contains its loop or
    deconstruction. -/
def supplier? (id : NodeId) : Stmt → Option Supplier
  | .foreach site collection body =>
    if site = id then some (.elementsOf collection) else supplierIn? id body
  | .deconstruction site value => if site = id then some (.value value) else none
  | .classDef _ _ body | .method _ _ body | .branch _ body => supplierIn? id body
  | .usingNamespace _ | .declaration _ | .expr _ => none

def supplierIn? (id : NodeId) : List Stmt → Option Supplier
  | [] => none
  | stmt :: stmts =>
    match supplier? id stmt with
    | some found => some found
    | none => supplierIn? id stmts

end

/-- The type that the values of a site have, when its slot does not say. -/
def inferredType? (f : Facts) (t : SyntaxTree) (s : Site) : Option Ty :=
  match s.shape with
  | .«variables» _ _ => s.initializer?.bind (f.typeOf? t)
  | .outArg _ => none
  | .foreach _ | .pattern _ =>
    match supplierIn? s.id t.items with
    | some (.elementsOf collection) => (f.typeOf? t collection).bind Ty.element?
    | some (.value e) => f.typeOf? t e
    | none => none

def declaredType? (f : Facts) (t : SyntaxTree) (s : Site) : Option Ty :=
  match last? s.id f.siteTypes with
  | some known => some known
  | none => if s.slot.isImplicit then f.inferredType? t s else f.writtenType? s.slot

def symbolsNamed (f : Facts) (name : String) : List Symbol :=
  (f.typeSymbols.filter fun symbol => symbol.1 = name).map fun symbol =>
    ⟨symbol.1, .type, symbol.2⟩

def resolver (f : Facts) : Resolver where
  exprType := f.exprType?
  declaredType := f.declaredType?
  symbols _ _ name := f.symbolsNamed name

theorem spellsUsually_resolver (f : Facts) : f.resolver.SpellsUsually := rfl

end Facts

end TypeStyle
