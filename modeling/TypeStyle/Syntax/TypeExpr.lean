-- SUMMARY: Types as they are written in a declaration, with identities and trivia.
import TypeStyle.Syntax.NodeId
import TypeStyle.Syntax.Trivia

/-! # Written types

A `TypeExpr` is what fills the type slot of a declaration: the placeholder `var`,
a keyword, a possibly qualified and generic name, an array, a nullable or a tuple.
Every node has an identity and trivia of its own; `TypeExpr.text` is the type
without any trivia. -/

namespace TypeStyle

/-- What a node of a written type carries besides its shape. -/
structure NodeInfo where
  id : NodeId := .detached
  leading : List Trivia := []
  trailing : List Trivia := []
  /-- Namespaces that have to be imported for the type to resolve, known for a
      type that was spelled from a resolved one. -/
  imports : List String := []
  deriving DecidableEq, Repr, Inhabited

inductive TypeExpr where
  /-- The placeholder: the type is to be inferred. -/
  | implicit (info : NodeInfo)
  | keyword (info : NodeInfo) (name : String)
  | named (info : NodeInfo) (qualifier : Option String) (name : String) (args : List TypeExpr)
  | array (info : NodeInfo) (element : TypeExpr)
  | nullable (info : NodeInfo) (inner : TypeExpr)
  | tuple (info : NodeInfo) (elements : List TypeExpr)
  deriving Repr, Inhabited

namespace TypeExpr

/-! ## Equality -/

mutual

def decEq : (a b : TypeExpr) → Decidable (a = b)
  | .implicit i, .implicit j =>
    if h : i = j then isTrue (by rw [h]) else isFalse (by simp [h])
  | .keyword i m, .keyword j n =>
    if h : i = j ∧ m = n then isTrue (by rw [h.1, h.2]) else isFalse (by simpa using h)
  | .named i p m as, .named j q n bs =>
    if h : i = j ∧ p = q ∧ m = n then
      match decEqList as bs with
      | isTrue has => isTrue (by rw [h.1, h.2.1, h.2.2, has])
      | isFalse has => isFalse (by simp [has])
    else
      isFalse (by intro e; cases e; exact h ⟨rfl, rfl, rfl⟩)
  | .array i a, .array j b =>
    match decEq a b with
    | isTrue hab => if h : i = j then isTrue (by rw [h, hab]) else isFalse (by simp [h])
    | isFalse hab => isFalse (by simp [hab])
  | .nullable i a, .nullable j b =>
    match decEq a b with
    | isTrue hab => if h : i = j then isTrue (by rw [h, hab]) else isFalse (by simp [h])
    | isFalse hab => isFalse (by simp [hab])
  | .tuple i as, .tuple j bs =>
    match decEqList as bs with
    | isTrue has => if h : i = j then isTrue (by rw [h, has]) else isFalse (by simp [h])
    | isFalse has => isFalse (by simp [has])
  | .implicit _, .keyword .. | .implicit _, .named .. | .implicit _, .array ..
  | .implicit _, .nullable .. | .implicit _, .tuple .. | .keyword .., .implicit _
  | .keyword .., .named .. | .keyword .., .array .. | .keyword .., .nullable ..
  | .keyword .., .tuple .. | .named .., .implicit _ | .named .., .keyword ..
  | .named .., .array .. | .named .., .nullable .. | .named .., .tuple ..
  | .array .., .implicit _ | .array .., .keyword .. | .array .., .named ..
  | .array .., .nullable .. | .array .., .tuple .. | .nullable .., .implicit _
  | .nullable .., .keyword .. | .nullable .., .named .. | .nullable .., .array ..
  | .nullable .., .tuple .. | .tuple .., .implicit _ | .tuple .., .keyword ..
  | .tuple .., .named .. | .tuple .., .array .. | .tuple .., .nullable .. =>
    isFalse (by simp)

def decEqList : (as bs : List TypeExpr) → Decidable (as = bs)
  | [], [] => isTrue rfl
  | [], _ :: _ | _ :: _, [] => isFalse (by simp)
  | a :: as, b :: bs =>
    match decEq a b with
    | isTrue hab =>
      match decEqList as bs with
      | isTrue has => isTrue (by rw [hab, has])
      | isFalse has => isFalse (by simp [has])
    | isFalse hab => isFalse (by simp [hab])

end

instance : DecidableEq TypeExpr := decEq

/-! ## Parts -/

def info : TypeExpr → NodeInfo
  | implicit info => info
  | keyword info _ => info
  | named info _ _ _ => info
  | array info _ => info
  | nullable info _ => info
  | tuple info _ => info

def withInfo (info : NodeInfo) : TypeExpr → TypeExpr
  | implicit _ => .implicit info
  | keyword _ name => .keyword info name
  | named _ qualifier name args => .named info qualifier name args
  | array _ element => .array info element
  | nullable _ inner => .nullable info inner
  | tuple _ elements => .tuple info elements

@[simp] theorem info_withInfo (info : NodeInfo) (t : TypeExpr) : (t.withInfo info).info = info := by
  cases t <;> rfl

def id (t : TypeExpr) : NodeId := t.info.id

/-- The types written directly inside `t`, from left to right. -/
def children : TypeExpr → List TypeExpr
  | implicit _ | keyword _ _ => []
  | named _ _ _ args => args
  | array _ element => [element]
  | nullable _ inner => [inner]
  | tuple _ elements => elements

def isImplicit : TypeExpr → Bool
  | implicit _ => true
  | _ => false

/-! ## Spelling -/

/-- How the placeholder is written. -/
def placeholder : String := "var"

/-- The keywords that name a predefined type. -/
def keywords : List String :=
  ["bool", "byte", "sbyte", "char", "decimal", "double", "float", "int", "uint", "nint", "nuint",
   "long", "ulong", "short", "ushort", "object", "string", "dynamic"]

/-- The name without qualifier and arguments, for the shapes that have one. -/
def simpleName : TypeExpr → Option String
  | implicit _ => some placeholder
  | keyword _ name => some name
  | named _ _ name _ => some name
  | array _ _ | nullable _ _ | tuple _ _ => none

mutual

def text : TypeExpr → String
  | implicit _ => placeholder
  | keyword _ name => name
  | named _ qualifier name args =>
    (qualifier.map (· ++ ".")).getD "" ++ name ++
      if args.isEmpty then "" else "<" ++ textList args ++ ">"
  | array _ element => text element ++ "[]"
  | nullable _ inner => text inner ++ "?"
  | tuple _ elements => "(" ++ textList elements ++ ")"

/-- The texts of several types, separated by a comma and a space. -/
def textList : List TypeExpr → String
  | [] => ""
  | [t] => text t
  | t :: u :: ts => text t ++ ", " ++ textList (u :: ts)

end

/-! ## Construction -/

/-- Splits a dotted name at its last dot. -/
def splitQualifier : List Char → Option (List Char × List Char)
  | [] => none
  | c :: cs =>
    match splitQualifier cs with
    | some (qualifier, name) => some (c :: qualifier, name)
    | none => if c = '.' then some ([], cs) else none

/-- A named type, never the placeholder, with `name` possibly dotted. -/
def generic (name : String) (args : List TypeExpr) : TypeExpr :=
  match splitQualifier name.toList with
  | some (qualifier, simple) => .named {} (some (.ofList qualifier)) (.ofList simple) args
  | none => .named {} none name args

/-- Reads a written name: the placeholder, a keyword or a named type. -/
def ofName (name : String) : TypeExpr :=
  if name = placeholder then .implicit {}
  else if name ∈ keywords then .keyword {} name
  else generic name []

/-- `t` with the trivia of `other` around it. -/
def withTriviaOf (t other : TypeExpr) : TypeExpr :=
  t.withInfo { t.info with leading := other.info.leading, trailing := other.info.trailing }

/-- `t` with one space after it, if it has no trailing trivia. -/
def spacedAfter (t : TypeExpr) : TypeExpr :=
  if t.info.trailing.isEmpty then t.withInfo { t.info with trailing := [.space] } else t

/-! ## Identities -/

mutual

/-- Gives the node and then every nested node, from left to right, an identity
    from the supply. -/
def attach : TypeExpr → NodeSupply → TypeExpr × NodeSupply
  | implicit info, s =>
    let (id, s) := s.fresh
    (.implicit { info with id }, s)
  | keyword info name, s =>
    let (id, s) := s.fresh
    (.keyword { info with id } name, s)
  | named info qualifier name args, s =>
    let (id, s) := s.fresh
    let (args, s) := attachList args s
    (.named { info with id } qualifier name args, s)
  | array info element, s =>
    let (id, s) := s.fresh
    let (element, s) := attach element s
    (.array { info with id } element, s)
  | nullable info inner, s =>
    let (id, s) := s.fresh
    let (inner, s) := attach inner s
    (.nullable { info with id } inner, s)
  | tuple info elements, s =>
    let (id, s) := s.fresh
    let (elements, s) := attachList elements s
    (.tuple { info with id } elements, s)

def attachList : List TypeExpr → NodeSupply → List TypeExpr × NodeSupply
  | [], s => ([], s)
  | t :: ts, s =>
    let (t, s) := attach t s
    let (ts, s) := attachList ts s
    (t :: ts, s)

end

mutual

/-- The identities of the node and of every nested node, in the order in which
    `attach` gives them out. -/
def ids : TypeExpr → List NodeId
  | implicit info => [info.id]
  | keyword info _ => [info.id]
  | named info _ _ args => info.id :: idsList args
  | array info element => info.id :: ids element
  | nullable info inner => info.id :: ids inner
  | tuple info elements => info.id :: idsList elements

def idsList : List TypeExpr → List NodeId
  | [] => []
  | t :: ts => ids t ++ idsList ts

end

@[simp] theorem isImplicit_withInfo (info : NodeInfo) (t : TypeExpr) :
    (t.withInfo info).isImplicit = t.isImplicit := by
  cases t <;> rfl

@[simp] theorem isImplicit_attach (t : TypeExpr) (s : NodeSupply) :
    (t.attach s).1.isImplicit = t.isImplicit := by
  cases t <;> rfl

@[simp] theorem text_withInfo (info : NodeInfo) (t : TypeExpr) :
    (t.withInfo info).text = t.text := by
  cases t <;> simp [withInfo, text]

mutual

@[simp] theorem text_attach (t : TypeExpr) (s : NodeSupply) : (t.attach s).1.text = t.text := by
  cases t with
  | implicit info => simp [attach, text]
  | keyword info name => simp [attach, text]
  | named info qualifier name args =>
    simp [attach, text, textList_attachList args, isEmpty_attachList args]
  | array info element => simp [attach, text, text_attach element]
  | nullable info inner => simp [attach, text, text_attach inner]
  | tuple info elements => simp [attach, text, textList_attachList elements]

theorem textList_attachList (ts : List TypeExpr) (s : NodeSupply) :
    textList (attachList ts s).1 = textList ts := by
  match ts with
  | [] => simp [attachList]
  | [t] => simp [attachList, textList, text_attach t]
  | t :: u :: ts =>
    have h := textList_attachList (u :: ts) (t.attach s).2
    simp only [attachList, textList, text_attach t]
    simp only [attachList] at h
    rw [h]

theorem isEmpty_attachList (ts : List TypeExpr) (s : NodeSupply) :
    (attachList ts s).1.isEmpty = ts.isEmpty := by
  cases ts <;> simp [attachList]

end

end TypeExpr

end TypeStyle
