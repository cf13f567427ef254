-- SUMMARY: The nodes written in a node, and the nodes that a tree writes.
import Mathlib.Data.List.Basic
import TypeStyle.Proofs.Tree.Page

/-! # Parts

The parts of a node are the nodes it mentions, in the order in which they are written. What
a tree writes is reached from its statements through parts. A tree that has a page has the
pages of all of that in it. -/

namespace TypeStyle

/-! ## The parts of a node -/

/-- The node that an argument mentions. -/
def Arg.ref? : Arg → Option Ref
  | .value e => some (.expr e)
  | .outExisting _ => none
  | .outSite site => some (.site site)

/-- The nodes written directly in an expression: its operands and arguments. -/
def Expr.parts : Expr → List Ref
  | .member receiver _ => [.expr receiver]
  | .call callee args => .expr callee :: args.filterMap Arg.ref?
  | .cast _ operand | .asType operand _ => [.expr operand]
  | .new _ args => args.filterMap Arg.ref?
  | .lambda _ body => [.expr body]
  | .binary _ left right => [.expr left, .expr right]
  | .str _ _ _ | .number _ | .char _ | .bool _ | .null | .ident _ | .defaultOf _ | .unparsed _ => []

/-- The nodes written directly in a site: the initializers of its declarators. -/
def Site.parts (s : Site) : List Ref :=
  match s.shape with
  | .«variables» _ declarators => declarators.filterMap fun d => d.init.map .expr
  | .foreach _ | .outArg _ | .pattern _ => []

mutual

/-- The nodes written directly in a statement and in the statements of its body. -/
def Stmt.parts : Stmt → List Ref
  | .usingNamespace _ => []
  | .classDef _ _ members => Stmt.partsOf members
  | .method _ _ body => Stmt.partsOf body
  | .declaration site => [.site site]
  | .foreach site collection body => .site site :: .expr collection :: Stmt.partsOf body
  | .deconstruction site value => [.site site, .expr value]
  | .branch condition body => .expr condition :: Stmt.partsOf body
  | .expr e => [.expr e]

def Stmt.partsOf : List Stmt → List Ref
  | [] => []
  | stmt :: stmts => Stmt.parts stmt ++ Stmt.partsOf stmts

end

namespace Tables

/-- The nodes written directly in the node that a reference names. -/
def parts (t : Tables) : Ref → List Ref
  | .site id => (t.site? id).elim [] Site.parts
  | .expr id => (t.expr? id).elim [] Expr.parts

/-- One reference is reached from another by following what is written in the nodes. -/
inductive Reaches (t : Tables) : Ref → Ref → Prop where
  | refl (r : Ref) : Reaches t r r
  | step {r q x : Ref} : q ∈ t.parts r → Reaches t q x → Reaches t r x

theorem reaches_iff {t : Tables} {r x : Ref} :
    t.Reaches r x ↔ r = x ∨ ∃ q ∈ t.parts r, t.Reaches q x := by
  constructor
  · intro h
    cases h with
    | refl => exact .inl rfl
    | step hq hx => exact .inr ⟨_, hq, hx⟩
  · rintro (rfl | ⟨q, hq, hx⟩)
    · exact .refl r
    · exact .step hq hx

end Tables

/-! ## The references of a document -/

theorem Doc.refs_commaSeparated {ρ : Type} (ds : List (Doc ρ)) :
    (commaSeparated ds).refs = ds.flatMap refs := by
  fun_induction commaSeparated ds with
  | case1 => rfl
  | case2 d => simp
  | case3 d e ds ih => simp [ih]

theorem TypeExpr.refs_slotDoc (t : TypeExpr) : t.slotDoc.refs = [] := rfl

theorem Pattern.refs_doc (slot : TypeExpr) (p : Pattern) : (p.doc slot).refs = [] := by
  cases p with
  | single name => rfl
  | discard => rfl
  | group parts =>
    cases slot with
    | tuple info elements =>
      simp only [Pattern.doc]
      split <;> rfl
    | _ => rfl

theorem Declarator.refs_doc (d : Declarator) : d.doc.refs = (d.init.map Ref.expr).toList := by
  obtain ⟨id, name, init⟩ := d
  cases init <;> rfl

theorem Site.refs_doc (s : Site) : s.doc.refs = s.parts := by
  obtain ⟨id, slot, shape⟩ := s
  cases shape with
  | «variables» holder declarators =>
    simp [Site.doc, Site.parts, TypeExpr.refs_slotDoc, Doc.refs_commaSeparated, List.flatMap_map,
      Declarator.refs_doc, List.filterMap_eq_flatMap_toList]
  | foreach name => rfl
  | outArg name => rfl
  | pattern parts => exact parts.refs_doc slot

theorem Arg.refs_listDoc (args : List Arg) : (Arg.listDoc args).refs = args.filterMap Arg.ref? := by
  have hargs : ∀ a : Arg, a.doc.refs = a.ref?.toList := by
    intro a
    cases a <;> rfl
  simp [Arg.listDoc, Doc.refs_commaSeparated, List.flatMap_map, hargs,
    List.filterMap_eq_flatMap_toList]

theorem Expr.refs_doc (e : Expr) : e.doc.refs = e.parts := by
  have hargs := Arg.refs_listDoc
  cases e with
  | lambda params body =>
    match params with
    | [] | [_] | _ :: _ :: _ => rfl
  | defaultOf type => cases type <;> rfl
  | call callee args => simp [Expr.doc, Expr.parts, hargs]
  | new type args => simp [Expr.doc, Expr.parts, hargs]
  | _ => rfl

theorem refs_braced (depth : Nat) (isEmpty : Bool) (lines : Doc Ref)
    (h : isEmpty = true → lines.refs = []) : (braced depth isEmpty lines).refs = lines.refs := by
  unfold braced
  split
  · next hempty => exact (h hempty).symm
  · simp

mutual

theorem Stmt.refs_doc (depth : Nat) (s : Stmt) : (s.doc depth).refs = s.parts := by
  cases s with
  | usingNamespace name => rfl
  | classDef name typeParams members =>
    simp [Stmt.doc, Stmt.parts, Stmt.refs_bodyDoc depth members]
  | method returns name body => simp [Stmt.doc, Stmt.parts, Stmt.refs_bodyDoc depth body]
  | declaration site => rfl
  | foreach site collection body =>
    simp [Stmt.doc, Stmt.parts, Stmt.refs_bodyDoc depth body]
  | deconstruction site value => rfl
  | branch condition body => simp [Stmt.doc, Stmt.parts, Stmt.refs_bodyDoc depth body]
  | expr e => rfl

theorem Stmt.refs_bodyDoc (depth : Nat) (body : List Stmt) :
    (braced depth body.isEmpty (Stmt.linesDoc (depth + 1) body)).refs = Stmt.partsOf body := by
  rw [refs_braced _ _ _ (by cases body <;> simp [Stmt.linesDoc])]
  exact Stmt.refs_linesDoc (depth + 1) body

theorem Stmt.refs_linesDoc (depth : Nat) (ss : List Stmt) :
    (Stmt.linesDoc depth ss).refs = Stmt.partsOf ss := by
  match ss with
  | [] => simp [Stmt.linesDoc, Stmt.partsOf]
  | s :: ss =>
    simp [Stmt.linesDoc, Stmt.partsOf, Stmt.refs_doc depth s, Stmt.refs_linesDoc depth ss]

end

namespace Tables

theorem refs_doc (t : Tables) (r : Ref) : (t.doc r).refs = t.parts r := by
  cases r with
  | site id =>
    cases hs : t.site? id with
    | none => simp [doc, parts, hs, missing]
    | some s => simp [doc, parts, hs, Site.refs_doc]
  | expr id =>
    cases he : t.expr? id with
    | none => simp [doc, parts, he, missing]
    | some e => simp [doc, parts, he, Expr.refs_doc]

/-- Whatever is reached from a node that has a page has a page too, and it is in that of the
    node. -/
theorem exists_page?_of_reaches {t : Tables} {q r : Ref} (h : t.Reaches q r) {n : Nat} {p : Page}
    (hp : t.page? n q = some p) : ∃ p', t.page? n r = some p' ∧ ∀ m ∈ p'.marks, m ∈ p.marks := by
  induction h generalizing n p with
  | refl r => exact ⟨p, hp, fun _ hm => hm⟩
  | @step q q' r hq' _ ih =>
    cases n with
    | zero => cases hp
    | succ n =>
      have hmem : q' ∈ (t.doc q).refs := by rwa [refs_doc]
      have hsome := Doc.expand_isSome_iff.mp (Option.isSome_of_eq_some hp) q' hmem
      obtain ⟨p₁, hp₁⟩ := Option.isSome_iff_exists.mp hsome
      obtain ⟨p', hp', hmarks⟩ := ih hp₁
      refine ⟨p', page?_mono (Nat.le_succ n) hp', fun m hm => ?_⟩
      exact Page.mem_marks_expand_ref hp hmem hp₁ (hmarks m hm)

end Tables

/-! ## What a tree writes -/

namespace SyntaxTree

variable {t : SyntaxTree} {r : Ref}

/-- The node is reached from the statements of the tree. -/
def Writes (t : SyntaxTree) (r : Ref) : Prop :=
  ∃ q ∈ Stmt.partsOf t.items, t.tables.Reaches q r

/-- The tree can be laid out: its statements do not reach references that lead in a circle. -/
def HasPage (t : SyntaxTree) : Prop := (t.tables.pageOf? t.items).isSome = true

theorem HasPage.exists_page?_of_writes (hpage : t.HasPage) (h : t.Writes r) :
    ∃ p, t.tables.page? t.tables.maxDepth r = some p ∧ ∀ m ∈ p.marks, m ∈ t.page.marks := by
  obtain ⟨q, hq, hr⟩ := h
  obtain ⟨whole, hwhole⟩ := Option.isSome_iff_exists.mp hpage
  have hexpand : (Stmt.linesDoc 0 t.items).expand (t.tables.page? t.tables.maxDepth) = some whole :=
    hwhole
  have hmem : q ∈ (Stmt.linesDoc 0 t.items).refs := by rwa [Stmt.refs_linesDoc]
  obtain ⟨pq, hpq⟩ := Option.isSome_iff_exists.mp (Doc.expand_isSome_iff.mp
    (Option.isSome_of_eq_some hexpand) q hmem)
  obtain ⟨p, hp, hmarks⟩ := Tables.exists_page?_of_reaches hr hpq
  refine ⟨p, hp, fun m hm => ?_⟩
  rw [page, hwhole, Option.getD_some]
  exact Page.mem_marks_expand_ref hexpand hmem hpq (hmarks m hm)

end SyntaxTree

end TypeStyle
