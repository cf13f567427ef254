-- SUMMARY: How the pages of nodes are put together, as a grammar of pages with three grades of edges.
import TypeStyle.Proofs.Tree.Page

/-! # How pages are put together

The page of every node is built in one of a few ways, and which of them decides what may
stand at its edges. `Page.Laid` is the grammar of these ways. What holds of every page that
is laid out is then shown by induction on the grammar, without another look at the nodes. -/

namespace TypeStyle

/-- What keeps the marks of a page from its edges: for a solid page text before and after every
    site, for a sealed page text after every mark, for a fenced page nothing. -/
inductive Grade where
  | fenced
  | sealed
  | solid
  deriving DecidableEq, Repr

namespace Page

/-- The ways of putting a page together, with the grade that comes of it. -/
inductive Laid : Grade → Page → Prop where
  | text (s : String) : Laid .solid (.text s)
  | fault (message s : String) : Laid .solid (.mark (.fault message) (.text s))
  | mark {m : Mark} {p : Page} (hsite : ∀ id, m ≠ .site id) (hfault : ∀ message, m ≠ .fault message) :
      Laid .solid p → Laid .solid (.mark m p)
  | append {a b : Page} : Laid .solid a → Laid .solid b → Laid .solid (a ++ b)
  | between {a : Page} {s s' : String} (hs : 0 < s.utf8ByteSize) (hs' : 0 < s'.utf8ByteSize) :
      Laid .fenced a → Laid .solid (.text s ++ a ++ .text s')
  | site (id : NodeId) {p : Page} : Laid .solid p → Laid .fenced (.mark (.site id) p)
  | ofSolid {p : Page} : Laid .solid p → Laid .fenced p
  | ofSealed {p : Page} : Laid .sealed p → Laid .fenced p
  | behind (s : String) {p : Page} : Laid .fenced p → Laid .fenced (.text s ++ p)
  | after {a b : Page} : Laid .sealed a → Laid .fenced b → Laid .fenced (a ++ b)
  | empty : Laid .sealed (.text "")
  | close {a : Page} {s : String} (hs : 0 < s.utf8ByteSize) :
      Laid .fenced a → Laid .sealed (a ++ .text s)
  | join {a b : Page} : Laid .sealed a → Laid .sealed b → Laid .sealed (a ++ b)

end Page

/-! ## Documents -/

namespace Doc

variable {ρ : Type} {f : ρ → Option Page} {P Q R : Page → Prop}

/-- Whatever page the document becomes has the property `P`. -/
def Gives (f : ρ → Option Page) (P : Page → Prop) (d : Doc ρ) : Prop :=
  ∀ ⦃p⦄, d.expand f = some p → P p

theorem Gives.imp {d : Doc ρ} (h : d.Gives f P) (hPQ : ∀ p, P p → Q p) : d.Gives f Q :=
  fun _ hp => hPQ _ (h hp)

theorem gives_text {s : String} (h : P (.text s)) : (text s : Doc ρ).Gives f P := by
  intro p hp
  cases hp
  exact h

theorem Gives.append {a b : Doc ρ} (ha : a.Gives f P) (hb : b.Gives f Q)
    (h : ∀ p q, P p → Q q → R (p ++ q)) : (a ++ b).Gives f R := by
  intro p hp
  obtain ⟨a', b', ha', hb', rfl⟩ := expand_append_eq_some.mp hp
  exact h a' b' (ha ha') (hb hb')

theorem Gives.mark {d : Doc ρ} {m : Mark} (hd : d.Gives f P) (h : ∀ p, P p → Q (.mark m p)) :
    (mark m d).Gives f Q := by
  intro p hp
  obtain ⟨d', hd', rfl⟩ := expand_mark_eq_some.mp hp
  exact h d' (hd hd')

/-- Whatever page the document becomes is laid out with the grade `g`. -/
def LaysOut (f : ρ → Option Page) (g : Grade) (d : Doc ρ) : Prop :=
  d.Gives f (Page.Laid g)

theorem laysOut_text (s : String) : (text s : Doc ρ).LaysOut f .solid :=
  gives_text (.text s)

theorem laysOut_fault (message s : String) :
    (.mark (.fault message) (text s) : Doc ρ).LaysOut f .solid :=
  Gives.mark (P := (· = .text s)) (gives_text rfl) fun _ hp => hp ▸ .fault message s

namespace LaysOut

variable {a b : Doc ρ} {s s' : String}

theorem append (ha : a.LaysOut f .solid) (hb : b.LaysOut f .solid) : (a ++ b).LaysOut f .solid :=
  Gives.append ha hb fun _ _ => .append

theorem mark {m : Mark} (ha : a.LaysOut f .solid) (hsite : ∀ id, m ≠ .site id)
    (hfault : ∀ message, m ≠ .fault message) : (Doc.mark m a).LaysOut f .solid :=
  Gives.mark ha fun _ => .mark hsite hfault

theorem between (ha : a.LaysOut f .fenced) (hs : 0 < s.utf8ByteSize) (hs' : 0 < s'.utf8ByteSize) :
    (text s ++ a ++ text s').LaysOut f .solid := by
  intro p hp
  obtain ⟨sa, _, hsa, htext', rfl⟩ := expand_append_eq_some.mp hp
  obtain ⟨_, a', htext, ha', rfl⟩ := expand_append_eq_some.mp hsa
  cases htext
  cases htext'
  exact .between hs hs' (ha ha')

theorem site (ha : a.LaysOut f .solid) (id : NodeId) : (Doc.mark (.site id) a).LaysOut f .fenced :=
  Gives.mark ha fun _ => .site id

theorem ofSolid (ha : a.LaysOut f .solid) : a.LaysOut f .fenced :=
  Gives.imp ha fun _ => .ofSolid

theorem ofSealed (ha : a.LaysOut f .sealed) : a.LaysOut f .fenced :=
  Gives.imp ha fun _ => .ofSealed

theorem behind (ha : a.LaysOut f .fenced) (s : String) : (text s ++ a).LaysOut f .fenced :=
  (gives_text (P := (· = .text s)) rfl).append ha fun _ _ hp hq => hp ▸ .behind s hq

theorem after (ha : a.LaysOut f .sealed) (hb : b.LaysOut f .fenced) : (a ++ b).LaysOut f .fenced :=
  Gives.append ha hb fun _ _ => .after

theorem close (ha : a.LaysOut f .fenced) (hs : 0 < s.utf8ByteSize) :
    (a ++ text s).LaysOut f .sealed :=
  Gives.append ha (gives_text (P := (· = .text s)) rfl) fun _ _ hp hq => hq ▸ .close hs hp

theorem join (ha : a.LaysOut f .sealed) (hb : b.LaysOut f .sealed) : (a ++ b).LaysOut f .sealed :=
  Gives.append ha hb fun _ _ => .join

end LaysOut

theorem laysOut_commaSeparated_solid {ds : List (Doc ρ)} (h : ∀ d ∈ ds, d.LaysOut f .solid) :
    (commaSeparated ds).LaysOut f .solid := by
  fun_induction commaSeparated ds with
  | case1 => exact laysOut_text ""
  | case2 d => exact h d (List.mem_singleton_self d)
  | case3 d e ds ih =>
    have hfirst := (h d List.mem_cons_self).append (laysOut_text ", ")
    exact hfirst.append (ih fun d' hd' => h d' (List.mem_cons_of_mem _ hd'))

/-- The comma between two documents keeps them apart. -/
theorem laysOut_commaSeparated {ds : List (Doc ρ)} (h : ∀ d ∈ ds, d.LaysOut f .fenced) :
    (commaSeparated ds).LaysOut f .fenced := by
  fun_induction commaSeparated ds with
  | case1 => exact (laysOut_text "").ofSolid
  | case2 d => exact h d (List.mem_singleton_self d)
  | case3 d e ds ih =>
    have hfirst : (d ++ text ", ").LaysOut f .sealed := (h d List.mem_cons_self).close (by decide)
    exact hfirst.after (ih fun d' hd' => h d' (List.mem_cons_of_mem _ hd'))

end Doc

/-! ## Nodes -/

section

variable {f : Ref → Option Page}

theorem TypeExpr.laysOut_slotDoc (t : TypeExpr) : t.slotDoc.LaysOut f .solid := by
  unfold slotDoc
  refine ((Doc.laysOut_text _).append ?_).append (Doc.laysOut_text _)
  exact (Doc.laysOut_text _).mark (by simp) (by simp)

theorem Pattern.laysOut_doc (slot : TypeExpr) (p : Pattern) : (p.doc slot).LaysOut f .solid := by
  have hplain : ∀ s, (slot.slotDoc ++ Doc.text s).LaysOut f .solid :=
    fun s => slot.laysOut_slotDoc.append (Doc.laysOut_text s)
  cases p with
  | single name => exact hplain _
  | discard => exact hplain _
  | group parts =>
    cases slot with
    | tuple info elements =>
      simp only [Pattern.doc]
      split
      · refine ((Doc.laysOut_text _).append ?_).append (Doc.laysOut_text _)
        exact (Doc.laysOut_text _).mark (by simp) (by simp)
      · exact hplain _
    | _ => exact hplain _

theorem laysOut_braced (depth : Nat) (isEmpty : Bool) {lines : Doc Ref}
    (h : lines.LaysOut f .sealed) : (braced depth isEmpty lines).LaysOut f .solid := by
  unfold braced
  split
  · exact Doc.laysOut_text _
  · refine h.ofSealed.between (by decide) ?_
    rw [String.utf8ByteSize_append]
    exact Nat.add_pos_right _ (by decide)

section

variable (hexpr : ∀ e, (Doc.ref (.expr e)).LaysOut f .solid)
include hexpr

theorem Declarator.laysOut_doc (d : Declarator) : d.doc.LaysOut f .solid := by
  obtain ⟨id, name, init⟩ := d
  refine Doc.LaysOut.mark ?_ (by simp) (by simp)
  cases init with
  | none => exact Doc.laysOut_text _
  | some e => exact ((Doc.laysOut_text _).append (Doc.laysOut_text _)).append (hexpr e)

theorem Site.laysOut_doc (s : Site) : s.doc.LaysOut f .fenced := by
  obtain ⟨id, slot, shape⟩ := s
  refine Doc.LaysOut.site ?_ id
  cases shape with
  | «variables» holder declarators =>
    refine ((Doc.laysOut_text _).append slot.laysOut_slotDoc).append ?_
    refine Doc.laysOut_commaSeparated_solid fun d hd => ?_
    obtain ⟨declarator, _, rfl⟩ := List.mem_map.mp hd
    exact declarator.laysOut_doc hexpr
  | foreach name => exact slot.laysOut_slotDoc.append (Doc.laysOut_text _)
  | outArg name =>
    exact ((Doc.laysOut_text _).append slot.laysOut_slotDoc).append (Doc.laysOut_text _)
  | pattern parts => exact parts.laysOut_doc slot

end

variable (href : ∀ r, (Doc.ref r).LaysOut f .fenced)
include href

theorem Arg.laysOut_listDoc (args : List Arg) : (Arg.listDoc args).LaysOut f .solid := by
  refine (Doc.laysOut_commaSeparated fun d hd => ?_).between (by decide) (by decide)
  obtain ⟨a, _, rfl⟩ := List.mem_map.mp hd
  cases a with
  | value e => exact href _
  | outExisting name => exact (Doc.laysOut_text _).ofSolid
  | outSite site => exact href _

variable (hexpr : ∀ e, (Doc.ref (.expr e)).LaysOut f .solid)
include hexpr

theorem Expr.laysOut_doc (e : Expr) : e.doc.LaysOut f .solid := by
  have htext := @Doc.laysOut_text Ref f
  have hargs := Arg.laysOut_listDoc href
  cases e with
  | str marker contents raw => exact htext _
  | number text => exact htext _
  | char contents => exact htext _
  | bool value => exact htext _
  | null => exact htext _
  | ident name => exact htext _
  | member receiver name => exact (hexpr receiver).append (htext _)
  | call callee args => exact (hexpr callee).append (hargs args)
  | cast type operand => exact (htext _).append (hexpr operand)
  | asType operand type => exact (hexpr operand).append (htext _)
  | defaultOf type => cases type <;> exact htext _
  | new type args => exact (htext _).append (hargs args)
  | lambda params body =>
    match params with
    | [] | [_] | _ :: _ :: _ => exact (htext _).append (hexpr body)
  | binary op left right => exact ((hexpr left).append (htext _)).append (hexpr right)
  | unparsed text => exact Doc.laysOut_fault _ _

end

mutual

theorem Stmt.laysOut_doc {f : Ref → Option Page} (href : ∀ r, (Doc.ref r).LaysOut f .fenced)
    (hexpr : ∀ e, (Doc.ref (.expr e)).LaysOut f .solid) (depth : Nat) (s : Stmt) :
    (s.doc depth).LaysOut f .fenced := by
  have htext := @Doc.laysOut_text Ref f
  cases s with
  | usingNamespace name => exact (htext _).ofSolid
  | classDef name typeParams members =>
    have hlines := Stmt.laysOut_linesDoc href hexpr (depth + 1) members
    exact ((htext _).append (laysOut_braced _ _ hlines)).ofSolid
  | method returns name body =>
    have hlines := Stmt.laysOut_linesDoc href hexpr (depth + 1) body
    exact ((htext _).append (laysOut_braced _ _ hlines)).ofSolid
  | declaration site => exact ((href _).close (by decide)).ofSealed
  | foreach site collection body =>
    have hlines := Stmt.laysOut_linesDoc href hexpr (depth + 1) body
    have hsite : (Doc.text "foreach (" ++ .ref (.site site) ++ .text " in ").LaysOut f .solid :=
      (href _).between (by decide) (by decide)
    exact (((hsite.append (hexpr collection)).append (htext _)).append
      (laysOut_braced _ _ hlines)).ofSolid
  | deconstruction site value =>
    have hsite : (Doc.ref (.site site) ++ .text " = ").LaysOut f .sealed := (href _).close (by decide)
    exact ((hsite.after (hexpr value).ofSolid).close (by decide)).ofSealed
  | branch condition body =>
    have hlines := Stmt.laysOut_linesDoc href hexpr (depth + 1) body
    exact ((((htext _).append (hexpr condition)).append (htext _)).append
      (laysOut_braced _ _ hlines)).ofSolid
  | expr e => exact ((hexpr e).append (htext _)).ofSolid

theorem Stmt.laysOut_linesDoc {f : Ref → Option Page} (href : ∀ r, (Doc.ref r).LaysOut f .fenced)
    (hexpr : ∀ e, (Doc.ref (.expr e)).LaysOut f .solid) (depth : Nat) (ss : List Stmt) :
    (Stmt.linesDoc depth ss).LaysOut f .sealed := by
  match ss with
  | [] => exact Doc.gives_text .empty
  | s :: ss =>
    have hline : (Doc.text (indentation depth) ++ s.doc depth ++ Doc.text "\n").LaysOut f .sealed :=
      ((Stmt.laysOut_doc href hexpr depth s).behind _).close (by decide)
    exact hline.join (Stmt.laysOut_linesDoc href hexpr depth ss)

end

namespace Tables

/-- The page of an expression is solid, and that of any reference fenced. -/
theorem laysOut_page? (t : Tables) (n : Nat) :
    (∀ e, (Doc.ref (.expr e)).LaysOut (t.page? n) .solid) ∧
      ∀ r, (Doc.ref r).LaysOut (t.page? n) .fenced := by
  induction n with
  | zero =>
    constructor
    · intro e p hp
      cases hp
    · intro r p hp
      cases hp
  | succ n ih =>
    obtain ⟨hexpr, href⟩ := ih
    have hdoc : ∀ e, (t.doc (.expr e)).LaysOut (t.page? n) .solid := by
      intro e
      cases hx : t.expr? e with
      | none =>
        simp only [doc, hx]
        exact Doc.laysOut_fault _ _
      | some x =>
        simp only [doc, hx]
        exact (x.laysOut_doc href hexpr).mark (by simp) (by simp)
    refine ⟨fun e p hp => hdoc e hp, ?_⟩
    intro r p hp
    cases r with
    | expr e => exact (hdoc e).ofSolid hp
    | site id =>
      refine (?_ : (t.doc (.site id)).LaysOut (t.page? n) .fenced) hp
      cases hs : t.site? id with
      | none =>
        simp only [doc, hs]
        exact (Doc.laysOut_fault _ _).ofSolid
      | some s =>
        rw [doc_site hs]
        exact s.laysOut_doc hexpr

end Tables

/-- The page of every tree is put together in these ways. -/
theorem SyntaxTree.laid_page (t : SyntaxTree) : t.page.Laid .fenced := by
  obtain ⟨hexpr, href⟩ := t.tables.laysOut_page? t.tables.maxDepth
  rw [page]
  cases hp : t.tables.pageOf? t.items with
  | none => exact .ofSolid (.text "")
  | some p => exact (Stmt.laysOut_linesDoc href hexpr 0 t.items).ofSealed hp

end TypeStyle
