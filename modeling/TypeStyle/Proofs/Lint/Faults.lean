-- SUMMARY: A site has a fault in its span exactly if its initializers lead to one.
import TypeStyle.Proofs.Lint.Obstacle
import TypeStyle.Proofs.Tree.Parts

/-! # Faults in a site

The check for faults compares spans. What it comes to is a matter of the tree's tables
alone: from the initializers of a site, through operands and arguments, one reaches text
that is no expression, or a mention of a node that is not there. Nothing else in the tree
matters, and so no type in any slot does. -/

namespace TypeStyle

namespace Tables

/-- The reference names nothing, or text that is no expression. -/
def isFaulty (t : Tables) : Ref → Bool
  | .site id => (t.site? id).isNone
  | .expr id =>
    match t.expr? id with
    | none | some (.unparsed _) => true
    | some _ => false

/-- A fault is reached from a reference. -/
def LeadsToFault (t : Tables) (r : Ref) : Prop :=
  ∃ x, t.Reaches r x ∧ t.isFaulty x = true

theorem leadsToFault_iff {t : Tables} {r : Ref} :
    t.LeadsToFault r ↔ t.isFaulty r = true ∨ ∃ q ∈ t.parts r, t.LeadsToFault q := by
  simp only [LeadsToFault, reaches_iff (r := r), or_and_right, exists_or, exists_eq_left']
  constructor
  · rintro (h | ⟨x, ⟨q, hq, hx⟩, hfaulty⟩)
    · exact .inl h
    · exact .inr ⟨q, hq, x, hx, hfaulty⟩
  · rintro (h | ⟨q, hq, x, hx, hfaulty⟩)
    · exact .inl h
    · exact .inr ⟨x, ⟨q, hq, hx⟩, hfaulty⟩

end Tables

/-! ## The faults of a document -/

/-- Some text of a document is marked as a fault. -/
def Doc.HasFault {ρ : Type} (d : Doc ρ) : Prop := ∃ message, .fault message ∈ d.marks

theorem Doc.hasFault_expand_iff {ρ : Type} {f : ρ → Option Page} {d : Doc ρ} {p : Page}
    (hd : d.expand f = some p) :
    p.HasFault ↔ d.HasFault ∨ ∃ r ∈ d.refs, ∃ q, f r = some q ∧ q.HasFault := by
  constructor
  · rintro ⟨message, hm⟩
    rcases Page.mem_marks_of_expand hd hm with hm | ⟨r, hr, q, hq, hm⟩
    · exact .inl ⟨message, hm⟩
    · exact .inr ⟨r, hr, q, hq, message, hm⟩
  · rintro (⟨message, hm⟩ | ⟨r, hr, q, hq, message, hm⟩)
    · exact ⟨message, Page.mem_marks_expand hd hm⟩
    · exact ⟨message, Page.mem_marks_expand_ref hd hr hq hm⟩

theorem Expr.hasFault_doc_iff (e : Expr) : e.doc.HasFault ↔ ∃ text, e = .unparsed text := by
  have hargs := Arg.marks_listDoc
  cases e with
  | lambda params body =>
    match params with
    | [] | [_] | _ :: _ :: _ => simp [Doc.HasFault, Expr.doc]
  | defaultOf type => cases type <;> simp [Doc.HasFault, Expr.doc]
  | _ => simp [Doc.HasFault, Expr.doc, hargs]

namespace Tables

/-- A node marks a fault itself exactly if it is faulty. -/
theorem hasFault_doc_iff (t : Tables) (r : Ref) : (t.doc r).HasFault ↔ t.isFaulty r = true := by
  cases r with
  | site id =>
    cases hs : t.site? id with
    | none => simp [Doc.HasFault, doc, isFaulty, hs, missing]
    | some s => simp [Doc.HasFault, doc, isFaulty, hs, Site.marks_doc]
  | expr id =>
    cases he : t.expr? id with
    | none => simp [Doc.HasFault, doc, isFaulty, he, missing]
    | some e =>
      have hmark : (t.doc (.expr id)).HasFault ↔ e.doc.HasFault := by
        simp [Doc.HasFault, doc, he]
      rw [hmark, e.hasFault_doc_iff]
      cases e <;> simp [isFaulty, he]

/-- The page of a reference has a fault exactly if the reference leads to one. -/
theorem hasFault_page?_iff {t : Tables} {n : Nat} {r : Ref} {p : Page} (hp : t.page? n r = some p) :
    p.HasFault ↔ t.LeadsToFault r := by
  induction n generalizing r p with
  | zero => cases hp
  | succ n ih =>
    rw [Doc.hasFault_expand_iff hp, hasFault_doc_iff, refs_doc, leadsToFault_iff]
    refine or_congr_right (exists_congr fun q => and_congr_right fun hq => ?_)
    constructor
    · rintro ⟨p', hp', hfault⟩
      exact (ih hp').mp hfault
    · intro hfault
      have hsome : (t.page? n q).isSome = true := by
        apply Doc.expand_isSome_iff.mp (Option.isSome_of_eq_some hp)
        rwa [refs_doc]
      obtain ⟨p', hp'⟩ := Option.isSome_iff_exists.mp hsome
      exact ⟨p', hp', (ih hp').mpr hfault⟩

end Tables

/-! ## The check on spans -/

theorem Shape.obstacle?_ne_faults (shape : Shape) : shape.obstacle? ≠ some .faults := by
  unfold Shape.obstacle?
  split <;> simp

namespace SyntaxTree

variable {t : SyntaxTree} {s : Site}

theorem Numbered.holdsFault_iff (h : t.Numbered) (hs : t.site? s.id = some s) {span : Span}
    (hspan : t.spanOf s.id = some span) :
    t.HoldsFault s.id ↔ t.tables.LeadsToFault (.site s.id) := by
  obtain ⟨body, k, hpart, -⟩ := h.exists_part_of_spanOf hs hspan
  have hpage := page?_of_part hpart
  rw [← Tables.hasFault_page?_iff hpage]
  constructor
  · rintro ⟨p, message, hp, hm⟩
    obtain rfl := Option.some.inj (hp.symm.trans hpage)
    exact ⟨message, hm⟩
  · rintro ⟨message, hm⟩
    exact ⟨_, message, hpage, hm⟩

/-- Faults are an obstacle of a written site exactly if there is one in its span. -/
theorem obstacle?_eq_faults_iff {span : Span} (hspan : t.spanOf s.id = some span) :
    t.obstacle? s = some .faults ↔ t.hasFaultIn span = true := by
  simp only [obstacle?, hspan]
  split
  · next hfault => simp [hfault]
  · next hfault => simp [hfault, s.shape.obstacle?_ne_faults]

/-- A written site has a fault in its span, and is kept from changing by faults, exactly if
    its initializers lead to a fault. Replacing a type anywhere does not change that. -/
theorem hasFaultIn_iff_leadsToFault (ht : t.Reachable) (hs : t.site? s.id = some s) {span : Span}
    (hspan : t.spanOf s.id = some span) :
    (t.hasFaultIn span = true ↔ t.tables.LeadsToFault (.site s.id)) ∧
      (t.obstacle? s = some .faults ↔ t.tables.LeadsToFault (.site s.id)) ∧
      ∀ (id : NodeId) (type : TypeExpr) (r : Retyped), t.retype id type = some r →
        ∃ span', r.tree.spanOf s.id = some span' ∧
          r.tree.hasFaultIn span' = t.hasFaultIn span := by
  have hn := ht.numbered
  have hiff : t.hasFaultIn span = true ↔ t.tables.LeadsToFault (.site s.id) :=
    (hn.hasFaultIn_spanOf_iff hs hspan).trans (hn.holdsFault_iff hs hspan)
  refine ⟨hiff, (obstacle?_eq_faults_iff hspan).trans hiff, ?_⟩
  intro id type r hretype
  obtain ⟨x, -, hr⟩ := retypes_of_retype hretype
  exact hr.hasFaultIn_eq hn hs hspan

end SyntaxTree

namespace Draft

/-- The draft of `int x = f(, out var z);`, with an empty text that is no expression as the
    first argument, and, on the next line, `int y = 1;`. -/
def faultyCall : Draft :=
  let d := (empty.addExpr (.unparsed "")).2
  let d := (d.addOutArg (.implicit {}) "z").2
  let d := (d.addExpr (.ident "f")).2
  let d := (d.addExpr (.call ⟨1⟩ [.value ⟨0⟩, .outSite ⟨1⟩])).2
  let d := (d.declare (.statement false false) (.keyword {} "int") [("x", some ⟨2⟩)]).2
  let d := (d.addExpr (.number "1")).2
  (d.declare (.statement false false) (.keyword {} "int") [("y", some ⟨3⟩)]).2

theorem built_faultyCall : faultyCall.Built := by
  have hfault := Built.empty.call (.addExpr _ (.unparsed ""))
  have hz := hfault.call (.addOutArg _ (.implicit {}) "z")
  have hcallee := hz.call (.addExpr _ (.ident "f"))
  have hcall := hcallee.call (.addExpr _ (.call ⟨1⟩ [.value ⟨0⟩, .outSite ⟨1⟩]))
  have hx := hcall.call (.declare _ (.statement false false) (.keyword {} "int") [("x", some ⟨2⟩)])
  have hnumber := hx.call (.addExpr _ (.number "1"))
  exact hnumber.call (.declare _ (.statement false false) (.keyword {} "int") [("y", some ⟨3⟩)])

end Draft

namespace SyntaxTree

/-- The declaration of `x` leads to the empty text among the arguments of its call. The
    declarations of `z`, which stands right after it, and of `y` do not. -/
theorem hasFaultIn_iff_leadsToFault_faultyCall :
    let t := Draft.faultyCall.finish
    t.source = "int x = f(, out var z);\nint y = 1;\n" ∧
      t.hasFaultIn ⟨0, 22⟩ = true ∧ t.tables.LeadsToFault (.site ⟨4⟩) ∧
      t.spanOf ⟨1⟩ = some ⟨12, 21⟩ ∧ ¬ t.tables.LeadsToFault (.site ⟨1⟩) ∧
      t.spanOf ⟨7⟩ = some ⟨24, 33⟩ ∧ ¬ t.tables.LeadsToFault (.site ⟨7⟩) := by
  intro t
  have ht : t.Reachable := .finish Draft.built_faultyCall
  let x : Site := ⟨⟨4⟩, .keyword { id := ⟨3⟩, trailing := [.space] } "int",
    .«variables» (.statement false false) [⟨⟨2⟩, "x", some ⟨2⟩⟩]⟩
  let y : Site := ⟨⟨7⟩, .keyword { id := ⟨6⟩, trailing := [.space] } "int",
    .«variables» (.statement false false) [⟨⟨5⟩, "y", some ⟨3⟩⟩]⟩
  let z : Site := ⟨⟨1⟩, .implicit { id := ⟨0⟩, trailing := [.space] }, .outArg "z"⟩
  have hx : t.hasFaultIn ⟨0, 22⟩ = true ↔ t.tables.LeadsToFault (.site ⟨4⟩) :=
    (hasFaultIn_iff_leadsToFault (s := x) ht rfl rfl).1
  have hy : t.hasFaultIn ⟨24, 33⟩ = true ↔ t.tables.LeadsToFault (.site ⟨7⟩) :=
    (hasFaultIn_iff_leadsToFault (s := y) ht rfl rfl).1
  have hz : t.hasFaultIn ⟨12, 21⟩ = true ↔ t.tables.LeadsToFault (.site ⟨1⟩) :=
    (hasFaultIn_iff_leadsToFault (s := z) ht rfl rfl).1
  have hfault : t.hasFaultIn ⟨0, 22⟩ = true := by rfl
  refine ⟨by rfl, hfault, hx.mp hfault, by rfl, ?_, by rfl, ?_⟩
  · rw [← hz]
    exact Bool.false_ne_true
  · rw [← hy]
    exact Bool.false_ne_true

end SyntaxTree

end TypeStyle
