-- SUMMARY: The two policies agree where both ask for the placeholder, and a finding always asks for the other form.
import TypeStyle.Proofs.Lint.Judgement
import TypeStyle.Proofs.Tree.Run
import TypeStyle.Types.Facts

/-! # The two policies

Each policy has a procedure of its own to judge a site, and the settings switch off rules after
that. The policy that only asks for the placeholder comes to the same as the one that asks for
either form, with the other rule switched off. -/

namespace TypeStyle

/-- The rule asks for the form that the slot of the site does not have. The placeholder is only
    asked for in the declaration of one initialized local. -/
def Rule.Flips (s : Site) : Rule → Prop
  | .useImplicit => s.slot.isImplicit = false ∧ ∃ isUsing d e,
      s.shape = .«variables» (.statement false isUsing) [d] ∧ d.init = some e
  | .useExplicit => s.slot.isImplicit = true

namespace Policy

variable {p : Policy} {r : Resolver} {t : SyntaxTree} {s : Site} {rule : Rule}

theorem judge_implicitOnly (r : Resolver) (t : SyntaxTree) (s : Site) :
    implicitOnly.judge r t s =
      (implicitOrExplicit.judge r t s).filter fun rule => rule = .useImplicit := by
  unfold judge
  cases t.obstacle? s with
  | some o => rfl
  | none =>
    simp only [broken?_eq]
    cases s.slot.isImplicit <;> cases r.prefersImplicit t s <;> rfl

/-- Whatever a policy asks for, it is the other form. -/
theorem flips_of_judge (h : p.judge r t s = some rule) : rule.Flips s := by
  obtain ⟨hfree, hverdict⟩ := judge_eq_some h
  obtain ⟨hform, hprefers⟩ := verdict_eq_some hverdict
  cases rule with
  | useExplicit => exact hform
  | useImplicit =>
    refine ⟨hform, ?_⟩
    have hshape := SyntaxTree.shape_of_obstacle?_eq_none hfree
    have hprefers : r.prefersImplicit t s = true := hprefers
    obtain ⟨id, slot, shape⟩ := s
    cases shape with
    | «variables» holder ds =>
      obtain ⟨isUsing, d, e, rfl, rfl, hinit⟩ := Shape.eq_of_obstacle?_eq_none hshape
      exact ⟨isUsing, d, e, rfl, hinit⟩
    | _ => simp [Resolver.prefersImplicit, Site.initializer?, Shape.single?] at hprefers

end Policy

namespace Linter

variable {l l' : Linter} {t : SyntaxTree} {s : Site} {rule : Rule}

/-- Judgements under one rule only are the judgements that ask for that rule. -/
theorem judge_eq_filter (h : l'.rule? t s = (l.rule? t s).filter fun x => x = rule) :
    l'.judge t s = (l.judge t s).filter fun g => g.rule = rule := by
  rw [judge_eq, judge_eq, h]
  cases l.rule? t s with
  | none => rfl
  | some x =>
    rw [Option.bind_some]
    cases hfinding : finding? t s x with
    | none => by_cases hx : x = rule <;> simp_all [Option.filter_some]
    | some g =>
      have hg : g.rule = x := (eq_of_finding? hfinding).1
      by_cases hx : x = rule <;> simp_all [Option.filter_some]

/-- A scan with one rule switched off goes as far as it would otherwise. -/
theorem scanSites_eq_filter (hstop : l'.stop = l.stop)
    (hpolicy : l'.settings.policy = l.settings.policy)
    (hrule : ∀ s, l'.rule? t s = (l.rule? t s).filter fun x => x = rule) (asked : List ExprId)
    (ss : List Site) :
    l'.scanSites t asked ss = (l.scanSites t asked ss).filter fun g => g.rule = rule := by
  induction ss generalizing asked with
  | nil => rfl
  | cons s ss ih =>
    have hstopped : l'.isStopped asked = l.isStopped asked := by rw [isStopped, isStopped, hstop]
    rw [scanSites, scanSites, hstopped, hpolicy, ih, judge_eq_filter (hrule s)]
    split
    · rfl
    · rw [List.filter_append]
      cases l.judge t s with
      | none => rfl
      | some g => by_cases hg : g.rule = rule <;> simp [Option.filter_some, hg]

section

variable (r : Resolver) (t : SyntaxTree) (implicit explicit explicit' : Level)
  (stop : Option (List ExprId → Bool))

/-- The policy reports a site under the rule that asks for the placeholder as the other does. -/
theorem rule?_implicitOnly (s : Site) :
    rule? ⟨r, ⟨.implicitOnly, implicit, explicit⟩, stop⟩ t s =
      (rule? ⟨r, ⟨.implicitOrExplicit, implicit, explicit'⟩, stop⟩ t s).filter
        fun rule => rule = .useImplicit := by
  unfold rule?
  dsimp only
  rw [Policy.judge_implicitOnly]
  cases Policy.implicitOrExplicit.judge r t s with
  | none => rfl
  | some rule =>
    cases rule with
    | useImplicit => cases implicit <;> rfl
    | useExplicit => cases explicit' <;> rfl

/-- So does the other, with the rule that asks for types switched off. -/
theorem rule?_off (s : Site) :
    rule? ⟨r, ⟨.implicitOrExplicit, implicit, .off⟩, stop⟩ t s =
      (rule? ⟨r, ⟨.implicitOrExplicit, implicit, explicit⟩, stop⟩ t s).filter
        fun rule => rule = .useImplicit := by
  unfold rule?
  dsimp only
  cases Policy.implicitOrExplicit.judge r t s with
  | none => rfl
  | some rule =>
    cases rule with
    | useImplicit => cases implicit <;> rfl
    | useExplicit => cases explicit <;> rfl

/-- Stopped or not, a scan with the rule that asks for types switched off finds all that it
    finds otherwise under the other rule. -/
theorem scan_off :
    scan ⟨r, ⟨.implicitOrExplicit, implicit, .off⟩, stop⟩ t =
      (scan ⟨r, ⟨.implicitOrExplicit, implicit, explicit⟩, stop⟩ t).filter
        fun g => g.rule = .useImplicit := by
  refine scanSites_eq_filter ?_ ?_ (rule?_off r t implicit explicit stop) [] t.sites
  · rfl
  · rfl

/-- The two policies ask for types at different sites, so only scans without a stop compare. -/
theorem scan_implicitOnly :
    scan ⟨r, ⟨.implicitOnly, implicit, explicit⟩, none⟩ t =
      (scan ⟨r, ⟨.implicitOrExplicit, implicit, explicit'⟩, none⟩ t).filter
        fun g => g.rule = .useImplicit := by
  rw [scan_of_stop_eq_none rfl, scan_of_stop_eq_none rfl, List.filter_filterMap]
  congr 1
  funext s
  exact judge_eq_filter (rule?_implicitOnly r t implicit explicit explicit' none s)

end

/-- Where both policies have something to say they agree. A scan that only asks for the
    placeholder finds exactly what a scan for either form finds with the other rule switched off,
    and that is what it finds otherwise under the first rule, stopped or not. Whatever is found,
    the rule asks for the form that the slot of the site does not have. -/
theorem scan_policies (r : Resolver) (t : SyntaxTree) (implicit : Level) :
    (∀ explicit, scan ⟨r, ⟨.implicitOnly, implicit, explicit⟩, none⟩ t =
      scan ⟨r, ⟨.implicitOrExplicit, implicit, .off⟩, none⟩ t) ∧
    (∀ explicit stop, scan ⟨r, ⟨.implicitOrExplicit, implicit, .off⟩, stop⟩ t =
      (scan ⟨r, ⟨.implicitOrExplicit, implicit, explicit⟩, stop⟩ t).filter
        fun g => g.rule = .useImplicit) ∧
    ∀ p explicit stop, ∀ g ∈ scan ⟨r, ⟨p, implicit, explicit⟩, stop⟩ t,
      ∃ s ∈ t.sites, g.site = s.id ∧ g.slot = s.slot.id ∧ g.rule.Flips s := by
  refine ⟨fun explicit => ?_, fun explicit stop => scan_off r t implicit explicit stop, ?_⟩
  · have hoff := scan_off r t implicit .off none
    have honly := scan_implicitOnly r t implicit explicit .off
    exact honly.trans hoff.symm
  · intro p explicit stop g hg
    obtain ⟨s, hs, -, hjudge⟩ := exists_site_of_mem_scan hg
    obtain ⟨-, hsite, hslot, -⟩ := eq_of_judge hjudge
    exact ⟨s, hs, hsite, hslot, Policy.flips_of_judge (rule_of_judge hjudge)⟩

/-- The type of the literal is written where the placeholder shows it, and that of the call is not
    written where the placeholder does not. The policy that only asks for the placeholder finds
    the first. -/
theorem scan_policies_literalAndCall :
    let r := ({} : Facts).resolver
    let t := Draft.literalAndCall.finish
    let x : Finding := ⟨⟨2⟩, ⟨1⟩, ⟨0, 9⟩, ⟨0, 3⟩, .useImplicit⟩
    let y : Finding := ⟨⟨5⟩, ⟨4⟩, ⟨11, 22⟩, ⟨11, 14⟩, .useExplicit⟩
    scan ⟨r, ⟨.implicitOrExplicit, .note, .error⟩, none⟩ t = [x, y] ∧
      scan ⟨r, ⟨.implicitOnly, .note, .error⟩, none⟩ t = [x] ∧
      ∃ s ∈ t.sites, s.id = ⟨2⟩ ∧ Rule.Flips s .useImplicit := by
  intro r t x y
  obtain ⟨honly, hoff, hflips⟩ := scan_policies r t .note
  have hboth : scan ⟨r, ⟨.implicitOrExplicit, .note, .error⟩, none⟩ t = [x, y] := by rfl
  refine ⟨hboth, ?_, ?_⟩
  · rw [honly .error, hoff .error none, hboth]
    rfl
  · have hx : x ∈ scan ⟨r, ⟨.implicitOrExplicit, .note, .error⟩, none⟩ t := by
      rw [hboth]
      exact List.mem_cons_self
    obtain ⟨s, hs, hsite, -, hflip⟩ := hflips .implicitOrExplicit .error none x hx
    exact ⟨s, hs, hsite.symm, hflip⟩

end Linter

end TypeStyle
