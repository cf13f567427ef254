-- SUMMARY: The report on a finding leads back to the finding, so both are fixed in the same way.
import TypeStyle.Proofs.Lint.Judgement
import TypeStyle.Proofs.Tree.Sequence
import TypeStyle.Types.Facts

/-! # From reports back to findings

A report keeps the spans of a finding and drops the identities. A span belongs to one site
only, so the identities can be read off the tree again. -/

namespace TypeStyle

/-- A rule that is enabled has a severity to report at. -/
theorem Settings.exists_severity {settings : Settings} {rule : Rule}
    (h : settings.isEnabled rule = true) : ∃ severity, (settings.level rule).severity? = some severity := by
  unfold Settings.isEnabled at h
  cases hlevel : settings.level rule with
  | off => simp [hlevel] at h
  | note => exact ⟨.note, rfl⟩
  | warning => exact ⟨.warning, rfl⟩
  | error => exact ⟨.error, rfl⟩

namespace Linter

variable {l : Linter} {t : SyntaxTree} {s : Site} {g : Finding}

/-- A finding is reported, at some severity. -/
theorem report?_of_judge (h : l.judge t s = some g) :
    ∃ severity, l.report? g = some (g.diagnostic severity) := by
  obtain ⟨severity, hseverity⟩ := Settings.exists_severity (finding?_of_judge h).2.1
  exact ⟨severity, by rw [report?, hseverity, Option.map_some]⟩

/-- Whatever the severity, what is found at the place of a report is the finding that the
    report was made of. -/
theorem findingAt_diagnostic (hn : t.Numbered) (hs : t.site? s.id = some s)
    (h : l.judge t s = some g) (severity : Severity) :
    Resolver.findingAt t (g.diagnostic severity) = some g := by
  obtain ⟨-, hsite, hslot, hslotSpan⟩ := eq_of_judge h
  have hspan := spanOf_of_judge h
  have hat : t.siteAt g.span = .ok (some s) := hn.siteAt_spanOf hs hspan
  rw [← hsite] at hspan
  rw [← hslot] at hslotSpan
  simp [Resolver.findingAt, Finding.diagnostic, hat, Except.toOption, hspan, hslotSpan,
    ← hsite, ← hslot]

/-- Every finding is reported, and any resolver that is given the report in place of the finding
    comes to the same result: the same tree, site, types and edit, or the same error. -/
theorem fix_report (ht : t.Reachable) (hs : t.site? s.id = some s) (hg : l.judge t s = some g) :
    ∃ d, l.report? g = some d ∧ Resolver.findingAt t d = some g ∧
      ∀ r : Resolver, r.fixReported t d = r.fix t g := by
  obtain ⟨severity, hreport⟩ := report?_of_judge hg
  have hback := findingAt_diagnostic ht.numbered hs hg severity
  refine ⟨g.diagnostic severity, hreport, hback, fun r => ?_⟩
  rw [Resolver.fixReported, hback]

/-- The report on `out var z` is inside the declaration of `x`, which is reported as well. It
    leads to the site of `z`, of which the type is written. -/
theorem fix_report_nestedOutArg :
    let t := Draft.nestedOutArg.finish
    let facts : Facts := { siteTypes := [(⟨1⟩, .predefined .string), (⟨4⟩, .predefined .int)] }
    let l : Linter := { resolver := facts.resolver, settings := { explicit := .error } }
    let x : Finding := ⟨⟨4⟩, ⟨3⟩, ⟨0, 20⟩, ⟨0, 3⟩, .useExplicit⟩
    let z : Finding := ⟨⟨1⟩, ⟨0⟩, ⟨10, 19⟩, ⟨14, 17⟩, .useExplicit⟩
    x ∈ l.scan t ∧ l.report? z = some (z.diagnostic .error) ∧
      ∃ fix, l.resolver.fixReported t (z.diagnostic .error) = .ok fix ∧
        l.resolver.fix t z = .ok fix ∧
        fix.tree.source = "var x = f(out string z);\nint y = 1;\n" := by
  intro t facts l x z
  let sz : Site := ⟨⟨1⟩, .implicit { id := ⟨0⟩, trailing := [.space] }, .outArg "z"⟩
  have ht : t.Reachable := .finish Draft.built_nestedOutArg
  have hs : t.site? sz.id = some sz := by rfl
  have hjudge : l.judge t sz = some z := by rfl
  obtain ⟨d, hreport, -, hfix⟩ := fix_report ht hs hjudge
  obtain rfl : d = z.diagnostic .error := (Option.some.inj hreport).symm
  have hsource : (l.resolver.fix t z).toOption.map (fun fix => fix.tree.source) =
      some "var x = f(out string z);\nint y = 1;\n" := by rfl
  cases hresult : l.resolver.fix t z with
  | error e => simp [hresult, Except.toOption] at hsource
  | ok fix =>
    refine ⟨?_, hreport, fix, (hfix l.resolver).trans hresult, rfl, ?_⟩
    · have hscan : (l.scan t).head? = some x := by rfl
      exact List.mem_of_mem_head? hscan
    · simpa [hresult, Except.toOption] using hsource

end Linter

end TypeStyle
