import LayoutLint.Proofs.Linter.Report

/-! # Rules and their configuration

What a configuration says about a rule has to do with the violations of that rule only: it may
leave them out or give them another severity. All other violations stay, in the same order.
-/

namespace LayoutLint

/-- Among the violations found under a configuration, those of the rule that it calls `n` are what
the rule itself reports, with the severity that the configuration gives them. -/
structure Config.Governs (c : Config) (n : String) (rules : List Rule) (t : SourceText)
    (file : String) (o : Outline) (vs : List Violation) : Prop where
  disabled : c.isEnabled n = false → vs.filter (·.rule = n) = []
  missing : (∀ r ∈ rules, r.name ≠ n) → vs.filter (·.rule = n) = []
  plain : c.isEnabled n → c.severity? n = none → ∀ r ∈ rules, r.name = n →
    vs.filter (·.rule = n) = r.violations t file o
  overridden : c.isEnabled n → ∀ s, c.severity? n = some s → ∀ r ∈ rules, r.name = n →
    vs.filter (·.rule = n) = (r.violations t file o).map fun v => { v with severity := s }

namespace Linter

variable {l : Linter} {n : String} {t : SourceText} {file : String} {o : Outline}

/-! ## The rule that is named -/

theorem filter_rule_eq {r : Rule} (hrules : (l.rules.map Rule.name).Nodup) (hr : r ∈ l.rules) :
    (l.rules.flatMap fun r => l.ruleViolations r t file o).filter (·.rule = r.name) =
      l.ruleViolations r t file o := by
  have hsymm : Std.Symm fun r s : Rule => r.name ≠ s.name := ⟨fun _ _ => Ne.symm⟩
  refine filter_flatMap_eq_part (List.pairwise_map.mp hrules) hr (fun v hv => ?_)
    fun s hs v hv => ?_
  · simpa using (rule_and_file_of_mem hv).1
  · simpa [(rule_and_file_of_mem hv).1] using hs

theorem governs (hrules : (l.rules.map Rule.name).Nodup) :
    l.config.Governs n l.rules t file o
      (l.rules.flatMap fun r => l.ruleViolations r t file o) := by
  constructor
  case disabled =>
    intro hoff
    refine List.filter_eq_nil_iff.mpr fun v hv => ?_
    obtain ⟨r, -, hr⟩ := List.mem_flatMap.mp hv
    rw [decide_eq_true_eq, (rule_and_file_of_mem hr).1]
    rintro rfl
    simp [ruleViolations, hoff] at hr
  case missing =>
    intro hmissing
    refine List.filter_eq_nil_iff.mpr fun v hv => ?_
    obtain ⟨r, hin, hr⟩ := List.mem_flatMap.mp hv
    rw [decide_eq_true_eq, (rule_and_file_of_mem hr).1]
    exact hmissing r hin
  case plain =>
    rintro hon hseverity r hr rfl
    have hsame : withSeverity none = id := rfl
    rw [filter_rule_eq hrules hr, ruleViolations, if_pos hon, hseverity, hsame, List.map_id]
  case overridden =>
    rintro hon s hseverity r hr rfl
    rw [filter_rule_eq hrules hr, ruleViolations, if_pos hon, hseverity]
    rfl

/-! ## All others -/

theorem ruleViolations_congr {c c' : Config} {r : Rule} (h : c.rule? r.name = c'.rule? r.name) :
    { l with config := c }.ruleViolations r t file o =
      { l with config := c' }.ruleViolations r t file o := by
  have henabled : c.isEnabled r.name = c'.isEnabled r.name := by
    rw [Config.isEnabled, h, Config.isEnabled]
  have hseverity : c.severity? r.name = c'.severity? r.name := by
    rw [Config.severity?, h, Config.severity?]
  simp only [ruleViolations, henabled, hseverity]

theorem filter_other_rules_eq {c c' : Config} (h : ∀ name ≠ n, c.rule? name = c'.rule? name) :
    (l.rules.flatMap fun r => { l with config := c }.ruleViolations r t file o).filter
        (·.rule ≠ n) =
      (l.rules.flatMap fun r => { l with config := c' }.ruleViolations r t file o).filter
        (·.rule ≠ n) := by
  refine filter_flatMap_congr fun r _ => ?_
  by_cases hr : r.name = n
  · have hnone : ∀ k : Linter, (k.ruleViolations r t file o).filter (·.rule ≠ n) = [] := by
      intro k
      refine List.filter_eq_nil_iff.mpr fun v hv => ?_
      simpa [(rule_and_file_of_mem hv).1] using hr
    rw [hnone, hnone]
  · rw [ruleViolations_congr (h r.name hr)]

/-- Two configurations that differ in what they say about one rule differ in the violations of this
rule only. -/
theorem check_under_configs (l : Linter) (c c' : Config) (n path text : String) {o : Outline}
    (hrules : (l.rules.map Rule.name).Nodup)
    (hconfig : ∀ name ≠ n, c.rule? name = c'.rule? name) (ho : l.reader text = .ok o) :
    (o.hasSyntaxErrors && l.strict → { l with config := c }.check path text = .error .syntaxErrors ∧
        { l with config := c' }.check path text = .error .syntaxErrors) ∧
    ((o.hasSyntaxErrors && l.strict) = false → ∃ vs vs',
      { l with config := c }.check path text = .ok vs ∧
      { l with config := c' }.check path text = .ok vs' ∧
      vs.filter (·.rule ≠ n) = vs'.filter (·.rule ≠ n) ∧
      c.Governs n l.rules (.ofString text) (Path.relativeTo path l.root) o vs ∧
      c'.Governs n l.rules (.ofString text) (Path.relativeTo path l.root) o vs') := by
  refine ⟨fun hbad => ?_, fun hgood => ⟨_, _, check_eq_ok_iff.mpr ⟨o, ho, hgood, rfl⟩,
    check_eq_ok_iff.mpr ⟨o, ho, hgood, rfl⟩, filter_other_rules_eq hconfig, ?_, ?_⟩⟩
  · simp only [check, outline, ho, if_pos hbad, and_self]
  · exact governs (l := { l with config := c }) hrules
  · exact governs (l := { l with config := c' }) hrules

def blockLinter : Linter where
  root := "/w"
  rules := [{ check := .deferPlacement }, { check := .closingBrace }]
  reader := fun _ => .ok { blocks := [⟨0, 6, .statement⟩], defers := [⟨3, 4⟩] }

def deferWarning : Config := { rules := [("defer-placement", { severity := some .warning })] }

def deferDisabled : Config := { rules := [("defer-placement", { enabled := some false })] }

theorem check_under_configs_blockLinter :
    ∃ vs vs',
      { blockLinter with config := deferWarning }.check "/w/a.go" "\x7b\n\nd\n\n\x7d" = .ok vs ∧
      { blockLinter with config := deferDisabled }.check "/w/a.go" "\x7b\n\nd\n\n\x7d" = .ok vs' ∧
      vs.map Violation.severity = [.warning, .error] ∧
      vs.filter (·.rule ≠ "defer-placement") = vs'.filter (·.rule ≠ "defer-placement") ∧
      vs'.filter (·.rule = "defer-placement") = [] := by
  have hconfig : ∀ name ≠ "defer-placement",
      deferWarning.rule? name = deferDisabled.rule? name := by
    intro name hname
    simp only [Config.rule?, deferWarning, deferDisabled, List.lookup_cons,
      beq_eq_false_iff_ne.mpr hname]
  obtain ⟨-, h⟩ := check_under_configs blockLinter deferWarning deferDisabled "defer-placement"
    "/w/a.go" "\x7b\n\nd\n\n\x7d" (by decide) hconfig rfl
  obtain ⟨vs, vs', hvs, hvs', hothers, -, hgoverns⟩ := h rfl
  refine ⟨vs, vs', hvs, hvs', ?_, hothers, hgoverns.disabled rfl⟩
  rw [← Except.ok.inj hvs]
  rfl

end Linter

end LayoutLint
