import LayoutLint.Command.Run
import LayoutLint.Proofs.Linter.Report

/-! # The gate

A check passes if every file can be checked and no rule that counts as an error has anything to say
about it, and in no other case.
-/

namespace LayoutLint

theorem Rule.severity_of_mem {r : Rule} {t : SourceText} {file : String} {o : Outline}
    {v : Violation} (h : v ∈ r.violations t file o) : v.severity = r.severity := by
  obtain ⟨finding, -, rfl⟩ := List.mem_map.mp h
  rfl

/-! ## Errors in a file -/

namespace Linter

variable {l : Linter} {f : SourceFile}

theorem ruleViolations_without_error_iff {r : Rule} {t : SourceText} {file : String} {o : Outline} :
    (∀ v ∈ l.ruleViolations r t file o, v.severity ≠ .error) ↔
      (l.config.isEnabled r.name → (l.config.severity? r.name).getD r.severity = .error →
        r.violations t file o = []) := by
  rw [ruleViolations]
  split
  case isTrue hon =>
    have hseverity : ∀ v ∈ r.violations t file o,
        (withSeverity (l.config.severity? r.name) v).severity =
          (l.config.severity? r.name).getD r.severity := by
      intro v hv
      rw [← Rule.severity_of_mem hv]
      rfl
    constructor
    · intro h _ herror
      refine List.eq_nil_iff_forall_not_mem.mpr fun v hv => ?_
      exact h _ (List.mem_map_of_mem hv) ((hseverity v hv).trans herror)
    · intro h v hv herror
      obtain ⟨w, hw, rfl⟩ := List.mem_map.mp hv
      rw [h hon ((hseverity w hw).symm.trans herror)] at hw
      exact List.not_mem_nil hw
  case isFalse hoff => simp [hoff]

/-- The file can be checked without finding an error. -/
def IsClean (l : Linter) (f : SourceFile) : Prop :=
  ∃ text outline, f.content = .ok text ∧ l.reader text = .ok outline ∧
    (l.strict → outline.hasSyntaxErrors = false) ∧
    ∀ r ∈ l.rules, l.config.isEnabled r.name →
      (l.config.severity? r.name).getD r.severity = .error →
      r.violations (.ofString text) (l.relative f) outline = []

theorem accepts_iff :
    l.accepts f ↔ ∃ text outline, f.content = .ok text ∧ l.reader text = .ok outline ∧
      (l.strict → outline.hasSyntaxErrors = false) := by
  rw [accepts]
  cases f.content with
  | error e => simp
  | ok text =>
    cases hreader : l.reader text with
    | error message => simp [hreader]
    | ok outline =>
      simp only [hreader, Except.ok.injEq, exists_and_left, exists_eq_left', Bool.not_eq_true',
        ← Bool.and_eq_false_imp, Bool.and_comm]

theorem isClean_iff :
    l.IsClean f ↔ l.accepts f ∧ ∀ v ∈ l.violationsIn f, v.severity ≠ .error := by
  have hviolations : ∀ {text outline}, f.content = .ok text → l.reader text = .ok outline →
      (l.strict → outline.hasSyntaxErrors = false) →
      l.violationsIn f = l.rules.flatMap fun r =>
        l.ruleViolations r (.ofString text) (l.relative f) outline := by
    intro text outline hcontent hreader hstrict
    rw [← Bool.and_eq_false_imp, Bool.and_comm] at hstrict
    exact violationsIn_of_check hcontent (check_eq_ok_iff.mpr ⟨outline, hreader, hstrict, rfl⟩)
  constructor
  · rintro ⟨text, outline, hcontent, hreader, hstrict, hrules⟩
    refine ⟨accepts_iff.mpr ⟨text, outline, hcontent, hreader, hstrict⟩, fun v hv => ?_⟩
    rw [hviolations hcontent hreader hstrict] at hv
    obtain ⟨r, hr, hv⟩ := List.mem_flatMap.mp hv
    exact ruleViolations_without_error_iff.mpr (hrules r hr) v hv
  · rintro ⟨haccepts, herrors⟩
    obtain ⟨text, outline, hcontent, hreader, hstrict⟩ := accepts_iff.mp haccepts
    rw [hviolations hcontent hreader hstrict] at herrors
    refine ⟨text, outline, hcontent, hreader, hstrict, fun r hr => ?_⟩
    exact ruleViolations_without_error_iff.mp fun v hv =>
      herrors v (List.mem_flatMap.mpr ⟨r, hr, hv⟩)

/-! ## The report -/

section Report

variable {files : List SourceFile} {r : Report} (h : l.report files = .ok r)
include h

theorem hasErrors_eq_false_iff :
    r.hasErrors = false ↔ ∀ f ∈ files, ∀ v ∈ l.violationsIn f, v.severity ≠ .error := by
  rw [report_eq] at h
  obtain rfl := Except.ok.inj h
  simp only [Report.hasErrors, List.any_eq_false, List.mem_mergeSort, List.mem_flatMap, sortFiles,
    decide_eq_true_eq]
  exact ⟨fun herrors f hf v hv => herrors v ⟨f, hf, hv⟩,
    fun herrors v ⟨f, hf, hv⟩ => herrors f hf v hv⟩

theorem hasFailures_eq_false_iff : r.hasFailures = false ↔ ∀ f ∈ files, l.accepts f := by
  rw [report_eq] at h
  obtain rfl := Except.ok.inj h
  simp only [Report.hasFailures, Bool.not_eq_false', List.isEmpty_iff, List.flatMap_eq_nil_iff,
    sortFiles, List.mem_mergeSort]
  refine forall₂_congr fun f _ => ⟨fun hnone => ?_, failuresIn_of_accepts⟩
  cases haccepts : l.accepts f with
  | true => rfl
  | false =>
    obtain ⟨message, hin⟩ := failuresIn_of_not_accepts haccepts
    simp [hin] at hnone

theorem passes_iff : Command.passes r ↔ ∀ f ∈ files, l.IsClean f := by
  simp only [Command.passes, Bool.and_eq_true, Bool.not_eq_true', hasErrors_eq_false_iff h,
    hasFailures_eq_false_iff h, isClean_iff]
  exact ⟨fun ⟨herrors, haccepts⟩ f hf => ⟨haccepts f hf, herrors f hf⟩,
    fun hclean => ⟨fun f hf => (hclean f hf).2, fun f hf => (hclean f hf).1⟩⟩

end Report

end Linter

/-! ## The command -/

namespace Command

/-- The rule is one of those that a check is asked for: those of the preset, or the recommended
ones with a name or code in a list between commas. -/
def Selected (config : Config) (preset : Preset) (list : Option String) (rule : Rule) : Prop :=
  match list with
  | none => rule ∈ config.rulesOf preset
  | some list => rule ∈ config.rulesOf .recommended ∧ ∃ item ∈ list.toList.splitOn ',',
      Text.trim item = rule.name.toList ∨ Text.trim item = rule.code.toList

theorem contains_ruleNames_iff {list name : String} :
    (ruleNames list).contains name ↔
      ∃ item ∈ list.toList.splitOn ',', Text.trim item = name.toList := by
  simp only [ruleNames, List.contains_iff_mem, List.mem_map, ← String.toList_inj,
    String.toList_ofList]

section Chosen

variable {config : Config} {preset : Preset} {list : Option String} {rule : Rule}

theorem mem_chosenRules_iff :
    rule ∈ chosenRules config preset list ↔ Selected config preset list rule := by
  cases list with
  | none => rfl
  | some list =>
    simp only [chosenRules, Selected, List.mem_filter, isNamed, Bool.or_eq_true,
      contains_ruleNames_iff, ← exists_or, ← and_or_left]

instance : Decidable (Selected config preset list rule) :=
  decidable_of_iff _ mem_chosenRules_iff

theorem severity_of_mem_chosenRules (h : rule ∈ chosenRules config preset list) :
    rule.severity = .error := by
  have hrules : ∀ p : Preset, rule ∈ config.rulesOf p → rule.severity = .error := by
    intro p hp
    obtain ⟨check, -, rfl⟩ := List.mem_map.mp hp
    rfl
  cases list with
  | none => exact hrules preset h
  | some list => exact hrules .recommended (List.mem_filter.mp h).1

end Chosen

section Check

variable {reader : OutlineReader} {e : Environment} {o : CheckOptions} {requested : Option String}
  {config : Config} {preset : Preset} {exclusions : List Exclusion}

def linter (reader : OutlineReader) (e : Environment) (o : CheckOptions) (config : Config)
    (preset : Preset) (exclusions : List Exclusion) : Linter where
  root := checkRoot e config o
  rules := chosenRules config preset o.rules
  reader := reader
  exclusions := exclusions
  config := config
  strict := o.strictParse

theorem check_eq_run (hconfig : configOf e o requested = .ok config)
    (hpreset : config.preset? = some preset)
    (hexclude : (o.exclude ++ config.files.exclude).mapM Exclusion.parse = .ok exclusions) :
    check reader e o requested =
      ((linter reader e o config preset exclusions).run e.files).mapError .analysis := by
  have hbuild : linterOf reader e config o = .ok (linter reader e o config preset exclusions) := by
    simp only [linterOf, hpreset, Linter.build, hexclude]
    rfl
  simp only [check, hconfig, hbuild, bind, Except.bind]
  cases (linter reader e o config preset exclusions).run e.files <;> rfl

/-- The file was read and has an outline, one without syntax errors if that is asked for, and no
rule that is selected, enabled and an error reports anything about it. -/
def Clears (reader : OutlineReader) (o : CheckOptions) (config : Config) (preset : Preset)
    (root : String) (f : SourceFile) : Prop :=
  ∃ text outline, f.content = .ok text ∧ reader text = .ok outline ∧
    (o.strictParse → outline.hasSyntaxErrors = false) ∧
    ∀ rule, Selected config preset o.rules rule → config.isEnabled rule.name →
      (config.severity? rule.name).getD .error = .error →
      rule.violations (.ofString text) (Path.relativeTo f.path root) outline = []

theorem isClean_linter_iff {f : SourceFile} :
    (linter reader e o config preset exclusions).IsClean f ↔
      Clears reader o config preset (checkRoot e config o) f := by
  refine exists₂_congr fun text outline => and_congr Iff.rfl (and_congr Iff.rfl
    (and_congr Iff.rfl (forall_congr' fun rule => ?_)))
  rw [← mem_chosenRules_iff]
  refine imp_congr_right fun hrule => ?_
  rw [severity_of_mem_chosenRules hrule]
  rfl

theorem exitCode_eq_zero_iff {r : Report} (h : check reader e o requested = .ok r) :
    (runCheck reader e o requested).exitCode = 0 ↔ passes r := by
  rw [runCheck, h]
  cases hpasses : passes r <;> simp [hpasses]

/-- Whatever makes the outlines, a check passes exactly if it clears every file that it finds, and
the exit code says so. -/
theorem check_passes_iff (reader : OutlineReader) (e : Environment) (o : CheckOptions)
    (requested : Option String) {place : FileTree.Place}
    (hconfig : configOf e o requested = .ok config)
    (hpreset : config.preset? = some preset)
    (hexclude : (o.exclude ++ config.files.exclude).mapM Exclusion.parse = .ok exclusions)
    (hplace : e.files.find (checkRoot e config o) = .ok place) :
    ∃ files r,
      Discovery.files config.files exclusions e.files (checkRoot e config o) = .ok files ∧
      check reader e o requested = .ok r ∧
      (passes r ↔ ∀ f ∈ files, Clears reader o config preset (checkRoot e config o) f) ∧
      ((runCheck reader e o requested).exitCode = 0 ↔
        ∀ f ∈ files, Clears reader o config preset (checkRoot e config o) f) := by
  let l := linter reader e o config preset exclusions
  obtain ⟨files, hfiles⟩ := Discovery.exists_files config.files exclusions hplace
  obtain ⟨r, hr⟩ : ∃ r, l.report files = .ok r := ⟨_, l.report_eq files⟩
  have hcheck : check reader e o requested = .ok r := by
    rw [check_eq_run hconfig hpreset hexclude, l.run_eq_report hfiles, hr]
    rfl
  have hpasses : passes r ↔
      ∀ f ∈ files, Clears reader o config preset (checkRoot e config o) f := by
    simp only [Linter.passes_iff hr, l, isClean_linter_iff]
  exact ⟨files, r, hfiles, hcheck, hpasses, (exitCode_eq_zero_iff hcheck).trans hpasses⟩

def blockEnvironment : Environment where
  files := .directory [("w", .directory [("a.go", .file ⟨#[123, 10, 10, 125]⟩)])]
  workingDirectory := "/w"

def standardExclusions : List Exclusion :=
  ["vendor/", "testdata/"].map fun text =>
    ⟨"**/" ++ text ++ "**", ⟨.anyComponents :: text.toList.map .char ++ [.anyComponents]⟩⟩

theorem parse_standard_exclude :
    FileConfig.standard.exclude.mapM Exclusion.parse = .ok standardExclusions := by
  have h : (FileConfig.standard.exclude.mapM Exclusion.parse).toOption =
      some standardExclusions := by
    decide +kernel
  cases hparse : FileConfig.standard.exclude.mapM Exclusion.parse with
  | error e => simp [hparse, Except.toOption] at h
  | ok exclusions => rw [hparse] at h; exact congrArg _ (Option.some.inj h)

theorem check_passes_iff_blockEnvironment :
    (runCheck .standard blockEnvironment { rules := some " NBS001 ,x" } none).exitCode ≠ 0 ∧
      (runCheck .standard blockEnvironment { rules := some "defer-placement", strictParse := true }
        none).exitCode = 0 ∧
      (runCheck (fun _ => .error "no tree") blockEnvironment { rules := some "defer-placement" }
        none).exitCode ≠ 0 := by
  have hgate : ∀ (reader : OutlineReader) (o : CheckOptions), o.path = none → o.exclude = [] →
      ((runCheck reader blockEnvironment o none).exitCode = 0 ↔
        Clears reader o {} .recommended "/w/." ⟨"/w/./a.go", .ok "\x7b\n\n\x7d"⟩) := by
    intro reader o hpath hexclude
    have hconfig : configOf blockEnvironment o none = .ok {} := by
      rw [configOf, hpath]
      rfl
    have hroot : checkRoot blockEnvironment {} o = "/w/." := by
      rw [checkRoot, hpath]
      rfl
    have hparse : (o.exclude ++ FileConfig.standard.exclude).mapM Exclusion.parse =
        .ok standardExclusions := by
      rw [hexclude, List.nil_append, parse_standard_exclude]
    obtain ⟨place, hplace⟩ : ∃ place,
        blockEnvironment.files.find (checkRoot blockEnvironment {} o) = .ok place := by
      rw [hroot]
      exact ⟨_, rfl⟩
    obtain ⟨files, r, hfiles, -, -, hexit⟩ :=
      check_passes_iff reader blockEnvironment o none hconfig rfl hparse hplace
    rw [hroot] at hfiles hexit
    obtain rfl : [(⟨"/w/./a.go", .ok "\x7b\n\n\x7d"⟩ : SourceFile)] = files := Except.ok.inj hfiles
    rw [hexit, List.forall_mem_singleton]
  rw [ne_eq, hgate _ _ rfl rfl, hgate _ _ rfl rfl, ne_eq, hgate _ _ rfl rfl]
  refine ⟨?_, ?_, ?_⟩
  · rintro ⟨text, outline, hcontent, houtline, -, hrules⟩
    obtain rfl := Except.ok.inj hcontent
    obtain rfl := Except.ok.inj houtline
    have hnone := hrules { check := .closingBrace } (by decide) rfl rfl
    exact absurd hnone (by decide +kernel)
  · refine ⟨_, _, rfl, rfl, fun _ => by decide +kernel, fun rule hselected _ _ => ?_⟩
    have hone : chosenRules {} .recommended (some "defer-placement") =
        [{ check := .deferPlacement }] := by
      decide
    rw [← mem_chosenRules_iff, hone, List.mem_singleton] at hselected
    rw [hselected]
    decide +kernel
  · rintro ⟨text, outline, -, houtline, -⟩
    cases houtline

end Check

end Command

end LayoutLint
