import LayoutLint.Linter
import LayoutLint.Proofs.Discovery.Walk
import LayoutLint.Proofs.Sorting
import LayoutLint.Proofs.Steps

/-! # What a report holds

No file stops a run, so a report is settled file by file: it holds the violations and the failures
of each file and counts those that were checked. Files that are apart share none of them.
-/

namespace LayoutLint

open LayoutLint.Path

/-! ## Places -/

namespace Report

open Std

instance : TransCmp comparePlaces := by
  have hfile := transCmp_comap Path.compare Location.file
  have hline := transCmp_comap (Ord.compare : Nat → Nat → Ordering) Location.line
  have hcolumn := transCmp_comap (Ord.compare : Nat → Nat → Ordering) Location.column
  exact inferInstanceAs (TransCmp (compareLex _ (compareLex _ _)))

abbrev compareViolations (v w : Violation) : Ordering := comparePlaces v.location w.location

instance : TransCmp compareViolations := transCmp_comap comparePlaces Violation.location

end Report

namespace Linter

/-! ## One text -/

section Check

variable {l : Linter} {path text : String} {vs : List Violation} {v : Violation}

theorem check_eq_ok_iff :
    l.check path text = .ok vs ↔ ∃ o, l.reader text = .ok o ∧
      (o.hasSyntaxErrors && l.strict) = false ∧
      (l.rules.flatMap fun r =>
        l.ruleViolations r (SourceText.ofString text) (relativeTo path l.root) o) = vs := by
  rw [check, outline]
  cases l.reader text with
  | error message => simp
  | ok o =>
    simp only [Except.ok.injEq, exists_eq_left']
    cases o.hasSyntaxErrors && l.strict <;> simp

theorem rule_and_file_of_mem {r : Rule} {t : SourceText} {file : String} {o : Outline}
    (h : v ∈ l.ruleViolations r t file o) : v.rule = r.name ∧ v.location.file = file := by
  rw [ruleViolations] at h
  split at h
  case isTrue =>
    obtain ⟨w, hw, rfl⟩ := List.mem_map.mp h
    obtain ⟨finding, -, rfl⟩ := List.mem_map.mp hw
    exact ⟨rfl, rfl⟩
  case isFalse => exact absurd h List.not_mem_nil

theorem file_of_mem_check (h : l.check path text = .ok vs) (hv : v ∈ vs) :
    v.location.file = relativeTo path l.root := by
  obtain ⟨o, -, -, rfl⟩ := check_eq_ok_iff.mp h
  obtain ⟨r, -, hr⟩ := List.mem_flatMap.mp hv
  exact (rule_and_file_of_mem hr).2

end Check

/-! ## Outcomes -/

namespace Outcome

def violations : Outcome → List Violation
  | checked violations => violations
  | failed _ => []

def failures : Outcome → List Failure
  | checked _ => []
  | failed failure => [failure]

def isChecked : Outcome → Bool
  | checked _ => true
  | failed _ => false

theorem foldl_addTo (outcomes : List Outcome) (r : Report) :
    outcomes.foldl addTo r =
      { violations := r.violations ++ outcomes.flatMap violations
        filesChecked := r.filesChecked + outcomes.countP isChecked
        failures := r.failures ++ outcomes.flatMap failures } := by
  induction outcomes generalizing r with
  | nil => simp
  | cons outcome outcomes ih =>
    rw [List.foldl_cons, ih]
    cases outcome with
    | checked vs =>
      simp [addTo, violations, failures, isChecked, List.countP_cons, Nat.add_assoc, Nat.add_comm 1]
    | failed failure =>
      simp [addTo, Report.fail, violations, failures, isChecked]

end Outcome

variable (l : Linter) (f : SourceFile)

def relative : String := relativeTo f.path l.root

/-- The file can be checked: it has a text, the text has an outline, and no syntax errors stand
against it. -/
def accepts : Bool :=
  match f.content with
  | .error _ => false
  | .ok text =>
    match l.reader text with
    | .error _ => false
    | .ok outline => !(outline.hasSyntaxErrors && l.strict)

def outcomeOf : Outcome :=
  match f.content with
  | .error e => .failed ⟨l.relative f, unreadable e⟩
  | .ok text =>
    match l.check f.path text with
    | .error refusal => .failed ⟨l.relative f, refusal.message⟩
    | .ok violations => .checked violations

theorem outcome_eq : l.outcome f = .ok (l.outcomeOf f) := by
  rw [outcome, outcomeOf]
  cases f.content with
  | error e => rfl
  | ok text =>
    simp only [checkAt]
    cases l.check f.path text <;> rfl

theorem isChecked_outcomeOf : (l.outcomeOf f).isChecked = l.accepts f := by
  rw [outcomeOf, accepts]
  cases f.content with
  | error e => rfl
  | ok text =>
    simp only [check, outline]
    cases l.reader text with
    | error message => rfl
    | ok o =>
      dsimp only
      cases o.hasSyntaxErrors && l.strict <;> rfl

/-! ## Reports -/

theorem collect_map_outcome (files : List SourceFile) :
    collect (files.map l.outcome) = .ok ((files.map l.outcomeOf).foldl Outcome.addTo {}) := by
  rw [collect, List.foldlM_map, List.foldl_map]
  refine foldlM_eq_ok_foldl (fun r f => ?_) files _
  rw [outcome_eq]
  rfl

def sortFiles (files : List SourceFile) : List SourceFile :=
  files.mergeSort fun f g => Path.compare f.path g.path ≠ .gt

def violationsIn : List Violation := (l.outcomeOf f).violations

def failuresIn : List Failure := (l.outcomeOf f).failures

variable {l f}

theorem violationsIn_of_check {text : String} {vs : List Violation}
    (hcontent : f.content = .ok text) (hcheck : l.check f.path text = .ok vs) :
    l.violationsIn f = vs := by
  simp only [violationsIn, outcomeOf, hcontent, hcheck, Outcome.violations]

theorem check_of_mem_violationsIn {v : Violation} (h : v ∈ l.violationsIn f) :
    ∃ text vs, f.content = .ok text ∧ l.check f.path text = .ok vs ∧ v ∈ vs := by
  rw [violationsIn, outcomeOf] at h
  split at h
  case h_1 => exact absurd h List.not_mem_nil
  case h_2 text hcontent =>
    split at h
    case h_1 => exact absurd h List.not_mem_nil
    case h_2 vs hvs => exact ⟨text, vs, hcontent, hvs, h⟩

theorem file_of_mem_violationsIn {v : Violation} (h : v ∈ l.violationsIn f) :
    v.location.file = l.relative f := by
  obtain ⟨text, vs, -, hcheck, hv⟩ := check_of_mem_violationsIn h
  exact file_of_mem_check hcheck hv

theorem path_of_mem_failuresIn {failure : Failure} (h : failure ∈ l.failuresIn f) :
    failure.path = l.relative f := by
  rw [failuresIn, outcomeOf] at h
  split at h
  case h_1 => rw [List.mem_singleton.mp h]
  case h_2 text _ =>
    split at h
    case h_1 => rw [List.mem_singleton.mp h]
    case h_2 => exact absurd h List.not_mem_nil

theorem failuresIn_of_accepts (h : l.accepts f) : l.failuresIn f = [] := by
  rw [← isChecked_outcomeOf] at h
  rw [failuresIn]
  cases ho : l.outcomeOf f with
  | checked vs => rfl
  | failed failure => simp [ho, Outcome.isChecked] at h

theorem failuresIn_of_not_accepts (h : l.accepts f = false) :
    ∃ message, l.failuresIn f = [⟨l.relative f, message⟩] := by
  rw [← isChecked_outcomeOf] at h
  cases ho : l.outcomeOf f with
  | checked vs => simp [ho, Outcome.isChecked] at h
  | failed failure =>
    have hin : l.failuresIn f = [failure] := by rw [failuresIn, ho, Outcome.failures]
    have hpath : failure.path = l.relative f := path_of_mem_failuresIn (by simp [hin])
    exact ⟨failure.message, by rw [hin, ← hpath]⟩

variable (l)

theorem report_eq (files : List SourceFile) :
    l.report files = .ok
      { violations := ((sortFiles files).flatMap l.violationsIn).mergeSort
          fun v w => Report.compareViolations v w ≠ .gt
        filesChecked := (sortFiles files).countP l.accepts
        failures := (sortFiles files).flatMap l.failuresIn } := by
  have haccepts : Outcome.isChecked ∘ l.outcomeOf = l.accepts := funext l.isChecked_outcomeOf
  rw [report, collect_map_outcome, Outcome.foldl_addTo]
  simp only [List.flatMap_map, List.countP_map, haccepts, List.nil_append, Nat.zero_add]
  rfl

theorem run_eq_report {t : FileTree} {files : List SourceFile}
    (h : Discovery.files l.config.files l.exclusions t l.root = .ok files) :
    l.run t = l.report files := by
  rw [run, h]

/-! ## Files that are apart -/

theorem pairwise_apart_sortFiles {root : String} {files : List SourceFile}
    (h : files.Pairwise (Discovery.Apart root)) :
    (sortFiles files).Pairwise (Discovery.Apart root) :=
  ((List.mergeSort_perm files _).pairwise_iff (Std.Symm.symm _ _)).mpr h

theorem filter_flatMap_of_apart {α : Type} {files : List SourceFile} {part : SourceFile → List α}
    {pathOf : α → String} (hpart : ∀ {f x}, x ∈ part f → pathOf x = l.relative f)
    (hfiles : files.Pairwise (Discovery.Apart l.root)) (hf : f ∈ files) :
    (files.flatMap part).filter (fun x => Same (pathOf x) (l.relative f)) = part f := by
  refine filter_flatMap_eq_part hfiles hf (fun x hx => ?_) fun g hg x hx => ?_
  · simp [hpart hx, Same]
  · rw [decide_eq_false_iff_not, hpart hx]
    exact hg.relative

end Linter

end LayoutLint
