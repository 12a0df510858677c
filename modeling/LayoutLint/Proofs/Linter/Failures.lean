import LayoutLint.Proofs.Discovery.Rewrite
import LayoutLint.Proofs.Linter.Report

/-! # Files that cannot be checked

Such a file has one failure in the report, and nothing that the report says about the other files
depends on it.
-/

namespace LayoutLint

open LayoutLint.Path

namespace Report

def failuresAt (r : Report) (path : String) : List Failure :=
  r.failures.filter fun failure => Same failure.path path

/-- What the report says about all files but the one at a path. -/
def elsewhere (r : Report) (path : String) : List Violation × List Failure :=
  (r.violations.filter fun v => ¬ Same v.location.file path,
    r.failures.filter fun failure => ¬ Same failure.path path)

end Report

namespace Linter

/-- Each of the files is in the report once: it counts as checked, or it has a failure. -/
structure Accounts (l : Linter) (files : List SourceFile) (r : Report) : Prop where
  filesChecked : r.filesChecked = files.countP l.accepts
  total : r.filesChecked + r.failures.length = files.length
  accepted : ∀ f ∈ files, l.accepts f → r.failuresAt (l.relative f) = []
  rejected : ∀ f ∈ files, l.accepts f = false →
    ∃ message, r.failuresAt (l.relative f) = [⟨l.relative f, message⟩]
  known : ∀ failure ∈ r.failures, ∃ f ∈ files, l.accepts f = false ∧ failure.path = l.relative f

variable {l : Linter} {f : SourceFile} {files : List SourceFile}

/-! ## Accounting -/

theorem countP_accepts_add_length (files : List SourceFile) :
    files.countP l.accepts + (files.flatMap l.failuresIn).length = files.length := by
  induction files with
  | nil => rfl
  | cons f files ih =>
    rw [List.flatMap_cons, List.length_append, List.length_cons, ← ih, List.countP_cons]
    cases h : l.accepts f with
    | true =>
      rw [failuresIn_of_accepts h, List.length_nil, if_pos rfl]
      omega
    | false =>
      obtain ⟨message, hin⟩ := failuresIn_of_not_accepts h
      rw [hin, List.length_singleton, if_neg Bool.false_ne_true]
      omega

theorem report_accounts (hfiles : files.Pairwise (Discovery.Apart l.root)) :
    ∃ r, l.report files = .ok r ∧ l.Accounts files r := by
  have hperm : (sortFiles files).Perm files := List.mergeSort_perm files _
  have hapart := pairwise_apart_sortFiles hfiles
  have hown : ∀ f ∈ files, ((sortFiles files).flatMap l.failuresIn).filter
      (fun failure => Same failure.path (l.relative f)) = l.failuresIn f :=
    fun f hf => filter_flatMap_of_apart l path_of_mem_failuresIn hapart (hperm.mem_iff.mpr hf)
  refine ⟨_, l.report_eq files, ?_⟩
  constructor
  case filesChecked => exact hperm.countP_eq l.accepts
  case total => rw [countP_accepts_add_length, hperm.length_eq]
  case accepted =>
    intro f hf h
    rw [Report.failuresAt, hown f hf, failuresIn_of_accepts h]
  case rejected =>
    intro f hf h
    rw [Report.failuresAt, hown f hf]
    exact failuresIn_of_not_accepts h
  case known =>
    intro failure hfailure
    obtain ⟨f, hf, hin⟩ := List.mem_flatMap.mp hfailure
    refine ⟨f, hperm.mem_iff.mp hf, ?_, path_of_mem_failuresIn hin⟩
    cases h : l.accepts f with
    | false => rfl
    | true =>
      rw [failuresIn_of_accepts h] at hin
      exact absurd hin List.not_mem_nil

/-! ## Another content in one file -/

theorem sortFiles_map_rewrite (path : String) (content : Except FileTree.Error String)
    (files : List SourceFile) :
    sortFiles (files.map (SourceFile.rewrite path content)) =
      (sortFiles files).map (SourceFile.rewrite path content) := by
  refine (List.map_mergeSort fun f _ g _ => ?_).symm
  rw [SourceFile.rewrite_path, SourceFile.rewrite_path]

theorem filter_flatMap_rewrite {α : Type} {part : SourceFile → List α} {pathOf : α → String}
    (hpart : ∀ {f x}, x ∈ part f → pathOf x = l.relative f)
    (content : Except FileTree.Error String) (files : List SourceFile) :
    ((files.map (SourceFile.rewrite f.path content)).flatMap part).filter
        (fun x => ¬ Same (pathOf x) (l.relative f)) =
      (files.flatMap part).filter fun x => ¬ Same (pathOf x) (l.relative f) := by
  have hown : ∀ {g : SourceFile}, g.path = f.path →
      (part g).filter (fun x => ¬ Same (pathOf x) (l.relative f)) = [] := by
    intro g hg
    refine List.filter_eq_nil_iff.mpr fun x hx => ?_
    simp [hpart hx, relative, hg, Same]
  rw [List.flatMap_map]
  refine filter_flatMap_congr fun g _ => ?_
  by_cases hg : g.path = f.path
  · rw [hown hg, hown ((g.rewrite_path f.path content).trans hg)]
  · rw [SourceFile.rewrite, if_neg hg]

theorem elsewhere_rewrite {content : Except FileTree.Error String} {r r' : Report}
    (h : l.report files = .ok r)
    (h' : l.report (files.map (SourceFile.rewrite f.path content)) = .ok r') :
    r'.elsewhere (l.relative f) = r.elsewhere (l.relative f) := by
  rw [report_eq] at h h'
  obtain rfl := Except.ok.inj h
  obtain rfl := Except.ok.inj h'
  rw [sortFiles_map_rewrite, Report.elsewhere, Report.elsewhere]
  simp only
  rw [filter_mergeSort, filter_mergeSort, filter_flatMap_rewrite file_of_mem_violationsIn,
    filter_flatMap_rewrite path_of_mem_failuresIn]

theorem pairwise_apart_map_rewrite {root : String} (path : String)
    (content : Except FileTree.Error String) (h : files.Pairwise (Discovery.Apart root)) :
    (files.map (SourceFile.rewrite path content)).Pairwise (Discovery.Apart root) := by
  refine List.pairwise_map.mpr (h.imp fun hfg => ⟨?_, ?_⟩)
  · simpa using hfg.path
  · simpa using hfg.relative

/-- A run that finds its root reports on every file. Whatever is put in the place of one file,
readable or not, the report says the same about all others. -/
theorem run_isolates_failures (l : Linter) {t : FileTree} {place : FileTree.Place}
    (ht : t.IsProper) (hplace : t.find l.root = .ok place) :
    ∃ files r, Discovery.files l.config.files l.exclusions t l.root = .ok files ∧
      files.Pairwise (Discovery.Apart l.root) ∧ l.run t = .ok r ∧ l.Accounts files r ∧
      ∀ f ∈ files, ∃ names old, t.find f.path = .ok ⟨names, .file old⟩ ∧
        (∀ bytes, l.run (t.insert bytes names) =
          l.report (files.map (SourceFile.rewrite f.path (FileTree.textOf bytes)))) ∧
        ∀ content, ∃ r', l.report (files.map (SourceFile.rewrite f.path content)) = .ok r' ∧
          l.Accounts (files.map (SourceFile.rewrite f.path content)) r' ∧
          r'.elsewhere (l.relative f) = r.elsewhere (l.relative f) := by
  obtain ⟨files, hfiles⟩ := Discovery.exists_files l.config.files l.exclusions hplace
  have hapart := Discovery.pairwise_apart_files ht hplace hfiles
  obtain ⟨r, hr, haccounts⟩ := report_accounts hapart
  refine ⟨files, r, hfiles, hapart, (l.run_eq_report hfiles).trans hr, haccounts, fun f hf => ?_⟩
  obtain ⟨names, old, hfind, hinsert⟩ := Discovery.files_insert ht hplace hfiles hf
  refine ⟨names, old, hfind, fun bytes => l.run_eq_report (hinsert bytes), fun content => ?_⟩
  obtain ⟨r', hr', haccounts'⟩ :=
    report_accounts (pairwise_apart_map_rewrite f.path content hapart)
  exact ⟨r', hr', haccounts', elsewhere_rewrite hr hr'⟩

def mixedTree : FileTree :=
  .directory [("w", .directory [("a.go", .file ⟨#[112, 10]⟩), ("b.go", .file ⟨#[255]⟩)])]

def mixedLinter : Linter :=
  { root := "/w", rules := [{ check := .closingBrace }], reader := .standard }

theorem run_isolates_failures_mixedTree :
    ∃ r, mixedLinter.run mixedTree = .ok r ∧ r.filesChecked = 1 ∧
      (∃ message, r.failuresAt "b.go" = [⟨"b.go", message⟩]) ∧
      ∃ r', mixedLinter.run (mixedTree.insert ⟨#[254]⟩ ["w", "a.go"]) = .ok r' ∧
        r'.filesChecked = 0 ∧ r'.elsewhere "a.go" = r.elsewhere "a.go" := by
  obtain ⟨files, r, hfiles, -, hrun, haccounts, hrewrite⟩ :=
    run_isolates_failures mixedLinter (t := mixedTree) (by decide) rfl
  obtain rfl : [(⟨"/w/a.go", .ok "p\n"⟩ : SourceFile), ⟨"/w/b.go", .error .notText⟩] = files :=
    Except.ok.inj hfiles
  obtain ⟨names, old, hfind, hinsert, hcontent⟩ := hrewrite _ List.mem_cons_self
  obtain ⟨r', hr', haccounts', helsewhere⟩ := hcontent (.error .notText)
  obtain rfl : ["w", "a.go"] = names := congrArg FileTree.Place.names (Except.ok.inj hfind)
  refine ⟨r, hrun, haccounts.filesChecked.trans ?_, ?_, r', (hinsert ⟨#[254]⟩).trans hr',
    haccounts'.filesChecked, helsewhere⟩
  · simp [accepts, mixedLinter, OutlineReader.standard]
  · exact haccounts.rejected ⟨"/w/b.go", .error .notText⟩ (by simp) rfl

end Linter

end LayoutLint
