import LayoutLint.Proofs.Linter.Report
import Mathlib.Data.List.Pairwise

/-! # The order of violations

Files are taken in the order of their paths, so that the order in which they were found does not
matter. The violations of a file come in the order of their positions, and those at one position
in the order of the rules.
-/

namespace LayoutLint

open LayoutLint.Path Std

namespace Report

def comparePositions (v w : Violation) : Ordering :=
  (Ord.compare v.location.line w.location.line).then
    (Ord.compare v.location.column w.location.column)

instance : TransCmp comparePositions := by
  have hline := transCmp_comap (Ord.compare : Nat → Nat → Ordering) fun v : Violation =>
    v.location.line
  have hcolumn := transCmp_comap (Ord.compare : Nat → Nat → Ordering) fun v : Violation =>
    v.location.column
  exact inferInstanceAs (TransCmp (compareLex _ _))

theorem compareViolations_of_file_eq {v w : Violation} (h : v.location.file = w.location.file) :
    compareViolations v w = comparePositions v w := by
  have hfile : Path.compare v.location.file w.location.file = .eq := compare_eq_iff.mpr (h ▸ rfl)
  rw [compareViolations, comparePlaces, hfile]
  rfl

end Report

namespace Linter

variable {l : Linter} {f : SourceFile} {files found : List SourceFile}

/-! ## The order of the files -/

theorem stablySorted_sortFiles (files : List SourceFile) :
    StablySorted (fun f g => Path.compare f.path g.path) files (sortFiles files) :=
  have := transCmp_comap Path.compare SourceFile.path
  stablySorted_mergeSort files

theorem sortFiles_eq_of_perm (hfiles : files.Pairwise (Discovery.Apart l.root))
    (hperm : found.Perm files) : sortFiles found = sortFiles files := by
  have hfound := stablySorted_sortFiles found
  have hsorted := stablySorted_sortFiles files
  refine List.Perm.eq_of_pairwise (fun f g hf hg hfg hgf => ?_) hfound.sorted hsorted.sorted
    (hfound.perm.trans (hperm.trans hsorted.perm.symm))
  -- Sorting leaves a choice only where two paths compare equal, and here no two do.
  have hf : f ∈ files := hperm.mem_iff.mp (hfound.perm.mem_iff.mp hf)
  have hg : g ∈ files := hsorted.perm.mem_iff.mp hg
  have hsame : Same f.path g.path := compare_eq_iff.mp (OrientedCmp.isLE_antisymm
    (Ordering.ne_gt_iff_isLE.mp hfg) (Ordering.ne_gt_iff_isLE.mp hgf))
  by_contra hne
  exact (hfiles.forall hf hg hne).path hsame

theorem report_eq_of_perm (hfiles : files.Pairwise (Discovery.Apart l.root))
    (hperm : found.Perm files) : l.report found = l.report files := by
  rw [report_eq, report_eq, sortFiles_eq_of_perm hfiles hperm]

/-! ## The violations of a file -/

theorem exists_stablySorted (l : Linter) (files : List SourceFile) :
    ∃ r, l.report files = .ok r ∧
      StablySorted Report.compareViolations ((sortFiles files).flatMap l.violationsIn)
        r.violations :=
  ⟨_, l.report_eq files, stablySorted_mergeSort _⟩

theorem stablySorted_violationsIn {violations : List Violation}
    (hfiles : files.Pairwise (Discovery.Apart l.root)) (hf : f ∈ files)
    (h : StablySorted Report.compareViolations (files.flatMap l.violationsIn) violations) :
    StablySorted Report.comparePositions (l.violationsIn f)
      (violations.filter fun v => Same v.location.file (l.relative f)) := by
  have hpart := h.filter fun v => Same v.location.file (l.relative f)
  rw [filter_flatMap_of_apart l file_of_mem_violationsIn hfiles hf] at hpart
  refine hpart.congr fun v hv w hw => Report.compareViolations_of_file_eq ?_
  rw [file_of_mem_violationsIn hv, file_of_mem_violationsIn hw]

/-- The report does not depend on the order in which the files are found. Its violations are
sorted by place, each comes from the check of its file, and those of one file are what the check
of it gives, sorted by position. -/
theorem run_orders_violations (l : Linter) {t : FileTree} {place : FileTree.Place}
    (ht : t.IsProper) (hplace : t.find l.root = .ok place) :
    ∃ files r, Discovery.files l.config.files l.exclusions t l.root = .ok files ∧
      files.Pairwise (Discovery.Apart l.root) ∧ l.run t = .ok r ∧
      (∀ found : List SourceFile, found.Perm files → l.report found = .ok r) ∧
      (r.violations.Pairwise fun v w => Report.comparePlaces v.location w.location ≠ .gt) ∧
      (∀ f ∈ files, ∀ text vs, f.content = .ok text → l.check f.path text = .ok vs →
        StablySorted Report.comparePositions vs
          (r.violations.filter fun v => Same v.location.file (l.relative f))) ∧
      ∀ v ∈ r.violations, ∃ f ∈ files, ∃ text vs, f.content = .ok text ∧
        l.check f.path text = .ok vs ∧ v ∈ vs ∧ v.location.file = l.relative f := by
  obtain ⟨files, hfiles⟩ := Discovery.exists_files l.config.files l.exclusions hplace
  have hapart := Discovery.pairwise_apart_files ht hplace hfiles
  obtain ⟨r, hreport, hsorted⟩ := exists_stablySorted l files
  have hmem : ∀ {f}, f ∈ sortFiles files ↔ f ∈ files := (stablySorted_sortFiles files).perm.mem_iff
  refine ⟨files, r, hfiles, hapart, (l.run_eq_report hfiles).trans hreport, ?_, hsorted.sorted,
    ?_, ?_⟩
  · intro found hperm
    rw [report_eq_of_perm hapart hperm, hreport]
  · intro f hf text vs hcontent hcheck
    rw [← violationsIn_of_check hcontent hcheck]
    exact stablySorted_violationsIn (pairwise_apart_sortFiles hapart) (hmem.mpr hf) hsorted
  · intro v hv
    obtain ⟨f, hf, hin⟩ := List.mem_flatMap.mp (hsorted.perm.mem_iff.mp hv)
    obtain ⟨text, vs, hcontent, hcheck, hvs⟩ := check_of_mem_violationsIn hin
    exact ⟨f, hmem.mp hf, text, vs, hcontent, hcheck, hvs, file_of_mem_violationsIn hin⟩

def twinTree : FileTree :=
  .directory [("w", .directory
    [("b.go", .file ⟨#[10, 100]⟩), ("a", .directory [("c.go", .file ⟨#[10, 100]⟩)])])]

def twinLinter : Linter where
  root := "/w"
  rules := [{ check := .deferPlacement }, { check := .deferPlacement, severity := .info }]
  reader := fun _ => .ok { defers := [⟨1, 2⟩] }

theorem run_orders_violations_twinTree :
    ∃ r, twinLinter.run twinTree = .ok r ∧
      twinLinter.report [⟨"/w/a/c.go", .ok "\nd"⟩, ⟨"/w/b.go", .ok "\nd"⟩] = .ok r ∧
      ∃ vs, twinLinter.check "/w/b.go" "\nd" = .ok vs ∧
        vs.map Violation.severity = [.error, .info] ∧
        StablySorted Report.comparePositions vs
          (r.violations.filter fun v => Same v.location.file "b.go") := by
  obtain ⟨files, r, hfiles, -, hrun, hperm, -, hfile, -⟩ :=
    run_orders_violations twinLinter (t := twinTree) (by decide) rfl
  obtain rfl : [(⟨"/w/b.go", .ok "\nd"⟩ : SourceFile), ⟨"/w/a/c.go", .ok "\nd"⟩] = files :=
    Except.ok.inj hfiles
  exact ⟨r, hrun, hperm _ (.swap _ _ _), _, rfl, rfl, hfile _ List.mem_cons_self "\nd" _ rfl rfl⟩

end Linter

end LayoutLint
