import LayoutLint.Command.Check
import LayoutLint.Proofs.Linter.Order
import LayoutLint.Proofs.Path.RoundTrip

/-! # Back to the sources

The path of a violation, seen from the directory that a report goes by, leads back to the file that
the violation was found in, whether a directory was checked or a single file.
-/

namespace LayoutLint

open LayoutLint.Path

/-! ## Parents -/

namespace FileTree

theorem foldlM_step_trimVoidEnd {ss : List String} {trail trail' : Trail}
    (h : ss.foldlM Trail.step trail = .ok trail') :
    (trimVoidEnd ss).foldlM Trail.step trail = .ok trail' := by
  have hsplit : trimVoidEnd ss ++ ss.rtakeWhile isVoid = ss := List.rdropWhile_append_rtakeWhile
  rw [← hsplit] at h
  obtain ⟨mid, hmid, hvoids⟩ := foldlM_append_eq_ok_iff.mp h
  rw [hmid, Trail.foldlM_step_void (fun _ => List.mem_rtakeWhile_imp) hvoids]

theorem find_join_parent {t : FileTree} {path name : String} {place : Place}
    (h : t.find path = .ok place) (hname : fileName? path = some name) :
    ∃ parent, parent? path = some parent ∧ t.find (join parent name) = .ok place := by
  obtain ⟨habs, trail, hrun, rfl⟩ := find_eq_ok_iff.mp h
  obtain ⟨hisName, ss, voids, hs, hvoids⟩ := exists_segments_of_fileName? habs hname
  obtain ⟨parent, hparent, habove, hsegments⟩ := exists_parent? habs hs hisName.notVoid hvoids
  refine ⟨parent, hparent, ?_⟩
  rw [hs] at hrun
  obtain ⟨start, hstart, hrun⟩ := foldlM_cons_eq_ok_iff.mp hrun
  obtain rfl := Trail.step_void (by decide) hstart
  obtain ⟨mid, hmid, hrun⟩ := foldlM_append_eq_ok_iff.mp hrun
  obtain ⟨last, hlast, hrun⟩ := foldlM_cons_eq_ok_iff.mp hrun
  obtain rfl := Trail.foldlM_step_void hvoids hrun
  have hup : t.find parent = .ok mid.place := by
    refine find_eq_ok_iff.mpr ⟨habove, mid, ?_, rfl⟩
    have htrim := foldlM_step_trimVoidEnd hmid
    rcases hsegments with hsegments | ⟨hnil, hsegments⟩
    · rw [hsegments]
      exact foldlM_cons_eq_ok_iff.mpr ⟨_, hstart, htrim⟩
    · rw [hnil] at htrim
      obtain rfl := Except.ok.inj htrim
      rw [hsegments]
      exact foldlM_cons_eq_ok_iff.mpr ⟨_, hstart, foldlM_singleton.trans hstart⟩
  obtain ⟨-, ⟨hvoid, -⟩ | ⟨-, hdots, -⟩ | ⟨-, -, s, hchild, rfl⟩⟩ := Trail.step_eq_ok_iff.mp hlast
  · simp [hisName.notVoid] at hvoid
  · exact absurd hdots hisName.notParent
  · exact find_join hup hisName hchild

theorem read_of_find {t : FileTree} {path : String} {names : List String} {bytes : ByteArray}
    (h : t.find path = .ok ⟨names, .file bytes⟩) : t.read path = textOf bytes := by
  rw [read, h]
  rfl

end FileTree

/-! ## The files of a run -/

namespace Command

open FileTree

variable {config : FileConfig} {exclusions : List Exclusion} {t : FileTree} {root : String}
  {place : Place}

theorem sourceDirectory_of_file {names : List String} {bytes : ByteArray}
    (h : t.find root = .ok ⟨names, .file bytes⟩) :
    sourceDirectory t root = (parent? root).getD root := by
  rw [sourceDirectory, isFileAt, h]
  rfl

theorem sourceDirectory_of_directory {names : List String} {entries : List (String × FileTree)}
    (h : t.find root = .ok ⟨names, .directory entries⟩) : sourceDirectory t root = root := by
  rw [sourceDirectory, isFileAt, h]
  rfl

theorem exists_fileName?_of_isSource {path : String} (h : Discovery.isSource path) :
    ∃ name, fileName? path = some name := by
  rw [Discovery.isSource, extension?] at h
  cases hname : fileName? path with
  | none => simp [hname] at h
  | some name => exact ⟨name, rfl⟩

/-- A file of a run is found again by its path in the report. -/
theorem join_sourceDirectory {fs : List SourceFile} {f : SourceFile} (ht : t.IsProper)
    (hplace : t.find root = .ok place) (hfs : Discovery.files config exclusions t root = .ok fs)
    (hf : f ∈ fs) :
    Same (join (sourceDirectory t root) (relativeTo f.path root)) f.path ∧
      t.read (join (sourceDirectory t root) (relativeTo f.path root)) = f.content := by
  have hroot := isAbsolute_of_find hplace
  obtain ⟨names, bytes, hnames, hat, rfl, hsource⟩ :=
    Discovery.exists_of_mem_files ht hplace hfs hf
  obtain ⟨above, tree⟩ := place
  cases tree with
  | file content =>
    cases names with
    | cons name names => simp [at?, child?] at hat
    | nil =>
      obtain rfl : content = bytes := by simpa [at?] using hat
      obtain ⟨name, hname⟩ := exists_fileName?_of_isSource hsource
      obtain ⟨parent, hparent, hfind⟩ := find_join_parent hplace hname
      obtain ⟨parent', hparent', hsame⟩ := join_parent hroot hname
      obtain rfl : parent = parent' := Option.some.inj (hparent.symm.trans hparent')
      rw [List.foldl_nil, relativeTo_of_same hroot hroot rfl hname,
        sourceDirectory_of_file hplace, hparent]
      exact ⟨hsame, read_of_find hfind⟩
  | directory entries =>
    have hne := ne_nil_of_at?_directory hat
    rw [relativeTo_foldl_join hroot hne hnames, sourceDirectory_of_directory hplace,
      ← foldl_join hroot hne hnames]
    exact ⟨rfl, read_of_find (find_foldl_join hplace hnames hat)⟩

theorem exists_report (l : Linter) (hplace : t.find l.root = .ok place) :
    ∃ files r, Discovery.files l.config.files l.exclusions t l.root = .ok files ∧
      l.run t = .ok r ∧ ∀ v ∈ r.violations, ∃ f ∈ files, v ∈ l.violationsIn f := by
  obtain ⟨files, hfiles⟩ := Discovery.exists_files l.config.files l.exclusions hplace
  obtain ⟨r, hreport, hsorted⟩ := l.exists_stablySorted files
  refine ⟨files, r, hfiles, (l.run_eq_report hfiles).trans hreport, fun v hv => ?_⟩
  obtain ⟨f, hf, hin⟩ := List.mem_flatMap.mp (hsorted.perm.mem_iff.mp hv)
  exact ⟨f, (Linter.stablySorted_sortFiles files).perm.mem_iff.mp hf, hin⟩

/-- A path as seen from a root leads back to what it was: joined to the root if it is inside, as
the name of the root joined to the parent of the root, and as it is if it is elsewhere. So paths
other than the root stay different, and the path of a violation leads to the file that it was found
in. -/
theorem relativeTo_leads_back {root : String} (hroot : isAbsolute root) :
    (∀ path, isAbsolute path →
      (IsInside path root → relativeTo path root ≠ "" ∧
        isAbsolute (relativeTo path root) = false ∧
        Same (join root (relativeTo path root)) path) ∧
      (Same path root → ∀ name, fileName? path = some name → relativeTo path root = name ∧
        ∃ parent, parent? root = some parent ∧ Same (join parent name) path) ∧
      (¬ components root <+: components path → relativeTo path root = path)) ∧
    (∀ path path', isAbsolute path → isAbsolute path' → ¬ Same path root → ¬ Same path' root →
      Same (relativeTo path root) (relativeTo path' root) → Same path path') ∧
    ∀ (l : Linter) (t : FileTree) (place : Place), l.root = root → t.IsProper →
      t.find root = .ok place → ∃ files r,
        Discovery.files l.config.files l.exclusions t root = .ok files ∧ l.run t = .ok r ∧
        ∀ v ∈ r.violations, ∃ f ∈ files, v ∈ l.violationsIn f ∧
          Same (join (sourceDirectory t root) v.location.file) f.path ∧
          sourceText t root v = f.content := by
  refine ⟨fun path hpath => ⟨join_relativeTo_of_isInside hpath hroot, ?_, relativeTo_eq_self⟩,
    fun path path' hpath hpath' => same_of_same_relativeTo hroot hpath hpath', ?_⟩
  · intro hsame name hname
    obtain ⟨parent, hparent, hjoin⟩ :=
      join_parent hroot ((fileName?_congr hsame).symm.trans hname)
    exact ⟨relativeTo_of_same hpath hroot hsame hname, parent, hparent, hjoin.trans hsame.symm⟩
  · rintro l t place rfl ht hplace
    obtain ⟨files, r, hfiles, hrun, hviolations⟩ := exists_report l hplace
    refine ⟨files, r, hfiles, hrun, fun v hv => ?_⟩
    obtain ⟨f, hf, hin⟩ := hviolations v hv
    obtain ⟨hsame, hread⟩ := join_sourceDirectory ht hplace hfiles hf
    rw [sourceText, Linter.file_of_mem_violationsIn hin]
    exact ⟨f, hf, hin, hsame, hread⟩

def soleLinter : Linter := { Linter.twinLinter with root := "/w//b.go" }

theorem find_soleLinter :
    Linter.twinTree.find "/w//b.go" = .ok ⟨["w", "b.go"], .file ⟨#[10, 100]⟩⟩ := rfl

theorem files_soleLinter :
    Discovery.files soleLinter.config.files soleLinter.exclusions Linter.twinTree "/w//b.go" =
      .ok [⟨"/w//b.go", .ok "\nd"⟩] := by
  have hchosen : Discovery.isChosen [] "/w//b.go" = true := by decide +kernel
  have htext : textOf ⟨#[10, 100]⟩ = .ok "\nd" := rfl
  rw [Discovery.files_eq find_soleLinter, Discovery.filesBelow, Discovery.walk,
    List.map_singleton, Discovery.sourceOf, htext]
  exact congrArg Except.ok (List.filter_cons_of_pos hchosen)

theorem relativeTo_leads_back_soleLinter :
    relativeTo "/w/./b.go" "/w//b.go" = "b.go" ∧
      (∃ parent, parent? "/w//b.go" = some parent ∧ Same (join parent "b.go") "/w/./b.go") ∧
      ∃ r, soleLinter.run Linter.twinTree = .ok r ∧ r.violations.length = 2 ∧
        ∀ v ∈ r.violations, sourceText Linter.twinTree "/w//b.go" v = .ok "\nd" := by
  obtain ⟨hpaths, -, hruns⟩ := @relativeTo_leads_back "/w//b.go" (by decide)
  obtain ⟨hname, hparent⟩ := (hpaths "/w/./b.go" (by decide)).2.1 (by decide) "b.go" (by decide)
  obtain ⟨files, r, hfiles, hrun, hviolations⟩ :=
    hruns soleLinter Linter.twinTree _ rfl (by decide) find_soleLinter
  obtain rfl := Except.ok.inj (files_soleLinter.symm.trans hfiles)
  refine ⟨hname, hparent, r, hrun, ?_, fun v hv => ?_⟩
  · rw [soleLinter.run_eq_report files_soleLinter, Linter.report_eq] at hrun
    obtain rfl := Except.ok.inj hrun
    rw [List.length_mergeSort, Linter.sortFiles, List.mergeSort_singleton]
    rfl
  · obtain ⟨f, hf, -, -, htext⟩ := hviolations v hv
    rw [htext, List.mem_singleton.mp hf]

end Command

end LayoutLint
