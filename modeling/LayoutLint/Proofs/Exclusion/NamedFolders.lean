import LayoutLint.Linter
import LayoutLint.Proofs.Exclusion.Folders

/-! # Folders that are left out by name

With patterns that each name a folder, a linter leaves out the files that stand in such a folder,
at whatever depth, and no others. A file that only has the name is not left out.
-/

namespace LayoutLint

namespace Path

theorem innerSegments_intercalate {components : List String}
    (h : ∀ component ∈ components, '/' ∉ component.toList) :
    innerSegments ("/" ++ "/".intercalate components) = components.dropLast := by
  have hsegments : segments ("/" ++ "/".intercalate components) =
      "" :: segments ("/".intercalate components) := by
    have happend := segments_append_slash "" ("/".intercalate components)
    rwa [String.empty_append] at happend
  rw [innerSegments, hsegments, List.tail_cons]
  cases components with
  | nil => rfl
  | cons component components => rw [segments_intercalate (List.cons_ne_nil _ _) h]

end Path

namespace Exclusion

theorem leavesOut_folders_iff {names components : List String}
    (hnames : ∀ name ∈ names, IsPlainSegment name)
    (hcomponents : ∀ component ∈ components, '/' ∉ component.toList) :
    leavesOut (names.map folder) ("/" ++ "/".intercalate components) = true ↔
      ∃ name ∈ names, name ∈ components.dropLast := by
  have habsolute : Path.isAbsolute ("/" ++ "/".intercalate components) = true := by
    simp [Path.isAbsolute, String.toList_append]
  rw [leavesOut, List.any_map, List.any_eq_true]
  refine exists_congr fun name => and_congr_right fun hname => ?_
  rw [Function.comp_apply, excludes_folder_iff (hnames name hname) habsolute,
    Path.enclosed_infix_iff (hnames name hname).noSlash, Path.innerSegments_intercalate hcomponents]

end Exclusion

namespace Linter

open Exclusion

/-- A linter whose patterns, those given and those of its configuration, all name folders leaves
out an absolute path if and only if a component other than the last is one of the names. -/
theorem build_leavesOut_iff (root : String) (rules : List Rule) (reader : OutlineReader)
    (exclude : List String) (config : Config) (strict : Bool) (names components : List String)
    (hpatterns : exclude ++ config.files.exclude = names.map fun name => "**/" ++ name ++ "/**")
    (hnames : ∀ name ∈ names, IsPlainSegment name)
    (hcomponents : ∀ component ∈ components, '/' ∉ component.toList) :
    ∃ l, build root rules (some reader) exclude config strict = .ok l ∧
      (leavesOut l.exclusions ("/" ++ "/".intercalate components) = true ↔
        ∃ name ∈ names, name ∈ components.dropLast) := by
  have hparse : (exclude ++ config.files.exclude).mapM Exclusion.parse =
      .ok (names.map folder) := by
    rw [hpatterns]
    exact mapM_parse_folders hnames
  refine ⟨⟨root, rules, reader, names.map folder, config, strict⟩, ?_,
    leavesOut_folders_iff hnames hcomponents⟩
  simp only [build, hparse]
  rfl

theorem build_leavesOut_iff_generated :
    ∃ l, build "/repo" [] (some .standard) ["**/generated/**"] {} false = .ok l ∧
      leavesOut l.exclusions "/repo/pkg/testdata/a.go" = true ∧
      leavesOut l.exclusions "/repo/generated" = false := by
  have hpatterns : ["**/generated/**"] ++ ({} : Config).files.exclude =
      ["generated", "vendor", "testdata"].map fun name => "**/" ++ name ++ "/**" := by decide
  have hnames : ∀ name ∈ ["generated", "vendor", "testdata"], IsPlainSegment name := by decide
  have hlinter := build_leavesOut_iff "/repo" [] .standard ["**/generated/**"] {} false
    ["generated", "vendor", "testdata"]
  obtain ⟨l, hl, hinside⟩ :=
    hlinter ["repo", "pkg", "testdata", "a.go"] hpatterns hnames (by decide)
  obtain ⟨l', hl', hfile⟩ := hlinter ["repo", "generated"] hpatterns hnames (by decide)
  obtain rfl : l = l' := Except.ok.inj (hl.symm.trans hl')
  refine ⟨l, hl, hinside.mpr (by decide), ?_⟩
  rw [← Bool.not_eq_true]
  exact mt hfile.mp (by decide)

end Linter

end LayoutLint
