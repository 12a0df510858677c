import LayoutLint.Discovery
import LayoutLint.Proofs.FileTree.Proper
import Mathlib.Data.List.Nodup

/-! # What a walk finds

In a proper tree a walk finds each file at most once and at its own path, and the paths of what it
finds stay different when they are seen from the root. Other bytes in one source file change
nothing but the content of this file, since ignore files are no sources.
-/

namespace LayoutLint.Discovery

open FileTree LayoutLint.Path

section Walk

variable {respectGitignore : Bool} {layers : List Ignore.Layer} {names : List String}

/-- What a walk finds at and below an entry of a directory. -/
def walkEntry (respectGitignore : Bool) (layers : List Ignore.Layer) (names : List String)
    (e : String × FileTree) : List Found :=
  if Ignore.isIgnored layers (names ++ [e.1]) e.2.isDirectory then []
  else walk respectGitignore layers (names ++ [e.1]) e.2

theorem walkEntries_eq_flatMap (entries : List (String × FileTree)) :
    walkEntries respectGitignore layers names entries =
      entries.flatMap (walkEntry respectGitignore layers names) := by
  induction entries with
  | nil => rw [walkEntries, List.flatMap_nil]
  | cons e entries ih =>
    rw [walkEntries, ih, List.flatMap_cons]
    rfl

theorem walk_directory (entries : List (String × FileTree)) :
    walk respectGitignore layers names (.directory entries) =
      entries.flatMap (walkEntry respectGitignore
        (Ignore.Layer.inside respectGitignore names.length (.directory entries) :: layers)
        names) := by
  rw [walk, walkEntries_eq_flatMap]

theorem exists_of_mem_walk {t : FileTree} {f : Found} (ht : t.IsProper)
    (hf : f ∈ walk respectGitignore layers names t) :
    ∃ rest, f.names = names ++ rest ∧ (∀ name ∈ rest, IsName name) ∧
      t.at? rest = some (.file f.bytes) := by
  induction ht generalizing layers names f with
  | file bytes =>
    obtain rfl : f = ⟨names, bytes⟩ := by simpa [walk] using hf
    exact ⟨[], (List.append_nil names).symm, by simp, rfl⟩
  | @directory entries nodup isName proper ih =>
    rw [walk_directory] at hf
    obtain ⟨e, he, hf⟩ := List.mem_flatMap.mp hf
    unfold walkEntry at hf
    split at hf
    case isTrue => exact absurd hf List.not_mem_nil
    case isFalse =>
      obtain ⟨rest, hnames, hrest, hat⟩ := ih e he hf
      refine ⟨e.1 :: rest, ?_, ?_, ?_⟩
      · rw [hnames, List.append_assoc, List.singleton_append]
      · exact List.forall_mem_cons.mpr ⟨isName e he, hrest⟩
      · rw [at?, child?, lookup_of_mem nodup he]
        exact hat

theorem prefix_of_mem_walkEntry {e : String × FileTree} {f : Found} (ht : e.2.IsProper)
    (hf : f ∈ walkEntry respectGitignore layers names e) : names ++ [e.1] <+: f.names := by
  unfold walkEntry at hf
  split at hf
  case isTrue => exact absurd hf List.not_mem_nil
  case isFalse =>
    obtain ⟨rest, hnames, -⟩ := exists_of_mem_walk ht hf
    exact ⟨rest, hnames.symm⟩

theorem nodup_names_walk {t : FileTree} (ht : t.IsProper) :
    ((walk respectGitignore layers names t).map Found.names).Nodup := by
  induction ht generalizing layers names with
  | file bytes => simp [walk]
  | @directory entries nodup isName proper ih =>
    rw [walk_directory, List.map_flatMap, List.nodup_flatMap]
    constructor
    · intro e he
      unfold walkEntry
      split
      case isTrue => exact List.nodup_nil
      case isFalse => exact ih e he
    · -- What is found below one entry does not start with the name of another.
      refine (List.pairwise_map.mp nodup).imp_of_mem fun {d e} hd he hne => ?_
      refine List.disjoint_left.mpr fun found hfd hfe => ?_
      obtain ⟨f, hf, rfl⟩ := List.mem_map.mp hfd
      obtain ⟨g, hg, hgf⟩ := List.mem_map.mp hfe
      have hpd := prefix_of_mem_walkEntry (proper d hd) hf
      have hpe := prefix_of_mem_walkEntry (proper e he) hg
      rw [hgf] at hpe
      have heq := (List.prefix_of_prefix_length_le hpd hpe (by simp)).eq_of_length (by simp)
      exact hne (by simpa using heq)

end Walk

/-! ## Files to check -/

def sourceOf (root : String) (depth : Nat) (f : Found) : SourceFile :=
  ⟨(f.names.drop depth).foldl Path.join root, FileTree.textOf f.bytes⟩

def isChosen (exclusions : List Exclusion) (path : String) : Bool :=
  isSource path && !exclusions.any (·.excludes path)

section Files

variable {config : FileConfig} {exclusions : List Exclusion} {t : FileTree} {root : String}
  {place : Place}

theorem files_eq (h : t.find root = .ok place) :
    files config exclusions t root =
      .ok (((filesBelow config t place).map (sourceOf root place.names.length)).filter
        fun f => isChosen exclusions f.path) := by
  rw [files, h]
  simp only [bind, Except.bind, pure, Except.pure, List.filter_map, List.map_map]
  rfl

theorem exists_files (config : FileConfig) (exclusions : List Exclusion)
    (h : t.find root = .ok place) : ∃ fs, files config exclusions t root = .ok fs :=
  ⟨_, files_eq h⟩

theorem exists_of_mem_files {fs : List SourceFile} {f : SourceFile} (ht : t.IsProper)
    (hplace : t.find root = .ok place) (hfs : files config exclusions t root = .ok fs)
    (hf : f ∈ fs) :
    ∃ rest bytes, (∀ name ∈ rest, IsName name) ∧ place.tree.at? rest = some (.file bytes) ∧
      f = ⟨rest.foldl Path.join root, FileTree.textOf bytes⟩ ∧ isSource f.path := by
  rw [files_eq hplace] at hfs
  obtain rfl := Except.ok.inj hfs
  obtain ⟨hmem, hchosen⟩ := List.mem_filter.mp hf
  obtain ⟨found, hfound, rfl⟩ := List.mem_map.mp hmem
  obtain ⟨rest, hnames, hrest, hat⟩ := exists_of_mem_walk (ht.of_find hplace) hfound
  refine ⟨rest, found.bytes, hrest, hat, ?_, ?_⟩
  · rw [sourceOf, hnames, List.drop_left]
  · exact (Bool.and_eq_true_iff.mp hchosen).1

/-- The two files differ in their paths, also as seen from the root. -/
structure Apart (root : String) (f g : SourceFile) : Prop where
  path : ¬ Same f.path g.path
  relative : ¬ Same (relativeTo f.path root) (relativeTo g.path root)

instance : Std.Symm (Apart root) where
  symm _ _ h := ⟨mt Eq.symm h.path, mt Eq.symm h.relative⟩

theorem components_relativeTo_foldl_join {rest : List String} (hroot : isAbsolute root)
    (hne : rest ≠ []) (hrest : ∀ name ∈ rest, IsName name) :
    components (relativeTo (rest.foldl Path.join root) root) = rest.map .normal := by
  obtain ⟨habs, hcomp⟩ := components_foldl_join hroot hrest
  exact components_relativeTo habs hroot (by simpa using hne) hcomp

theorem pairwise_apart_files {fs : List SourceFile} (ht : t.IsProper)
    (hplace : t.find root = .ok place) (hfs : files config exclusions t root = .ok fs) :
    fs.Pairwise (Apart root) := by
  have hroot := isAbsolute_of_find hplace
  rw [files_eq hplace] at hfs
  obtain rfl := Except.ok.inj hfs
  refine (List.pairwise_map.mpr ?_).filter _
  have hproper := ht.of_find hplace
  rw [filesBelow]
  cases htree : place.tree with
  | file bytes => simp [walk]
  | directory entries =>
    rw [htree] at hproper
    refine (List.pairwise_map.mp (nodup_names_walk hproper)).imp_of_mem fun {f g} hf hg hne => ?_
    obtain ⟨rest, hnames, hrest, hat⟩ := exists_of_mem_walk hproper hf
    obtain ⟨rest', hnames', hrest', hat'⟩ := exists_of_mem_walk hproper hg
    have hpath : (sourceOf root place.names.length f).path = rest.foldl Path.join root := by
      rw [sourceOf, hnames, List.drop_left]
    have hpath' : (sourceOf root place.names.length g).path = rest'.foldl Path.join root := by
      rw [sourceOf, hnames', List.drop_left]
    have hdiff : rest.map Component.normal ≠ rest'.map Component.normal := by
      intro h
      rw [List.map_inj_right fun a b => Component.normal.inj] at h
      exact hne (by rw [hnames, hnames', h])
    constructor
    · rw [hpath, hpath', Same, (components_foldl_join hroot hrest).2,
        (components_foldl_join hroot hrest').2]
      exact fun h => hdiff (List.append_cancel_left h)
    · rwa [hpath, hpath', Same,
        components_relativeTo_foldl_join hroot (ne_nil_of_at?_directory hat) hrest,
        components_relativeTo_foldl_join hroot (ne_nil_of_at?_directory hat') hrest']

end Files

end LayoutLint.Discovery
