import LayoutLint.Proofs.Discovery.Walk

/-! # Other bytes in a source file

Which files a walk finds is settled by names and by ignore files. An ignore file is no source, so
other bytes in a source file change its content in the result and nothing else.
-/

namespace LayoutLint

open FileTree LayoutLint.Path

section IgnoreFiles

variable {bytes : ByteArray} {names : List String} {t t' : FileTree}

theorem FileTree.Rewritten.rulesAt_eq (h : Rewritten bytes names t t') {path : List String}
    (hne : path ≠ names) : Ignore.rulesAt t' path = Ignore.rulesAt t path := by
  induction path generalizing names t t' with
  | nil =>
    cases h with
    | file => exact absurd rfl hne
    | entry => rfl
  | cons name path ih =>
    rw [Ignore.rulesAt, Ignore.rulesAt]
    cases names with
    | nil => rw [(h.child?_eq_none name).1, (h.child?_eq_none name).2]
    | cons n names =>
      obtain ⟨⟨s, s', hs, hs', hin⟩, hother⟩ := h.child?_eq
      by_cases hn : name = n
      · subst hn
        rw [hs, hs']
        exact ih hin fun he => hne (he ▸ rfl)
      · rw [hother name hn]

def Ignore.fileNames : List String := [".ignore", ".gitignore", "exclude"]

theorem FileTree.Rewritten.inside_eq (h : Rewritten bytes names t t')
    (hlast : ∀ name ∈ names.getLast?, name ∉ Ignore.fileNames) (respectGitignore : Bool)
    (depth : Nat) :
    Ignore.Layer.inside respectGitignore depth t' =
      Ignore.Layer.inside respectGitignore depth t := by
  have hrules : ∀ {path : List String} {name : String}, path.getLast? = some name →
      name ∈ Ignore.fileNames → Ignore.rulesAt t' path = Ignore.rulesAt t path := by
    intro path name hname hin
    refine h.rulesAt_eq ?_
    rintro rfl
    exact hlast name hname hin
  have hrepository : (t'.child? ".git").isSome = (t.child? ".git").isSome := by
    cases names with
    | nil => rw [(h.child?_eq_none ".git").1, (h.child?_eq_none ".git").2]
    | cons n names =>
      obtain ⟨⟨s, s', hs, hs', -⟩, hother⟩ := h.child?_eq
      by_cases hn : ".git" = n
      · rw [hn, hs, hs', Option.isSome_some, Option.isSome_some]
      · rw [hother ".git" hn]
  have hplain : Ignore.rulesAt t' [".ignore"] = Ignore.rulesAt t [".ignore"] :=
    hrules rfl (by decide)
  have hgit : Ignore.rulesAt t' [".gitignore"] = Ignore.rulesAt t [".gitignore"] :=
    hrules rfl (by decide)
  have hexclude : Ignore.rulesAt t' [".git", "info", "exclude"] =
      Ignore.rulesAt t [".git", "info", "exclude"] := hrules rfl (by decide)
  rw [Ignore.Layer.inside, Ignore.Layer.inside, hrepository, hplain, hgit, hexclude]

theorem not_mem_fileNames_of_isSource {path name : String} {front : List Component}
    (h : Discovery.isSource path) (hc : components path = front ++ [.normal name]) :
    name ∉ Ignore.fileNames := by
  have hname : fileName? path = some name := by
    rw [fileName?, hc, List.getLast?_concat]
  intro hmem
  simp only [Discovery.isSource, extension?, hname, beq_iff_eq] at h
  simp only [Ignore.fileNames, List.mem_cons, List.not_mem_nil, or_false] at hmem
  rcases hmem with rfl | rfl | rfl <;> exact absurd h (by decide)

end IgnoreFiles

def SourceFile.rewrite (path : String) (content : Except FileTree.Error String) (f : SourceFile) :
    SourceFile :=
  if f.path = path then { f with content := content } else f

@[simp] theorem SourceFile.rewrite_path (path : String) (content : Except FileTree.Error String)
    (f : SourceFile) : (f.rewrite path content).path = f.path := by
  rw [rewrite]
  split <;> rfl

namespace Discovery

/-- A found file with the given bytes, if it is the one under the given names. -/
def Found.rewrite (bytes : ByteArray) (target : List String) (f : Found) : Found :=
  if f.names = target then { f with bytes := bytes } else f

section

variable {bytes : ByteArray} {respectGitignore : Bool} {layers : List Ignore.Layer}
  {names rest : List String} {t t' : FileTree}

theorem map_rewrite_walkEntry {e : String × FileTree} {name : String} (he : e.2.IsProper)
    (hne : e.1 ≠ name) :
    (walkEntry respectGitignore layers names e).map (Found.rewrite bytes (names ++ name :: rest)) =
      walkEntry respectGitignore layers names e := by
  refine (List.map_congr_left fun f hf => ?_).trans (List.map_id _)
  rw [Found.rewrite, if_neg, id]
  intro hnames
  have hpre := prefix_of_mem_walkEntry he hf
  rw [hnames, List.prefix_append_right_inj] at hpre
  exact hne (by simpa using hpre)

theorem map_rewrite_flatMap_walkEntry {entries : List (String × FileTree)} {name : String}
    (hproper : ∀ e ∈ entries, e.2.IsProper) (hne : name ∉ entries.map Prod.fst) :
    (entries.flatMap (walkEntry respectGitignore layers names)).map
        (Found.rewrite bytes (names ++ name :: rest)) =
      entries.flatMap (walkEntry respectGitignore layers names) := by
  rw [List.map_flatMap]
  refine List.flatMap_congr fun e he => map_rewrite_walkEntry (hproper e he) ?_
  rintro rfl
  exact hne (List.mem_map_of_mem he)

theorem walk_rewritten (ht : t.IsProper) (h : Rewritten bytes rest t t')
    (hlast : ∀ name ∈ rest.getLast?, name ∉ Ignore.fileNames) :
    walk respectGitignore layers names t' =
      (walk respectGitignore layers names t).map (Found.rewrite bytes (names ++ rest)) := by
  induction h generalizing layers names with
  | file old => simp [walk, Found.rewrite]
  | @entry name rest s s' before after first inner ih =>
    have hlayer := (Rewritten.entry before after first inner).inside_eq hlast respectGitignore
      names.length
    cases ht with
    | directory nodup isName proper =>
      rw [List.forall_mem_append, List.forall_mem_cons] at proper
      obtain ⟨hbefore, hs, hafter⟩ := proper
      have hnot : name ∉ after.map Prod.fst := by
        rw [List.map_append, List.map_cons] at nodup
        exact (List.nodup_cons.mp (List.nodup_append.mp nodup).2.1).1
      have hinner : ∀ n ∈ rest.getLast?, n ∉ Ignore.fileNames :=
        fun n hn => hlast n (List.mem_getLast?_cons hn)
      have hentry : ∀ layers, walkEntry respectGitignore layers names (name, s') =
          (walkEntry respectGitignore layers names (name, s)).map
            (Found.rewrite bytes (names ++ name :: rest)) := by
        intro layers
        rw [walkEntry, walkEntry, inner.isDirectory_eq]
        split
        case isTrue => rfl
        case isFalse => rw [ih hs hinner, List.append_assoc, List.singleton_append]
      rw [walk_directory, walk_directory, hlayer, List.flatMap_append, List.flatMap_cons,
        List.flatMap_append, List.flatMap_cons, List.map_append, List.map_append,
        map_rewrite_flatMap_walkEntry hbefore first, map_rewrite_flatMap_walkEntry hafter hnot,
        hentry]

theorem layersAbove_rewritten {depth : Nat} (h : Rewritten bytes (names ++ rest) t t')
    (hlast : ∀ name ∈ (names ++ rest).getLast?, name ∉ Ignore.fileNames) :
    layersAbove respectGitignore depth t' names = layersAbove respectGitignore depth t names := by
  induction names generalizing t t' depth with
  | nil => rfl
  | cons name names ih =>
    obtain ⟨⟨s, s', hs, hs', hin⟩, -⟩ := Rewritten.child?_eq h
    have hinner : ∀ n ∈ (names ++ rest).getLast?, n ∉ Ignore.fileNames :=
      fun n hn => hlast n (List.mem_getLast?_cons hn)
    rw [layersAbove, layersAbove, hs, hs', Ignore.Layer.above, Ignore.Layer.above,
      h.inside_eq hlast]
    simp only [ih hin hinner]

theorem filesBelow_rewritten {config : FileConfig} {place : Place} {tree : FileTree}
    (htree : place.tree.IsProper) (h : Rewritten bytes (place.names ++ rest) t t')
    (hin : Rewritten bytes rest place.tree tree)
    (hlast : ∀ name ∈ rest.getLast?, name ∉ Ignore.fileNames) :
    filesBelow config t' ⟨place.names, tree⟩ =
      (filesBelow config t place).map (Found.rewrite bytes (place.names ++ rest)) := by
  rw [filesBelow, filesBelow, hin.isDirectory_eq, walk_rewritten htree hin hlast]
  split
  case isFalse => rfl
  case isTrue hdir =>
    -- Below a directory the file has a name of its own, so no layer above is rewritten either.
    have hlast' : ∀ name ∈ (place.names ++ rest).getLast?, name ∉ Ignore.fileNames := by
      cases rest with
      | nil => exact absurd hdir (by simp [hin.isDirectory_eq_false])
      | cons name rest =>
        rw [List.getLast?_append_of_ne_nil _ (List.cons_ne_nil name rest)]
        exact hlast
    rw [layersAbove_rewritten h hlast']

end

section Files

variable {config : FileConfig} {exclusions : List Exclusion} {t : FileTree} {root : String}
  {place : Place}

theorem foldl_join_injective {names names' : List String} (hroot : isAbsolute root)
    (hn : ∀ name ∈ names, IsName name) (hn' : ∀ name ∈ names', IsName name)
    (h : names.foldl Path.join root = names'.foldl Path.join root) : names = names' := by
  have hcomp := congrArg components h
  rw [(components_foldl_join hroot hn).2, (components_foldl_join hroot hn').2] at hcomp
  exact (List.map_inj_right fun _ _ => Component.normal.inj).mp (List.append_cancel_left hcomp)

/-- Writing to one of the files to check changes the content of this file and nothing else. -/
theorem files_insert {fs : List SourceFile} {f : SourceFile} (ht : t.IsProper)
    (hplace : t.find root = .ok place) (hfs : files config exclusions t root = .ok fs)
    (hf : f ∈ fs) :
    ∃ names old, t.find f.path = .ok ⟨names, .file old⟩ ∧ ∀ bytes,
      files config exclusions (t.insert bytes names) root =
        .ok (fs.map (SourceFile.rewrite f.path (FileTree.textOf bytes))) := by
  have hroot := isAbsolute_of_find hplace
  obtain ⟨rest, old, hrest, hat, rfl, hsource⟩ := exists_of_mem_files ht hplace hfs hf
  refine ⟨place.names ++ rest, old, find_foldl_join hplace hrest hat, fun bytes => ?_⟩
  have hold : t.at? (place.names ++ rest) = some (.file old) := by
    rw [at?_append, at?_of_find hplace, Option.bind_some, hat]
  have hr := rewritten_insert hold bytes
  obtain ⟨tree, hplace', hin⟩ := hr.find hplace
  have hlast : ∀ name ∈ rest.getLast?, name ∉ Ignore.fileNames := by
    intro name hname
    obtain ⟨front, rfl⟩ := List.getLast?_eq_some_iff.mp hname
    have hcomp := (components_foldl_join hroot hrest).2
    rw [List.map_append, ← List.append_assoc] at hcomp
    exact not_mem_fileNames_of_isSource hsource hcomp
  rw [files_eq hplace] at hfs
  obtain rfl := Except.ok.inj hfs
  have hmap : ((filesBelow config t place).map (Found.rewrite bytes (place.names ++ rest))).map
        (sourceOf root place.names.length) =
      ((filesBelow config t place).map (sourceOf root place.names.length)).map
        (SourceFile.rewrite (rest.foldl Path.join root) (FileTree.textOf bytes)) := by
    rw [List.map_map, List.map_map]
    refine List.map_congr_left fun found hfound => ?_
    obtain ⟨rest', hnames, hrest', -⟩ := exists_of_mem_walk (ht.of_find hplace) hfound
    have hsame : found.names = place.names ++ rest ↔
        (sourceOf root place.names.length found).path = rest.foldl Path.join root := by
      rw [sourceOf, hnames, List.drop_left, List.append_cancel_left_eq]
      exact ⟨fun h => by rw [h], foldl_join_injective hroot hrest' hrest⟩
    simp only [Function.comp_apply, Found.rewrite, SourceFile.rewrite, hsame]
    split <;> rfl
  rw [files_eq hplace', filesBelow_rewritten (ht.of_find hplace) hr hin hlast, hmap,
    List.filter_map]
  simp only [Function.comp_def, SourceFile.rewrite_path]

end Files

end Discovery

end LayoutLint
