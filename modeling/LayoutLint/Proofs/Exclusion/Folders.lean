import LayoutLint.Config
import LayoutLint.Exclusion
import LayoutLint.Proofs.Path.Relative

/-! # Folders that are left out

A pattern `**/name/**` leaves out what stands in a folder of that name at any depth. It is held
against the whole path, so a folder above the root of a project counts like one below it.
-/

namespace LayoutLint

namespace Glob

/-! ## Reading -/

def isPlain (c : Char) : Bool := c ≠ '?' && c ≠ '*' && c ≠ '['

theorem parseFrom_of_isPlain {c : Char} (hc : isPlain c = true) (position : Nat)
    (last : Option Char) (rest : List Char) :
    parseFrom position last (c :: rest) =
      (parseFrom (position + 1) (some c) rest).map (Piece.char c :: ·) := by
  simp only [isPlain, Bool.and_eq_true, decide_eq_true_eq] at hc
  rw [parseFrom]
  · cases parseFrom (position + 1) (some c) rest <;> rfl
  all_goals simp_all

theorem parseFrom_plain_append {cs : List Char} (hcs : cs.all isPlain = true) (position : Nat)
    (last : Option Char) :
    parseFrom position last (cs ++ ['/', '*', '*']) =
      .ok (cs.map .char ++ [.char '/', .anyComponents]) := by
  induction cs generalizing position last with
  | nil =>
    rw [List.nil_append, parseFrom_of_isPlain (by decide), parseFrom]
    rfl
  | cons c cs ih =>
    rw [List.all_cons, Bool.and_eq_true] at hcs
    rw [List.cons_append, parseFrom_of_isPlain hcs.1, ih hcs.2]
    rfl

/-! ## Matching -/

theorem matchPieces_chars {cs : List Char} {pieces : List Piece} {text : List Char} :
    matchPieces (cs.map .char ++ pieces) text = true ↔
      ∃ rest, text = cs ++ rest ∧ matchPieces pieces rest = true := by
  induction cs generalizing text with
  | nil => simp
  | cons c cs ih =>
    cases text with
    | nil => simp [matchPieces]
    | cons d text =>
      simp only [List.map_cons, List.cons_append, matchPieces, Bool.and_eq_true, decide_eq_true_eq,
        ih, List.cons.injEq]
      constructor
      · rintro ⟨rfl, rest, rfl, hrest⟩
        exact ⟨rest, ⟨rfl, rfl⟩, hrest⟩
      · rintro ⟨rest, ⟨rfl, rfl⟩, hrest⟩
        exact ⟨rfl, rest, rfl, hrest⟩

theorem anyEnd_iff {accepts : List Char → Bool} {text : List Char} :
    anyEnd accepts text = true ↔ ∃ before rest, text = before ++ rest ∧ accepts rest = true := by
  induction text with
  | nil => simp [anyEnd]
  | cons c text ih =>
    rw [anyEnd, Bool.or_eq_true, ih]
    constructor
    · rintro (hall | ⟨before, rest, rfl, hrest⟩)
      · exact ⟨[], c :: text, rfl, hall⟩
      · exact ⟨c :: before, rest, rfl, hrest⟩
    · rintro ⟨before, rest, heq, hrest⟩
      rcases List.cons_eq_append_iff.mp heq with ⟨-, rfl⟩ | ⟨before', -, rfl⟩
      · exact .inl hrest
      · exact .inr ⟨before', rest, rfl, hrest⟩

theorem anyComponentEnd_iff {accepts : List Char → Bool} {text : List Char} :
    anyComponentEnd accepts text = true ↔
      ∃ before rest, text = before ++ '/' :: rest ∧ accepts rest = true := by
  induction text with
  | nil => simp [anyComponentEnd]
  | cons c text ih =>
    rw [anyComponentEnd, Bool.or_eq_true, ih, Bool.and_eq_true, decide_eq_true_eq]
    constructor
    · rintro (⟨rfl, hrest⟩ | ⟨before, rest, rfl, hrest⟩)
      · exact ⟨[], text, rfl, hrest⟩
      · exact ⟨c :: before, rest, rfl, hrest⟩
    · rintro ⟨before, rest, heq, hrest⟩
      rcases List.cons_eq_append_iff.mp heq with ⟨-, heq⟩ | ⟨before', -, rfl⟩
      · obtain ⟨rfl, rfl⟩ := List.cons.inj heq
        exact .inl ⟨rfl, hrest⟩
      · exact .inr ⟨before', rest, rfl, hrest⟩

end Glob

namespace Exclusion

/-! ## One folder -/

/-- What the pattern for all that stands in folders of the name means. -/
def folder (name : String) : Exclusion where
  pattern := "**/" ++ name ++ "/**"
  glob := ⟨.anyComponents :: name.toList.map .char ++ [.char '/', .anyComponents]⟩

/-- A segment of a path that a pattern can give as it is. -/
structure IsPlainSegment (name : String) : Prop where
  nonempty : name ≠ ""
  noSlash : '/' ∉ name.toList
  plain : name.toList.all Glob.isPlain = true

instance (name : String) : Decidable (IsPlainSegment name) :=
  decidable_of_iff (name ≠ "" ∧ '/' ∉ name.toList ∧ name.toList.all Glob.isPlain = true)
    ⟨fun ⟨h₁, h₂, h₃⟩ => ⟨h₁, h₂, h₃⟩, fun ⟨h₁, h₂, h₃⟩ => ⟨h₁, h₂, h₃⟩⟩

def enclosed (name : String) : List Char := '/' :: (name.toList ++ ['/'])

theorem toList_pattern_folder (name : String) :
    (folder name).pattern.toList = '*' :: '*' :: '/' :: (name.toList ++ ['/', '*', '*']) := by
  simp [folder, String.toList_append]

theorem parse_folder {name : String} (h : IsPlainSegment name) :
    parse (folder name).pattern = .ok (folder name) := by
  have hpieces : Glob.parseFrom 0 none (folder name).pattern.toList =
      .ok (folder name).glob.pieces := by
    rw [toList_pattern_folder, Glob.parseFrom, Glob.parseFrom_plain_append h.plain]
    rfl
  rw [parse, Glob.parse, hpieces]
  rfl

theorem mapM_parse_folders {names : List String} (h : ∀ name ∈ names, IsPlainSegment name) :
    (names.map fun name => (folder name).pattern).mapM parse = .ok (names.map folder) := by
  induction names with
  | nil => rfl
  | cons name names ih =>
    rw [List.map_cons, List.mapM_cons, parse_folder (h name (.head _)),
      ih fun name hname => h name (.tail _ hname)]
    rfl

theorem dropStars_plain_append {cs : List Char} (hcs : cs.all Glob.isPlain = true) :
    dropStars (cs ++ ['/', '*', '*']) = cs ++ ['/'] := by
  induction cs with
  | nil => rfl
  | cons c cs ih =>
    rw [List.all_cons, Bool.and_eq_true] at hcs
    rw [List.cons_append, dropStars, ih hcs.2, List.cons_append]
    intro rest hstar
    rw [hstar] at hcs
    exact absurd hcs.1 (by decide)

theorem core_folder {name : String} (h : IsPlainSegment name) :
    (folder name).core = enclosed name := by
  have hslash : ('/' :: name.toList).all Glob.isPlain = true := by
    rw [List.all_cons, h.plain]
    rfl
  rw [core, toList_pattern_folder, dropStars]
  exact dropStars_plain_append hslash

theorem contains_iff {text part : List Char} : contains text part = true ↔ part <:+: text := by
  rw [contains, Glob.anyEnd_iff]
  constructor
  · rintro ⟨before, rest, rfl, hrest⟩
    obtain ⟨after, rfl⟩ := List.isPrefixOf_iff_prefix.mp hrest
    exact ⟨before, after, List.append_assoc _ _ _⟩
  · rintro ⟨before, after, rfl⟩
    refine ⟨before, part ++ after, List.append_assoc _ _ _, ?_⟩
    exact List.isPrefixOf_iff_prefix.mpr (List.prefix_append part after)

/-- In an absolute path a folder does not come first, so the glob asks for a slash before it. -/
theorem accepts_folder_iff {name path : String} (h : IsPlainSegment name)
    (hpath : Path.isAbsolute path = true) :
    (folder name).glob.accepts path = true ↔ enclosed name <:+: path.toList := by
  have hpieces : (folder name).glob.pieces =
      .anyComponents :: ((name.toList ++ ['/']).map .char ++ [.anyComponents]) := by
    simp [folder]
  have hany : ∀ rest, Glob.matchPieces [.anyComponents] rest = true := fun _ => rfl
  have hfirst : ¬ ∃ rest, path.toList = name.toList ++ ['/'] ++ rest := by
    rintro ⟨rest, heq⟩
    obtain ⟨c, cs, hname⟩ := List.exists_cons_of_ne_nil (mt String.toList_eq_nil_iff.mp h.nonempty)
    rw [Path.isAbsolute, heq, hname] at hpath
    obtain rfl : c = '/' := by simpa using hpath
    exact h.noSlash (by rw [hname]; exact .head _)
  rw [Glob.accepts, hpieces, Glob.matchPieces, Bool.or_eq_true, Bool.or_eq_true,
    Glob.anyComponentEnd_iff]
  simp only [Glob.matchPieces_chars, hany, and_true, hfirst, or_false, List.isEmpty_iff,
    List.append_eq_nil_iff, List.cons_ne_nil, and_false, false_or]
  constructor
  · rintro ⟨before, -, heq, rest, rfl⟩
    exact ⟨before, rest, by rw [heq]; simp [enclosed]⟩
  · rintro ⟨before, rest, heq⟩
    exact ⟨before, name.toList ++ ['/'] ++ rest, by rw [← heq]; simp [enclosed], rest, rfl⟩

theorem excludes_folder_iff {name path : String} (h : IsPlainSegment name)
    (hpath : Path.isAbsolute path = true) :
    (folder name).excludes path = true ↔ enclosed name <:+: path.toList := by
  have hcore : enclosed name ≠ [] ∧ enclosed name ≠ ['/'] := by simp [enclosed]
  rw [excludes, core_folder h, Bool.or_eq_true, accepts_folder_iff h hpath]
  simp only [hcore, ne_eq, not_false_eq_true, decide_true, Bool.true_and, contains_iff, or_self]

end Exclusion

/-! ## Segments -/

theorem intercalate_append {xs ys : List (List Char)} (hxs : xs ≠ []) (hys : ys ≠ []) :
    ['/'].intercalate (xs ++ ys) = ['/'].intercalate xs ++ '/' :: ['/'].intercalate ys := by
  induction xs with
  | nil => exact absurd rfl hxs
  | cons x xs ih =>
    cases xs with
    | nil =>
      rw [List.singleton_append, List.intercalate_cons_of_ne_nil hys]
      simp
    | cons x' xs =>
      rw [List.cons_append, List.intercalate_cons_of_ne_nil (by simp), ih (by simp),
        List.intercalate_cons_cons]
      simp

namespace Path

/-- The segments that have a slash on either side. -/
def innerSegments (path : String) : List String := (segments path).tail.dropLast

theorem segments_ne_nil (path : String) : segments path ≠ [] :=
  mt List.map_eq_nil_iff.mp (List.splitOn_ne_nil '/' path.toList)

theorem toList_eq_intercalate (path : String) :
    path.toList = ['/'].intercalate ((segments path).map String.toList) := by
  have hid : String.toList ∘ String.ofList = id := funext fun cs => String.toList_ofList
  rw [segments, List.map_map, hid, List.map_id, List.intercalate_splitOn]

theorem mem_innerSegments_iff {name path : String} :
    name ∈ innerSegments path ↔ ∃ as bs, as ≠ [] ∧ bs ≠ [] ∧ segments path = as ++ name :: bs := by
  unfold innerSegments
  constructor
  · intro hmem
    obtain ⟨s, rest, hpath⟩ := List.exists_cons_of_ne_nil (segments_ne_nil path)
    rw [hpath, List.tail_cons] at hmem
    rcases List.eq_nil_or_concat rest with rfl | ⟨inner, last, rfl⟩
    · cases hmem
    · rw [List.concat_eq_append, List.dropLast_concat] at hmem
      obtain ⟨as, bs, rfl⟩ := List.append_of_mem hmem
      exact ⟨s :: as, bs ++ [last], by simp, by simp, by rw [hpath]; simp⟩
  · rintro ⟨as, bs, has, hbs, hpath⟩
    obtain ⟨s, as, rfl⟩ := List.exists_cons_of_ne_nil has
    rw [hpath, List.cons_append, List.tail_cons, List.dropLast_append_of_ne_nil (by simp)]
    obtain ⟨b, bs, rfl⟩ := List.exists_cons_of_ne_nil hbs
    simp

theorem enclosed_infix_iff {name path : String} (h : '/' ∉ name.toList) :
    Exclusion.enclosed name <:+: path.toList ↔ name ∈ innerSegments path := by
  rw [mem_innerSegments_iff]
  constructor
  · rintro ⟨before, after, heq⟩
    have hpath : path = String.ofList before ++ "/" ++ (name ++ "/" ++ String.ofList after) := by
      apply String.toList_inj.mp
      rw [← heq]
      simp [Exclusion.enclosed]
    refine ⟨_, _, segments_ne_nil (String.ofList before), segments_ne_nil (String.ofList after), ?_⟩
    rw [hpath, segments_append_slash, segments_append_slash, segments_of_slash_not_mem h]
    rfl
  · rintro ⟨as, bs, has, hbs, hpath⟩
    have hlist : path.toList = ['/'].intercalate (as.map String.toList) ++
        Exclusion.enclosed name ++ ['/'].intercalate (bs.map String.toList) := by
      rw [toList_eq_intercalate, hpath, List.map_append, List.map_cons,
        intercalate_append (by simpa using has) (List.cons_ne_nil _ _),
        List.intercalate_cons_of_ne_nil (by simpa using hbs)]
      simp [Exclusion.enclosed]
    rw [hlist]
    exact List.infix_append _ _ _

theorem normal_mem_components_iff {path name : String} (hpath : isAbsolute path = true)
    (hname : IsName name) : .normal name ∈ components path ↔ name ∈ segments path := by
  rw [components_of_isAbsolute hpath]
  simp only [List.mem_cons, reduceCtorEq, false_or, bodyComponents, List.mem_map, List.mem_filter]
  constructor
  · rintro ⟨s, ⟨hs, -⟩, hcomponent⟩
    rw [bodyComponent] at hcomponent
    split at hcomponent
    · cases hcomponent
    · cases hcomponent
      exact hs
  · intro hmem
    refine ⟨name, ⟨hmem, by rw [hname.notVoid]; rfl⟩, ?_⟩
    simp [bodyComponent, hname.notParent]

theorem mem_innerSegments_join_iff {root path name : String} (hroot : isAbsolute root = true)
    (hpath : isAbsolute path = false) (hname : IsName name) :
    name ∈ innerSegments (join root path) ↔
      .normal name ∈ components root ∨ name ∈ (segments path).dropLast := by
  obtain ⟨ss, hss, hjoin⟩ := segments_join_of_relative (ne_empty_of_isAbsolute hroot) hpath
  obtain ⟨rest, hrest⟩ := segments_of_isAbsolute hroot
  have hempty : name ≠ "" := by
    rintro rfl
    exact absurd hname.notVoid (by decide)
  obtain ⟨ss', rfl⟩ : ∃ ss', ss = "" :: ss' := by
    cases ss with
    | nil =>
      have hlist := toList_eq_intercalate root
      rcases hss with hss | hss <;> rw [hss] at hlist <;>
        rw [isAbsolute, hlist] at hroot <;> cases hroot
    | cons s ss' =>
      rcases hss with hss | hss <;> rw [hss] at hrest <;> obtain ⟨rfl, -⟩ := List.cons.inj hrest <;>
        exact ⟨ss', rfl⟩
  rw [normal_mem_components_iff hroot hname, innerSegments, hjoin, List.cons_append, List.tail_cons,
    List.dropLast_append_of_ne_nil (segments_ne_nil path), List.mem_append]
  rcases hss with hss | hss <;> rw [hss] <;> simp [hempty]

end Path

namespace Exclusion

open LayoutLint.Path

/-! ## The folders that are left out by default -/

def standardFolders : List String := ["vendor", "testdata"]

/-- One of the patterns leaves out the path, so that it is not among the files to read. -/
def leavesOut (exclusions : List Exclusion) (path : String) : Bool :=
  exclusions.any (·.excludes path)

/-- A component of the path is the name of such a folder. -/
def HasFolder (path : String) : Prop := ∃ name ∈ standardFolders, .normal name ∈ components path

/-- The path goes on after the name of such a folder. -/
def GoesThroughFolder (path : String) : Prop :=
  ∃ name ∈ standardFolders, name ∈ (segments path).dropLast

instance (path : String) : Decidable (HasFolder path) :=
  inferInstanceAs (Decidable (∃ _ ∈ _, _))

instance (path : String) : Decidable (GoesThroughFolder path) :=
  inferInstanceAs (Decidable (∃ _ ∈ _, _))

theorem parse_standard :
    FileConfig.standard.exclude.mapM parse = .ok (standardFolders.map folder) := by
  have hpatterns : FileConfig.standard.exclude =
      standardFolders.map fun name => (folder name).pattern := by decide
  rw [hpatterns]
  exact mapM_parse_folders (by decide)

theorem leavesOut_join_iff {root path : String} (hroot : isAbsolute root = true)
    (hpath : isAbsolute path = false) :
    leavesOut (standardFolders.map folder) (join root path) = true ↔
      HasFolder root ∨ GoesThroughFolder path := by
  have hplain : ∀ name ∈ standardFolders, IsPlainSegment name ∧ IsName name := by decide
  have hexcludes : ∀ name ∈ standardFolders, (folder name).excludes (join root path) = true ↔
      .normal name ∈ components root ∨ name ∈ (segments path).dropLast := by
    intro name hname
    obtain ⟨hsegment, hisName⟩ := hplain name hname
    rw [excludes_folder_iff hsegment (isAbsolute_join hroot path),
      enclosed_infix_iff hsegment.noSlash, mem_innerSegments_join_iff hroot hpath hisName]
  unfold leavesOut HasFolder GoesThroughFolder
  rw [List.any_map, List.any_eq_true]
  constructor
  · rintro ⟨name, hname, hexcluded⟩
    rcases (hexcludes name hname).mp hexcluded with habove | hbelow
    · exact .inl ⟨name, hname, habove⟩
    · exact .inr ⟨name, hname, hbelow⟩
  · rintro (⟨name, hname, habove⟩ | ⟨name, hname, hbelow⟩)
    · exact ⟨name, hname, (hexcludes name hname).mpr (.inl habove)⟩
    · exact ⟨name, hname, (hexcludes name hname).mpr (.inr hbelow)⟩

/-- A file of a project is left out where the path to it below the root goes through one of the
folders, or where the root itself has one. So two places of a project agree on a file exactly if it
stands in such a folder, or both places do, or neither. -/
theorem leavesOut_join_eq_iff (root₁ root₂ path : String) (h₁ : isAbsolute root₁ = true)
    (h₂ : isAbsolute root₂ = true) (hpath : isAbsolute path = false) :
    ∃ exclusions, FileConfig.standard.exclude.mapM parse = .ok exclusions ∧
      (leavesOut exclusions (join root₁ path) = true ↔ HasFolder root₁ ∨ GoesThroughFolder path) ∧
      (leavesOut exclusions (join root₁ path) = leavesOut exclusions (join root₂ path) ↔
        GoesThroughFolder path ∨ (HasFolder root₁ ↔ HasFolder root₂)) := by
  have hfirst := leavesOut_join_iff h₁ hpath
  have hsecond := leavesOut_join_iff h₂ hpath
  refine ⟨_, parse_standard, hfirst, ?_⟩
  rw [Bool.eq_iff_iff, hfirst, hsecond]
  by_cases hbelow : GoesThroughFolder path
  · simp only [hbelow, or_true, true_or]
  · simp only [hbelow, or_false, false_or]

theorem leavesOut_join_eq_iff_nested :
    isAbsolute "/src//vendor/" = true ∧ isAbsolute "/srv" = true ∧
      isAbsolute "a/testdata/b.go" = false ∧
      ∃ exclusions, FileConfig.standard.exclude.mapM parse = .ok exclusions ∧
        leavesOut exclusions (join "/src//vendor/" "a/testdata/b.go") = true ∧
        leavesOut exclusions (join "/src//vendor/" "a/testdata/b.go") =
          leavesOut exclusions (join "/srv" "a/testdata/b.go") := by
  have h₁ : isAbsolute "/src//vendor/" = true := by decide
  have h₂ : isAbsolute "/srv" = true := by decide
  have hpath : isAbsolute "a/testdata/b.go" = false := by decide
  have hbelow : GoesThroughFolder "a/testdata/b.go" := by decide +kernel
  obtain ⟨exclusions, hparse, hout, hsame⟩ :=
    leavesOut_join_eq_iff "/src//vendor/" "/srv" "a/testdata/b.go" h₁ h₂ hpath
  exact ⟨h₁, h₂, hpath, exclusions, hparse, hout.mpr (.inr hbelow), hsame.mpr (.inl hbelow)⟩

/-- A project in a folder with an unlucky name is left out as a whole. -/
theorem not_forall_leavesOut_join_eq :
    ¬ ∀ exclusions, FileConfig.standard.exclude.mapM parse = .ok exclusions →
      ∀ root₁ root₂ path, isAbsolute root₁ = true → isAbsolute root₂ = true →
        isAbsolute path = false →
        leavesOut exclusions (join root₁ path) = leavesOut exclusions (join root₂ path) := by
  intro h
  have hsame := h _ parse_standard "/vendor/work" "/work" "a.go" (by decide) (by decide) (by decide)
  rw [Bool.eq_iff_iff, leavesOut_join_iff (by decide) (by decide),
    leavesOut_join_iff (by decide) (by decide)] at hsame
  exact absurd hsame (by decide +kernel)

end Exclusion

end LayoutLint
