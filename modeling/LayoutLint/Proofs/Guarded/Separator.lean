import LayoutLint.Guarded.Separator
import LayoutLint.Proofs.Guarded.Basic
import LayoutLint.Proofs.Separator.Bucket
import LayoutLint.Proofs.Separator.Ends
import LayoutLint.Proofs.Separator.Partition
import Mathlib.Data.List.TakeWhile

/-! # Separators without a stop

A separator starts where a comment starts, there are no more separators than comments, and a
declaration comes after at most all of them.
-/

namespace LayoutLint.Guarded.Separator

open LayoutLint.Separator

variable (t : SourceText)

/-! ## Groups -/

theorem single_ok (c : Comment) : single t c = .ok (Group.single t c) := by
  rw [single, isAfterCode, lineOf_ok]
  rfl

section

variable {t} (ht : t.size < capacity)
include ht

theorem accepts_ok (g : Group) (c : Comment) : accepts t g c = .ok (g.accepts t c) := by
  have hbetween : ((t.slice g.span.stop c.span.start).filter (· == '\n')).length ≤ t.size := by
    calc ((t.slice g.span.stop c.span.start).filter (· == '\n')).length
      _ ≤ (t.slice g.span.stop c.span.start).length := List.length_filter_le _ _
      _ ≤ t.chars.length := Text.length_slice_le _ _ _
      _ ≤ t.size := t.size_eq ▸ Text.length_le_byteLength t.chars
  have hword : t.size < Word.count := Nat.lt_trans ht (by decide)
  rw [accepts, tally_ok (Nat.lt_of_le_of_lt hbetween hword), ok_bind,
    ← List.countP_eq_length_filter]
  rfl

theorem groupsFrom_ok (g : Group) (cs : List Comment) :
    groupsFrom t g cs = .ok (LayoutLint.Separator.groupsFrom t g cs) := by
  induction cs generalizing g with
  | nil => rfl
  | cons c cs ih =>
    rw [groupsFrom, accepts_ok ht, ok_bind, LayoutLint.Separator.groupsFrom]
    split
    case isTrue => exact ih (g.insert c)
    case isFalse =>
      rw [single_ok, ok_bind, ih]
      rfl

theorem groups_ok (cs : List Comment) :
    groups t cs = .ok (LayoutLint.Separator.groups t cs) := by
  cases cs with
  | nil => rfl
  | cons c cs =>
    rw [groups, single_ok, ok_bind, groupsFrom_ok ht]
    rfl

theorem separators_ok {options : Options} (hw : options.width < capacity) (cs : List Comment) :
    separators t options cs = .ok (LayoutLint.Separator.separators t options cs) := by
  have htoken : token options = .ok options.token := if_pos hw
  rw [separators, htoken, ok_bind, groups_ok ht]
  rfl

end

theorem start_lt_of_mem_separators {options : Options} {cs : List Comment}
    (hcs : ∀ c ∈ cs, c.span.start + 1 < Word.count) :
    ∀ s ∈ LayoutLint.Separator.separators t options cs, s.start + 1 < Word.count := by
  intro s hs
  exact (ends_of_mem_separators (P := (· + 1 < Word.count)) (Q := fun _ => True)
    (fun c hc => ⟨hcs c hc, trivial⟩) s hs).1

theorem length_groupsFrom_le (g : Group) (cs : List Comment) :
    (LayoutLint.Separator.groupsFrom t g cs).length ≤ cs.length + 1 := by
  induction cs generalizing g with
  | nil => exact Nat.le_refl 1
  | cons c cs ih =>
    rw [LayoutLint.Separator.groupsFrom, List.length_cons]
    split
    case isTrue => exact Nat.le_succ_of_le (ih (g.insert c))
    case isFalse => exact Nat.succ_le_succ (ih (Group.single t c))

theorem length_separators_le (options : Options) (cs : List Comment) :
    (LayoutLint.Separator.separators t options cs).length ≤ cs.length := by
  rw [LayoutLint.Separator.separators, List.length_mergeSort, List.length_map]
  refine Nat.le_trans (List.length_filter_le _ _) ?_
  cases cs with
  | nil => exact Nat.le_refl 0
  | cons c cs => exact length_groupsFrom_le t (Group.single t c) cs

/-! ## Lines -/

theorem lines_ok {s : Span} (hs : s.start + 1 < Word.count) :
    lines t s = .ok (firstLine t s, lastLine t s) := by
  have hpos : 0 < max s.stop (s.start + 1) :=
    Nat.lt_of_lt_of_le s.start.succ_pos (Nat.le_max_right _ _)
  rw [lines, add_ok hs, ok_bind, sub_ok hpos, ok_bind, lineOf_ok, ok_bind, lineOf_ok]
  rfl

theorem isMultiline_ok {s : Span} (hs : s.start + 1 < Word.count) :
    isMultiline t s = .ok (LayoutLint.Separator.isMultiline t s) := by
  rw [isMultiline, lines_ok t hs]
  rfl

theorem isOverCode_ok {decls : List Decl} {s : Span} (hs : s.start + 1 < Word.count)
    (hdecls : ∀ d ∈ decls, d.span.start + 1 < Word.count) :
    isOverCode t decls s = .ok (decls.any fun d => shareLine t s d.span) := by
  rw [isOverCode, lines_ok t hs, ok_bind]
  refine any_ok fun d hd => ?_
  rw [lines_ok t (hdecls d hd)]
  rfl

section

variable {t} (ht : t.size < capacity)
include ht

theorem isSpaced_ok {s : Span} (hs : s.start + 1 < Word.count) :
    isSpaced t s = .ok (LayoutLint.Separator.isSpaced t s) := by
  have hfirst : firstLine t s ≤ capacity := lineAt_le_capacity ht _
  have hlast : lastLine t s ≤ capacity := lineAt_le_capacity ht _
  have hcapacity : capacity + 1 < Word.count := by decide
  rw [isSpaced, lines_ok t hs, ok_bind]
  simp only [blankLinesBefore_ok t (by omega : firstLine t s < Word.count),
    blankLinesAfter_ok (size_lt_count ht) (by omega : lastLine t s + 1 < Word.count), ok_bind]
  rfl

end

/-! ## Sections -/

theorem windows_ok (decls : List Decl) (ss : List Span) :
    ((windows ss).mapM fun pair => do
      return emptySection? decls (← get pair 0) (← get pair 1) : Run _) =
      .ok ((ss.zip ss.tail).map fun p => emptySection? decls p.1 p.2) := by
  induction ss with
  | nil => rfl
  | cons x ss ih =>
    cases ss with
    | nil => rfl
    | cons y rest =>
      rw [windows, List.mapM_cons, ih]
      rfl

theorem emptySectionFindings_ok (l : Layout) :
    emptySectionFindings l = .ok (LayoutLint.Separator.emptySectionFindings l) := by
  rw [emptySectionFindings, windows_ok, ok_bind, List.filterMap_map]
  rfl

theorem packageFindings_ok {t : SourceText} (ht : t.size < capacity) (l : Layout) :
    packageFindings t l = .ok (LayoutLint.Separator.packageFindings t l) := by
  have hexpected := add_lineAt_ok ht l.package.start (Nat.le_refl 2)
  rw [packageFindings, LayoutLint.Separator.packageFindings]
  cases l.imports.isEmpty with
  | false => rfl
  | true =>
    simp only [lineOf_ok, ok_bind, hexpected, if_true, Bool.true_and]
    cases l.separators.head? with
    | none => rfl
    | some s =>
      by_cases hline : t.lineAt s.start = t.lineAt l.package.start + 2
      · simp [firstLine, hline]
      · simp [firstLine, hline]

/-! ## Buckets -/

theorem place_ok {separators : List Span} {buckets : List (List Decl)}
    (hseps : separators.length < Word.count) (hlen : buckets.length = separators.length + 1)
    (d : Decl) :
    place separators buckets d = .ok (LayoutLint.Separator.place separators buckets d) := by
  have hindex := bucketIndex_le separators d.span.start
  have htally : tally (separators.filter (·.stop ≤ d.span.start)) =
      .ok (bucketIndex separators d.span.start) := by
    have hle := List.length_filter_le (fun s : Span => decide (s.stop ≤ d.span.start)) separators
    rw [tally_ok (Nat.lt_of_le_of_lt hle hseps), bucketIndex, List.countP_eq_length_filter]
  rw [place, htally, ok_bind, push, if_pos (by omega), LayoutLint.Separator.place]

theorem foldlM_place_ok {separators : List Span} {buckets : List (List Decl)}
    (hseps : separators.length < Word.count) (hlen : buckets.length = separators.length + 1)
    (decls : List Decl) :
    decls.foldlM (place separators) buckets =
      .ok (decls.foldl (LayoutLint.Separator.place separators) buckets) := by
  induction decls generalizing buckets with
  | nil => rfl
  | cons d decls ih =>
    rw [List.foldlM_cons, place_ok hseps hlen, ok_bind, ih (by rw [length_place, hlen]),
      List.foldl_cons]

theorem partition_ok {separators : List Span} (hseps : separators.length < capacity)
    (decls : List Decl) :
    partition separators decls = .ok (LayoutLint.Separator.partition separators decls) := by
  have hword : separators.length < Word.count := Nat.lt_trans hseps (by decide)
  rw [partition, add_ok_of_le_capacity (Nat.le_of_lt hseps) (by decide), ok_bind,
    foldlM_place_ok hword List.length_replicate, partition_eq_foldl]

/-! ## What a bucket holds -/

variable (testPrefixes : List String)

theorem fromFirst_ok {α : Type} (p : α → Bool) (xs : List α) :
    fromFirst (fun x => !p x) xs = .ok (xs.dropWhile p) := by
  rw [fromFirst]
  split
  case h_1 hnone =>
    have hall : ∀ x ∈ xs, p x = true := by simpa using List.findIdx?_eq_none_iff.mp hnone
    rw [List.dropWhile_eq_nil_iff.mpr hall, pure_eq_ok]
  case h_2 i hsome =>
    obtain ⟨hlt, hindex⟩ := List.findIdx?_eq_some_iff_findIdx_eq.mp hsome
    rw [dropFirst_ok (Nat.le_of_lt hlt), List.dropWhile_eq_drop_findIdx_not, hindex]

theorem visibilityFindings_ok (fs : List FuncDecl) :
    visibilityFindings testPrefixes fs =
      .ok (LayoutLint.Separator.visibilityFindings testPrefixes fs) := by
  cases fs with
  | nil => rfl
  | cons first fs =>
    rw [visibilityFindings]
    simp only [fromFirst_ok, ok_bind]
    rfl

theorem bucketFindings_ok (bucket : List Decl) :
    bucketFindings testPrefixes bucket =
      .ok (if bucket.isEmpty then []
        else LayoutLint.Separator.bucketFindings testPrefixes bucket) := by
  rw [bucketFindings]
  split
  · rfl
  · split
    case isTrue hkinds =>
      simp only [visibilityFindings_ok, ok_bind, pure_eq_ok]
      rw [LayoutLint.Separator.bucketFindings, kindFindings_of_func hkinds, functionFindings,
        List.append_assoc, List.append_assoc, List.append_assoc]
    case isFalse => rfl

/-! ## The check -/

theorem about_ok {l : Layout} {bad : Span → Run Bool} {isBad : Span → Bool}
    (h : ∀ s ∈ l.separators, bad s = .ok (isBad s)) (message : String) :
    about l bad message =
      .ok ((l.separators.filter isBad).map fun s => ⟨s, message, none⟩) := by
  rw [about, filter_ok h]
  rfl

variable {t} (ht : t.size < capacity)
include ht

theorem layoutFindings_ok {l : Layout} (hn : l.separators.length < capacity)
    (hseps : ∀ s ∈ l.separators, s.start + 1 < Word.count)
    (hdecls : ∀ d ∈ l.decls, d.span.start + 1 < Word.count) :
    layoutFindings t testPrefixes l =
      .ok (LayoutLint.Separator.layoutFindings t testPrefixes l) := by
  have hspaced : ∀ s ∈ l.separators,
      (do return !(← isSpaced t s) : Run Bool) = .ok (!LayoutLint.Separator.isSpaced t s) := by
    intro s hs
    rw [isSpaced_ok ht (hseps s hs)]
    rfl
  rw [layoutFindings, about_ok fun s hs => isMultiline_ok t (hseps s hs), ok_bind,
    about_ok fun s hs => isOverCode_ok t (hseps s hs) hdecls, ok_bind, about_ok hspaced, ok_bind,
    emptySectionFindings_ok, ok_bind, packageFindings_ok ht, ok_bind, partition_ok hn, ok_bind,
    mapM_ok fun bucket _ => bucketFindings_ok testPrefixes bucket, ok_bind, ← List.flatMap_def]
  rfl

theorem findings_ok {options : Options} {o : Outline} (hw : options.width < capacity)
    (hn : o.comments.length < capacity)
    (hcomments : ∀ c ∈ o.comments, c.span.start + 1 < Word.count)
    (hdecls : ∀ d ∈ o.decls, d.span.start + 1 < Word.count) :
    findings t options o = .ok (LayoutLint.Separator.findings t options o) := by
  rw [findings, separators_ok ht hw, ok_bind]
  refine layoutFindings_ok options.testPrefixes ht ?_ (start_lt_of_mem_separators t hcomments) ?_
  · exact Nat.lt_of_le_of_lt (length_separators_le t options o.comments) hn
  · intro d hd
    exact hdecls d (List.mem_mergeSort.mp hd)

end LayoutLint.Guarded.Separator
