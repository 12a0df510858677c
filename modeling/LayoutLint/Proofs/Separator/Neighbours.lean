import LayoutLint.Proofs.Separator.SlashRuns
import LayoutLint.Proofs.Text.Between
import Mathlib.Data.List.Chain

/-! # Neighbouring comments

A list of comments is cut into groups between two neighbours. They stay in one group if only blanks
stand between them, with one line feed at most. If code stands before the first comment of their
group, they also have to be on one line. The test looks at the open group as a whole, but only its
first comment and its last one count.
-/

namespace LayoutLint

/-! ## Text around spans -/

namespace Span.Inside

variable {cs : List Char} {s s' : Span}

theorem exists_append (h : s.Inside cs) :
    ∃ pre mid post, cs = pre ++ (mid ++ post) ∧ Text.byteLength pre = s.start ∧
      Text.byteLength (pre ++ mid) = s.stop := by
  obtain ⟨mid, hmid⟩ := Option.isSome_iff_exists.mp h.2
  obtain ⟨pre, post, rfl, hpre⟩ := Text.exists_append_of_slice? hmid
  refine ⟨pre, mid, post, rfl, hpre, ?_⟩
  rw [Text.byteLength_append, hpre, Text.byteLength_of_slice? hmid]

theorem exists_between (h : s.Inside cs) (h' : s'.Inside cs) (hle : s.stop ≤ s'.start) :
    ∃ between, Text.slice? cs s.stop s'.start = some between := by
  obtain ⟨pre, mid, post, rfl, -, hstop⟩ := h.exists_append
  obtain ⟨pre', mid', post', hcs, hstart, -⟩ := h'.exists_append
  rw [← hstop, ← hstart] at hle ⊢
  rw [← List.append_assoc] at hcs ⊢
  obtain ⟨between, rfl⟩ := Text.exists_append_of_byteLength_le hcs hle
  rw [hcs, List.append_assoc (pre ++ mid), Text.byteLength_append (pre ++ mid)]
  exact ⟨between, Text.slice?_append _ _ _⟩

end Span.Inside

namespace Separator

variable {t : SourceText}

/-- Something other than blanks stands before the offset on its line. -/
def CodeAhead (t : SourceText) (offset : Nat) : Prop :=
  ∃ above ahead below, t.chars = above ++ (ahead ++ below) ∧
    Text.byteLength (above ++ ahead) = offset ∧ '\n' ∉ ahead ∧ ∃ c ∈ ahead, Text.isBlank c = false

theorem isAfterCode_iff {s : Span} (hs : s.Inside t.chars) :
    isAfterCode t s.start = true ↔ CodeAhead t s.start := by
  obtain ⟨pre, mid, post, hchars, hstart, -⟩ := hs.exists_append
  obtain ⟨above, ahead, rfl, hahead, hline, hlongest⟩ := SourceText.exists_line_ahead hchars
  have hslice : t.slice (Text.byteLength above) s.start = ahead := by
    rw [SourceText.slice, Text.slice, hchars, ← hstart, Text.byteLength_append, List.append_assoc,
      Text.slice?_append, Option.getD_some]
  rw [hstart] at hline
  simp only [isAfterCode, hline, Option.getD_some, hslice]
  rw [Bool.not_eq_true', Text.allBlank, List.all_eq_false]
  simp only [Bool.not_eq_true]
  constructor
  · intro hcode
    exact ⟨above, ahead, mid ++ post, by rw [hchars, List.append_assoc], hstart, hahead, hcode⟩
  · rintro ⟨above', ahead', below, hchars', hstart', hahead', c, hc, hblank⟩
    have heq : above ++ ahead = above' ++ ahead' := by
      rw [hchars, ← List.append_assoc above'] at hchars'
      obtain ⟨rest, hrest⟩ := Text.exists_append_of_byteLength_le hchars' (by omega)
      have hzero : Text.byteLength rest = 0 := by
        rw [hrest, Text.byteLength_append] at hstart'
        omega
      rw [hrest, Text.eq_nil_of_byteLength_eq_zero hzero, List.append_nil]
    exact ⟨c, (hlongest above' ahead' heq hahead').subset hc, hblank⟩

/-! ## The test -/

/-- The two comments stay in the group that begins with the first one. -/
def Joins (t : SourceText) (first c d : Comment) : Prop :=
  ∃ between, Text.slice? t.chars c.span.stop d.span.start = some between ∧
    (∀ x ∈ between, Text.isBlank x = true) ∧ between.count '\n' ≤ 1 ∧
    (CodeAhead t first.span.start → '\n' ∉ between)

namespace Cluster

def last (k : Cluster) : Comment := k.members.getLast (List.cons_ne_nil _ _)

@[simp] theorem last_push (k : Cluster) (c : Comment) : (k.push c).last = c :=
  List.getLast_append_singleton k.members

theorem mem_last (k : Cluster) : k.last ∈ k.members := List.getLast_mem _

theorem getLast?_members (k : Cluster) : k.members.getLast? = some k.last :=
  List.getLast?_eq_some_getLast _

theorem span_group (t : SourceText) (k : Cluster) :
    (k.group t).span = ⟨k.first.span.start, k.last.span.stop⟩ ∧
      (k.group t).afterCode = isAfterCode t k.first.span.start := by
  obtain ⟨first, rest⟩ := k
  induction rest using List.reverseRecOn with
  | nil => exact ⟨rfl, rfl⟩
  | append_singleton rest c ih =>
    rw [show (⟨first, rest ++ [c]⟩ : Cluster) = push ⟨first, rest⟩ c from rfl, group_push,
      last_push]
    exact ⟨by rw [Group.insert, ih.1]; rfl, ih.2⟩

end Cluster

/-- The comments stand one after the other in the text. -/
structure LaidIn (t : SourceText) (cs : List Comment) : Prop extends InOrder cs where
  inside : ∀ c ∈ cs, c.span.Inside t.chars

theorem InOrder.sublist {cs ds : List Comment} (h : InOrder cs) (hsub : ds.Sublist cs) :
    InOrder ds where
  start_le_stop c hc := h.start_le_stop c (hsub.subset hc)
  ordered := h.ordered.sublist hsub

theorem LaidIn.sublist {cs ds : List Comment} (h : LaidIn t cs) (hsub : ds.Sublist cs) :
    LaidIn t ds where
  toInOrder := h.toInOrder.sublist hsub
  inside c hc := h.inside c (hsub.subset hc)

/-- The group takes the next comment in if that comment joins the last one. -/
theorem LaidIn.accepts_iff {k : Cluster} {d : Comment} {cs : List Comment}
    (h : LaidIn t (k.members ++ d :: cs)) :
    (k.group t).accepts t d = true ↔ Joins t k.first k.last d := by
  have hmember : ∀ c ∈ k.members, c.span.Inside t.chars :=
    fun c hc => h.inside c (List.mem_append_left _ hc)
  have hd : d.span.Inside t.chars := h.inside d (List.mem_append_right _ List.mem_cons_self)
  have hle : k.last.span.stop ≤ d.span.start :=
    (List.pairwise_append.mp h.ordered).2.2 _ k.mem_last _ List.mem_cons_self
  obtain ⟨between, hbetween⟩ := (hmember _ k.mem_last).exists_between hd hle
  obtain ⟨hspan, hafter⟩ := k.span_group t
  have hslice : t.slice k.last.span.stop d.span.start = between := by
    rw [SourceText.slice, Text.slice, hbetween, Option.getD_some]
  have hcount : between.count '\n' ≤ (if isAfterCode t k.first.span.start = true then 0 else 1) ↔
      between.count '\n' ≤ 1 ∧ (CodeAhead t k.first.span.start → '\n' ∉ between) := by
    rw [← isAfterCode_iff (hmember _ List.mem_cons_self), ← List.count_eq_zero]
    split <;> simp_all
  simp only [Group.accepts, hspan, hafter, hslice, Bool.and_eq_true, decide_eq_true_eq,
    Text.allBlank_iff, hcount]
  constructor
  · rintro ⟨hblank, hlines⟩
    exact ⟨between, hbetween, hblank, hlines⟩
  · rintro ⟨between', hbetween', hblank, hlines⟩
    cases hbetween.symm.trans hbetween'
    exact ⟨hblank, hlines⟩

/-! ## Neighbours in one cluster and in two -/

section

variable {k : Cluster} {cs : List Comment}

theorem isChain_members_clustersFrom (h : LaidIn t (k.members ++ cs))
    (hk : k.members.IsChain (Joins t k.first)) :
    ∀ k' ∈ clustersFrom t k cs, k'.members.IsChain (Joins t k'.first) := by
  induction cs generalizing k with
  | nil =>
    intro k' hk'
    rwa [List.mem_singleton.mp hk']
  | cons c cs ih =>
    rw [clustersFrom]
    split
    case isTrue haccepts =>
      apply ih
      · rwa [Cluster.members_push, List.append_assoc, List.singleton_append]
      · refine List.isChain_append.mpr ⟨hk, .singleton c, ?_⟩
        rintro last hlast d ⟨rfl⟩
        rw [k.getLast?_members, Option.mem_some_iff] at hlast
        exact hlast ▸ h.accepts_iff.mp haccepts
    case isFalse =>
      refine List.forall_mem_cons.mpr ⟨hk, ih ?_ (.singleton c)⟩
      exact h.sublist (List.sublist_append_right _ _)

theorem exists_clustersFrom_eq_cons (t : SourceText) (k : Cluster) (cs : List Comment) :
    ∃ k' ks, clustersFrom t k cs = k' :: ks ∧ k'.first = k.first := by
  induction cs generalizing k with
  | nil => exact ⟨k, [], rfl, rfl⟩
  | cons c cs ih =>
    rw [clustersFrom]
    split
    case isTrue => exact ih (k.push c)
    case isFalse => exact ⟨k, _, rfl, rfl⟩

theorem isChain_clustersFrom (h : LaidIn t (k.members ++ cs)) :
    (clustersFrom t k cs).IsChain fun k k' => ¬ Joins t k.first k.last k'.first := by
  induction cs generalizing k with
  | nil => exact .singleton k
  | cons c cs ih =>
    rw [clustersFrom]
    split
    case isTrue =>
      apply ih
      rwa [Cluster.members_push, List.append_assoc, List.singleton_append]
    case isFalse haccepts =>
      have hrest := ih (k := ⟨c, []⟩) (h.sublist (List.sublist_append_right _ _))
      obtain ⟨k', ks, hks, hfirst⟩ := exists_clustersFrom_eq_cons t ⟨c, []⟩ cs
      rw [hks] at hrest ⊢
      refine .cons_cons ?_ hrest
      rw [hfirst]
      exact fun hjoins => haccepts (h.accepts_iff.mpr hjoins)

end

section

variable {k k' : Cluster} {comments : List Comment}

theorem isChain_members (h : LaidIn t comments) (hk : k ∈ clusters t comments) :
    k.members.IsChain (Joins t k.first) := by
  cases comments with
  | nil => cases hk
  | cons c cs => exact isChain_members_clustersFrom h (.singleton c) k hk

theorem isChain_clusters (h : LaidIn t comments) :
    (clusters t comments).IsChain fun k k' => ¬ Joins t k.first k.last k'.first := by
  cases comments with
  | nil => exact .nil
  | cons c cs => exact isChain_clustersFrom h

theorem members_sublist (hk : k ∈ clusters t comments) : k.members.Sublist comments := by
  have hsub := List.sublist_flatten_of_mem (List.mem_map_of_mem (f := Cluster.members) hk)
  rwa [← List.flatMap_def, flatMap_members_clusters] at hsub

theorem within_of_mem_members (h : InOrder comments) (hk : k ∈ clusters t comments) {c : Comment}
    (hc : c ∈ k.members) : k.first.span.start ≤ c.span.start ∧ c.span.stop ≤ k.last.span.stop := by
  have hmembers : InOrder k.members := h.sublist (members_sublist hk)
  have hstops : k.members.Pairwise fun c d => c.span.stop ≤ d.span.stop :=
    pairwise_stop_le Comment.span hmembers.start_le_stop hmembers.ordered
  exact ⟨hmembers.start_le hc, hstops.rel_getLast_of_rel_getLast_getLast hc (Nat.le_refl _)⟩

theorem pairwise_clusters (h : InOrder comments) :
    (clusters t comments).Pairwise fun k k' => k.last.span.stop < k'.first.span.start := by
  have hclear := pairwise_groups (t := t) h
  rw [← map_group_clusters, List.map_map, List.pairwise_map] at hclear
  refine hclear.imp fun {k k'} hkk' => ?_
  simpa only [Function.comp_apply, (k.span_group t).1, (k'.span_group t).1] using hkk'.between

theorem eq_of_mem_members (h : InOrder comments) (hk : k ∈ clusters t comments)
    (hk' : k' ∈ clusters t comments) {c : Comment} (hc : c ∈ k.members) (hc' : c ∈ k'.members) :
    k = k' := by
  have hshared : (clusters t comments).Pairwise fun k k' =>
      c ∈ k.members → c ∈ k'.members → k = k' := by
    refine (pairwise_clusters h).imp_of_mem fun {k k'} hk hk' hlt hc hc' => ?_
    have hstop := (within_of_mem_members h hk hc).2
    have hstart := (within_of_mem_members h hk' hc').1
    have hle := h.start_le_stop c ((members_sublist hk).subset hc)
    omega
  have : Std.Symm fun k k' : Cluster => c ∈ k.members → c ∈ k'.members → k = k' :=
    ⟨fun k k' heq hc' hc => (heq hc hc').symm⟩
  exact hshared.forall_of_forall (fun k _ _ _ => rfl) hk hk' hc hc'

theorem first_notMem_members (h : InOrder comments) (hk : k ∈ clusters t comments)
    (hk' : k' ∈ clusters t comments) (hlt : k.last.span.stop < k'.first.span.start) :
    k'.first ∉ k.members := by
  intro hmem
  have hle := (within_of_mem_members h hk hmem).2
  have hproper := h.start_le_stop k'.first ((members_sublist hk').subset List.mem_cons_self)
  omega

/-- Of two neighbours, the second is in the group of the first exactly if the two are joined. -/
theorem isChain_mem_members_iff (h : LaidIn t comments) :
    comments.IsChain fun c d => ∀ k ∈ clusters t comments, c ∈ k.members →
      (d ∈ k.members ↔ Joins t k.first c d) := by
  suffices hflat : ((clusters t comments).map Cluster.members).flatten.IsChain fun c d =>
      ∀ k ∈ clusters t comments, c ∈ k.members → (d ∈ k.members ↔ Joins t k.first c d) by
    rwa [← List.flatMap_def, flatMap_members_clusters] at hflat
  have hne : [] ∉ (clusters t comments).map Cluster.members := by
    rintro hmem
    obtain ⟨k, -, hnil⟩ := List.mem_map.mp hmem
    cases hnil
  refine (List.isChain_flatten hne).mpr ⟨?_, ?_⟩
  · -- Neighbours within a cluster are joined.
    rintro l hl
    obtain ⟨k, hk, rfl⟩ := List.mem_map.mp hl
    refine (isChain_members h hk).imp_of_mem_imp fun c d hc hd hjoins k' hk' hc' => ?_
    obtain rfl := eq_of_mem_members h.toInOrder hk hk' hc hc'
    exact iff_of_true hd hjoins
  · -- The last comment of a cluster and the first of the next are not.
    refine (List.isChain_map _).mpr (List.isChain_iff_forall_rel_of_append_cons_cons.mpr ?_)
    rintro k k' above below heq c hc d ⟨rfl⟩ k'' hk'' hc''
    have hnot := List.isChain_iff_forall_rel_of_append_cons_cons.mp (isChain_clusters h) heq
    have hlt := List.isChain_iff_forall_rel_of_append_cons_cons.mp
      (pairwise_clusters h.toInOrder).isChain heq
    have hk : k ∈ clusters t comments := by simp [heq]
    have hk' : k' ∈ clusters t comments := by simp [heq]
    rw [k.getLast?_members, Option.mem_some_iff] at hc
    subst hc
    obtain rfl := eq_of_mem_members h.toInOrder hk hk'' k.mem_last hc''
    exact iff_of_false (first_notMem_members h.toInOrder hk hk' hlt) hnot

end

/-- Groups of comments in order cut their list into pieces, and each runs from its first comment to
its last with the texts of all. Of two neighbours, the second is in the group of the first exactly
if they are joined. The groups stand apart in the order of the text, and the separators are those
with the token, as they come. -/
theorem groups_cut_comments (t : SourceText) (comments : List Comment) (h : LaidIn t comments) :
    (clusters t comments).flatMap Cluster.members = comments ∧
      (clusters t comments).map (Cluster.group t) = groups t comments ∧
      (∀ k ∈ clusters t comments,
        (k.group t).span = ⟨k.first.span.start, k.last.span.stop⟩ ∧
          (k.group t).text = k.members.flatMap (·.text.toList)) ∧
      (comments.IsChain fun c d => ∀ k ∈ clusters t comments, c ∈ k.members →
        (d ∈ k.members ↔ Joins t k.first c d)) ∧
      ((groups t comments).map Group.span).Pairwise Clear ∧
      ∀ o, (separators t o comments).Pairwise Clear ∧
        separators t o comments =
          ((groups t comments).filter fun g =>
            containsText o.token.toList g.text).map Group.span := by
  refine ⟨flatMap_members_clusters comments, map_group_clusters t comments, ?_,
    isChain_mem_members_iff h, pairwise_groups h.toInOrder, fun o => ?_⟩
  · intro k _
    exact ⟨(k.span_group t).1, k.text_group t⟩
  · exact ⟨pairwise_separators h.toInOrder o, separators_eq h.toInOrder o⟩

def annotatedText : SourceText := { chars := "// a\n// b\nvar x // c\n// d\n".toList }

def annotatedComments : List Comment :=
  [⟨⟨0, 4⟩, "// a"⟩, ⟨⟨5, 9⟩, "// b"⟩, ⟨⟨16, 20⟩, "// c"⟩, ⟨⟨21, 25⟩, "// d"⟩]

theorem groups_cut_comments_annotated :
    LaidIn annotatedText annotatedComments ∧
      (groups annotatedText annotatedComments).map Group.span = [⟨0, 9⟩, ⟨16, 20⟩, ⟨21, 25⟩] ∧
      Joins annotatedText ⟨⟨0, 4⟩, "// a"⟩ ⟨⟨0, 4⟩, "// a"⟩ ⟨⟨5, 9⟩, "// b"⟩ ∧
      ¬ Joins annotatedText ⟨⟨16, 20⟩, "// c"⟩ ⟨⟨16, 20⟩, "// c"⟩ ⟨⟨21, 25⟩, "// d"⟩ := by
  have hlaid : LaidIn annotatedText annotatedComments := by
    refine ⟨⟨by decide, by decide⟩, ?_⟩
    unfold Span.Inside
    decide +kernel
  have hab : (⟨⟨⟨0, 4⟩, "// a"⟩, [⟨⟨5, 9⟩, "// b"⟩]⟩ : Cluster) ∈
      clusters annotatedText annotatedComments := by decide +kernel
  have hc : (⟨⟨⟨16, 20⟩, "// c"⟩, []⟩ : Cluster) ∈ clusters annotatedText annotatedComments := by
    decide +kernel
  obtain ⟨-, -, -, hchain, -⟩ := groups_cut_comments annotatedText annotatedComments hlaid
  have hpair := List.isChain_iff_forall_rel_of_append_cons_cons.mp hchain
  refine ⟨hlaid, by decide +kernel, ?_, ?_⟩
  · have hiff := hpair (show annotatedComments = [] ++ _ :: _ :: _ from rfl) _ hab (by decide)
    exact hiff.mp (by decide)
  · have hiff := hpair (show annotatedComments = [_, _] ++ _ :: _ :: _ from rfl) _ hc (by decide)
    exact fun hjoins => absurd (hiff.mpr hjoins) (by decide)

end Separator

end LayoutLint
