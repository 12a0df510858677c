import LayoutLint.Proofs.Outline.WellFormed
import LayoutLint.Proofs.Separator.Ends

/-! # The comments of a group

A group keeps the text of its comments but not the comments themselves. A cluster does: it is the
comments of one group, and the clusters of a list of comments cut that list into pieces. Groups of
comments that stand one after the other never touch.
-/

namespace LayoutLint.Separator

/-- The comments of a group, of which there is at least one. -/
structure Cluster where
  first : Comment
  rest : List Comment
  deriving DecidableEq, Repr

variable (t : SourceText)

namespace Cluster

def members (k : Cluster) : List Comment := k.first :: k.rest

def group (k : Cluster) : Group := k.rest.foldl Group.insert (Group.single t k.first)

def push (k : Cluster) (c : Comment) : Cluster := ⟨k.first, k.rest ++ [c]⟩

@[simp] theorem members_push (k : Cluster) (c : Comment) :
    (k.push c).members = k.members ++ [c] := rfl

@[simp] theorem group_push (k : Cluster) (c : Comment) :
    (k.push c).group t = (k.group t).insert c := by
  simp only [group, push, List.foldl_append, List.foldl_cons, List.foldl_nil]

theorem text_group (k : Cluster) : (k.group t).text = k.members.flatMap (·.text.toList) := by
  have hinsert : ∀ (cs : List Comment) (g : Group),
      (cs.foldl Group.insert g).text = g.text ++ cs.flatMap (·.text.toList) := by
    intro cs
    induction cs with
    | nil => simp
    | cons c cs ih => simp [ih, Group.insert]
  rw [group, hinsert, members, List.flatMap_cons]
  rfl

end Cluster

def clustersFrom (k : Cluster) : List Comment → List Cluster
  | [] => [k]
  | c :: cs =>
    if (k.group t).accepts t c then clustersFrom (k.push c) cs else k :: clustersFrom ⟨c, []⟩ cs

def clusters : List Comment → List Cluster
  | [] => []
  | c :: cs => clustersFrom t ⟨c, []⟩ cs

theorem map_group_clustersFrom (k : Cluster) (cs : List Comment) :
    (clustersFrom t k cs).map (Cluster.group t) = groupsFrom t (k.group t) cs := by
  induction cs generalizing k with
  | nil => rfl
  | cons c cs ih =>
    rw [clustersFrom, groupsFrom]
    split
    case isTrue => rw [ih, Cluster.group_push]
    case isFalse =>
      rw [List.map_cons, ih]
      rfl

theorem map_group_clusters (cs : List Comment) :
    (clusters t cs).map (Cluster.group t) = groups t cs := by
  cases cs with
  | nil => rfl
  | cons c cs => exact map_group_clustersFrom t ⟨c, []⟩ cs

/-! ## Groups of comments in order -/

/-- The comments stand one after the other. -/
structure InOrder (cs : List Comment) : Prop where
  start_le_stop : ∀ c ∈ cs, c.span.start ≤ c.span.stop
  ordered : cs.Pairwise fun c d => c.span.Precedes d.span

variable {t} {g : Group} {c : Comment} {cs : List Comment}

theorem InOrder.tail (h : InOrder (c :: cs)) : InOrder cs :=
  ⟨fun d hd => h.start_le_stop d (List.mem_cons_of_mem c hd), (List.pairwise_cons.mp h.ordered).2⟩

theorem InOrder.stop_le (h : InOrder (c :: cs)) {d : Comment} (hd : d ∈ cs) :
    c.span.stop ≤ d.span.start := (List.pairwise_cons.mp h.ordered).1 d hd

theorem InOrder.start_le (h : InOrder (c :: cs)) {d : Comment} (hd : d ∈ c :: cs) :
    c.span.start ≤ d.span.start := by
  rcases List.mem_cons.mp hd with rfl | hd
  · exact Nat.le_refl _
  · exact Nat.le_trans (h.start_le_stop c List.mem_cons_self) (h.stop_le hd)

theorem accepts_of_stop_eq (h : g.span.stop = c.span.start) : g.accepts t c = true := by
  have hslice : t.slice g.span.stop c.span.start = [] := by
    rw [h, SourceText.slice, Text.slice, Text.slice?, if_pos (Nat.le_refl _), Nat.sub_self]
    cases hdrop : Text.dropBytes c.span.start t.chars with
    | none => rfl
    | some cs => cases cs <;> rfl
  rw [Group.accepts, hslice]
  simp [Text.allBlank]

theorem start_le_stop_of_mem_groupsFrom (hg : g.span.start ≤ g.span.stop)
    (hcs : InOrder cs) (hle : ∀ c ∈ cs, g.span.stop ≤ c.span.start) :
    ∀ g' ∈ groupsFrom t g cs, g'.span.start ≤ g'.span.stop := by
  induction cs generalizing g with
  | nil =>
    intro g' hg'
    rwa [List.mem_singleton.mp hg']
  | cons c cs ih =>
    have hc := hcs.start_le_stop c List.mem_cons_self
    rw [groupsFrom]
    split
    case isTrue =>
      refine ih ?_ hcs.tail fun d hd => hcs.stop_le hd
      exact Nat.le_trans (Nat.le_trans hg (hle c List.mem_cons_self)) hc
    case isFalse => exact List.forall_mem_cons.mpr ⟨hg, ih hc hcs.tail fun d hd => hcs.stop_le hd⟩

/-- A group that is closed ends before the comment it did not accept. -/
theorem pairwise_groupsFrom (hcs : InOrder cs) (hle : ∀ c ∈ cs, g.span.stop ≤ c.span.start) :
    (groupsFrom t g cs).Pairwise fun a b => a.span.stop < b.span.start := by
  induction cs generalizing g with
  | nil => exact List.pairwise_singleton _ _
  | cons c cs ih =>
    have hnext : ∀ d ∈ cs, c.span.stop ≤ d.span.start := fun d hd => hcs.stop_le hd
    rw [groupsFrom]
    split
    case isTrue => exact ih hcs.tail hnext
    case isFalse haccepts =>
      have hlt : g.span.stop < c.span.start := by
        refine Nat.lt_of_le_of_ne (hle c List.mem_cons_self) fun heq => haccepts ?_
        exact accepts_of_stop_eq heq
      refine List.pairwise_cons.mpr ⟨fun b hb => ?_, ih hcs.tail hnext⟩
      have hends := ends_of_mem_groupsFrom (P := (g.span.stop < ·)) (Q := fun _ => True)
        ⟨hlt, trivial⟩ (fun d hd => ⟨?_, trivial⟩) b hb
      · exact hends.1
      · exact Nat.lt_of_lt_of_le hlt (hcs.start_le (List.mem_cons_of_mem c hd))

/-- The span ends before the other starts, and neither is reversed. -/
structure Clear (a b : Span) : Prop where
  left : a.start ≤ a.stop
  between : a.stop < b.start
  right : b.start ≤ b.stop

theorem pairwise_groups (hcs : InOrder cs) :
    ((groups t cs).map Group.span).Pairwise Clear := by
  cases cs with
  | nil => exact .nil
  | cons c cs =>
    have hc := hcs.start_le_stop c List.mem_cons_self
    have hnext : ∀ d ∈ cs, c.span.stop ≤ d.span.start := fun d hd => hcs.stop_le hd
    have hstart :=
      start_le_stop_of_mem_groupsFrom (t := t) (g := Group.single t c) hc hcs.tail hnext
    have hapart := pairwise_groupsFrom (t := t) (g := Group.single t c) hcs.tail hnext
    refine List.pairwise_map.mpr (hapart.imp_of_mem fun ha hb hab => ?_)
    exact ⟨hstart _ ha, hab, hstart _ hb⟩

theorem separators_eq (hcs : InOrder cs) (o : Options) :
    separators t o cs =
      ((groups t cs).filter fun g => containsText o.token.toList g.text).map Group.span := by
  rw [separators]
  refine List.mergeSort_of_pairwise ?_
  have hsub : (((groups t cs).filter fun g => containsText o.token.toList g.text).map
      Group.span).Pairwise Clear :=
    (pairwise_groups hcs).sublist (List.filter_sublist.map _)
  refine hsub.imp fun h => Span.le_iff.mpr (.inl ?_)
  exact Nat.lt_of_le_of_lt h.left h.between

theorem pairwise_separators (hcs : InOrder cs) (o : Options) :
    (separators t o cs).Pairwise Clear := by
  rw [separators_eq hcs]
  exact (pairwise_groups hcs).sublist (List.filter_sublist.map _)

end LayoutLint.Separator
