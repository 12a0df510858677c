import LayoutLint.Proofs.Separator.Clusters
import Mathlib.Data.List.Nodup

/-! # Runs of slashes in a group

A group is a separator if its text holds enough slashes in a row. The texts of its comments stand in
that text without anything between them, so the slashes may come from one comment, or from the end
of a comment and the start of a later one with nothing but slashes between the two.
-/

namespace LayoutLint.Separator

/-! ## Slashes at the ends of a text -/

def slashesAhead (cs : List Char) : Nat := (cs.takeWhile (· = '/')).length

def slashesBehind (cs : List Char) : Nat := slashesAhead cs.reverse

theorem replicate_isPrefix_iff {n : Nat} {cs : List Char} :
    List.replicate n '/' <+: cs ↔ n ≤ slashesAhead cs := by
  induction cs generalizing n with
  | nil => simp [slashesAhead]
  | cons c cs ih =>
    cases n with
    | zero => simp
    | succ n =>
      by_cases hc : c = '/'
      · subst hc
        rw [List.replicate_succ, List.cons_prefix_cons, ih]
        simp [slashesAhead]
      · simp [List.replicate_succ, slashesAhead, hc, Ne.symm hc]

theorem replicate_isSuffix_iff {n : Nat} {cs : List Char} :
    List.replicate n '/' <:+ cs ↔ n ≤ slashesBehind cs := by
  rw [← List.reverse_prefix, List.reverse_replicate, replicate_isPrefix_iff, slashesBehind]

theorem replicate_isInfix_append_iff {w : Nat} {as bs : List Char} :
    List.replicate w '/' <:+: as ++ bs ↔
      List.replicate w '/' <:+: as ∨ List.replicate w '/' <:+: bs ∨
        w ≤ slashesBehind as + slashesAhead bs := by
  have hsplit : (∃ l₁ l₂, List.replicate w '/' = l₁ ++ l₂ ∧ l₁ <:+ as ∧ l₂ <+: bs) ↔
      w ≤ slashesBehind as + slashesAhead bs := by
    constructor
    · rintro ⟨l₁, l₂, h, h₁, h₂⟩
      obtain ⟨hlength, hl₁, hl₂⟩ := List.append_eq_replicate_iff.mp h.symm
      rw [hl₁, replicate_isSuffix_iff] at h₁
      rw [hl₂, replicate_isPrefix_iff] at h₂
      omega
    · intro h
      refine ⟨List.replicate (min w (slashesBehind as)) '/',
        List.replicate (w - slashesBehind as) '/', ?_, ?_, ?_⟩
      · rw [List.replicate_append_replicate]
        congr 1
        omega
      · exact replicate_isSuffix_iff.mpr (Nat.min_le_right _ _)
      · exact replicate_isPrefix_iff.mpr (by omega)
  rw [List.infix_append_iff, hsplit]

theorem slashesAhead_append_of_forall {as : List Char} (h : ∀ a ∈ as, a = '/') (bs : List Char) :
    slashesAhead (as ++ bs) = as.length + slashesAhead bs := by
  rw [slashesAhead, List.takeWhile_append_of_pos (by simpa using h), List.length_append,
    slashesAhead]

theorem slashesAhead_append_of_not_forall {as : List Char} (h : ¬ ∀ a ∈ as, a = '/')
    (bs : List Char) : slashesAhead (as ++ bs) = slashesAhead as := by
  induction as with
  | nil => simp at h
  | cons a as ih =>
    by_cases ha : a = '/'
    · have has : ¬ ∀ a ∈ as, a = '/' := fun hall => h (List.forall_mem_cons.mpr ⟨ha, hall⟩)
      have heq := ih has
      simp only [slashesAhead] at heq
      simp [slashesAhead, ha, heq]
    · simp [slashesAhead, ha]

/-! ## Runs over several texts -/

/-- The slashes at the end of one text, those of the texts of slashes only right after it and those
at the start of the next text are at least `w` in number. -/
def RunsAcross (w : Nat) (texts : List (List Char)) : Prop :=
  ∃ above first between last below, texts = above ++ first :: (between ++ last :: below) ∧
    (∀ cs ∈ between, ∀ c ∈ cs, c = '/') ∧
    w ≤ slashesBehind first + between.flatten.length + slashesAhead last

/-- The slashes of the first texts and those at the start of the next one are at least `w` in
number, with `n` that come before. -/
def Continues (w n : Nat) (texts : List (List Char)) : Prop :=
  ∃ between last below, texts = between ++ last :: below ∧
    (∀ cs ∈ between, ∀ c ∈ cs, c = '/') ∧ w ≤ n + between.flatten.length + slashesAhead last

@[simp] theorem not_continues_nil {w n : Nat} : ¬ Continues w n [] := by simp [Continues]

@[simp] theorem not_runsAcross_nil {w : Nat} : ¬ RunsAcross w [] := by simp [RunsAcross]

theorem runsAcross_cons_iff {w : Nat} {cs : List Char} {texts : List (List Char)} :
    RunsAcross w (cs :: texts) ↔ Continues w (slashesBehind cs) texts ∨ RunsAcross w texts := by
  constructor
  · rintro ⟨above, first, between, last, below, heq, hbetween, hw⟩
    cases above with
    | nil =>
      obtain ⟨rfl, rfl⟩ := List.cons.inj heq
      exact .inl ⟨between, last, below, rfl, hbetween, hw⟩
    | cons ds above =>
      obtain ⟨rfl, rfl⟩ := List.cons.inj heq
      exact .inr ⟨above, first, between, last, below, rfl, hbetween, hw⟩
  · rintro (⟨between, last, below, rfl, hbetween, hw⟩ |
      ⟨above, first, between, last, below, rfl, hbetween, hw⟩)
    · exact ⟨[], cs, between, last, below, rfl, hbetween, hw⟩
    · exact ⟨cs :: above, first, between, last, below, rfl, hbetween, hw⟩

theorem continues_cons_iff {w n : Nat} {cs : List Char} {texts : List (List Char)} :
    Continues w n (cs :: texts) ↔
      w ≤ n + slashesAhead cs ∨ (∀ c ∈ cs, c = '/') ∧ Continues w (n + cs.length) texts := by
  constructor
  · rintro ⟨between, last, below, heq, hbetween, hw⟩
    cases between with
    | nil =>
      obtain ⟨rfl, rfl⟩ := List.cons.inj heq
      exact .inl hw
    | cons ds between =>
      obtain ⟨rfl, rfl⟩ := List.cons.inj heq
      obtain ⟨hcs, hbetween⟩ := List.forall_mem_cons.mp hbetween
      rw [List.flatten_cons, List.length_append] at hw
      exact .inr ⟨hcs, between, last, below, rfl, hbetween, by omega⟩
  · rintro (hw | ⟨hcs, between, last, below, rfl, hbetween, hw⟩)
    · exact ⟨[], cs, texts, rfl, by simp, hw⟩
    · refine ⟨cs :: between, last, below, rfl, List.forall_mem_cons.mpr ⟨hcs, hbetween⟩, ?_⟩
      rw [List.flatten_cons, List.length_append]
      omega

/-- Where `n` slashes are not enough, those at the start of the joined texts continue them. -/
theorem le_add_slashesAhead_flatten_iff {w n : Nat} {texts : List (List Char)} :
    w ≤ n + slashesAhead texts.flatten ↔ w ≤ n ∨ Continues w n texts := by
  induction texts generalizing n with
  | nil => simp [slashesAhead]
  | cons cs texts ih =>
    rw [List.flatten_cons, continues_cons_iff]
    by_cases hcs : ∀ c ∈ cs, c = '/'
    · have hlength : slashesAhead cs = cs.length := by
        simpa [slashesAhead] using slashesAhead_append_of_forall hcs []
      rw [slashesAhead_append_of_forall hcs, ← Nat.add_assoc, ih, hlength]
      have hle : w ≤ n → w ≤ n + cs.length := fun h => by omega
      tauto
    · rw [slashesAhead_append_of_not_forall hcs]
      have hle : w ≤ n → w ≤ n + slashesAhead cs := fun h => by omega
      tauto

theorem replicate_isInfix_flatten_iff {w : Nat} {texts : List (List Char)} (hne : texts ≠ []) :
    List.replicate w '/' <:+: texts.flatten ↔
      (∃ cs ∈ texts, List.replicate w '/' <:+: cs) ∨ RunsAcross w texts := by
  induction texts with
  | nil => exact absurd rfl hne
  | cons cs texts ih =>
    cases texts with
    | nil =>
      simp only [List.flatten_singleton, List.mem_singleton, exists_eq_left, runsAcross_cons_iff,
        not_continues_nil, not_runsAcross_nil, or_self, or_false]
    | cons ds texts =>
      have hend : w ≤ slashesBehind cs → List.replicate w '/' <:+: cs := fun h =>
        (replicate_isSuffix_iff.mpr h).isInfix
      rw [List.flatten_cons, replicate_isInfix_append_iff, le_add_slashesAhead_flatten_iff,
        runsAcross_cons_iff, List.exists_mem_cons_iff, ih (List.cons_ne_nil ds texts)]
      constructor
      · rintro (h | (h | h) | h | h)
        · exact .inl (.inl h)
        · exact .inl (.inr h)
        · exact .inr (.inr h)
        · exact .inl (.inl (hend h))
        · exact .inr (.inl h)
      · rintro ((h | h) | h | h)
        · exact .inl h
        · exact .inr (.inl (.inl h))
        · exact .inr (.inr (.inr h))
        · exact .inr (.inl (.inr h))

/-! ## Groups with a run -/

theorem containsText_iff {p cs : List Char} : containsText p cs = true ↔ p <:+: cs := by
  induction cs with
  | nil => rw [containsText, List.isEmpty_iff, List.infix_nil]
  | cons c cs ih =>
    rw [containsText, Bool.or_eq_true, ih, List.isPrefixOf_iff_prefix, List.infix_cons_iff]

variable {t : SourceText} {comments : List Comment}

theorem nodup_map_span_groups (hcs : InOrder comments) :
    ((groups t comments).map Group.span).Nodup := by
  refine (pairwise_groups hcs).imp fun {a b} h => ?_
  rintro rfl
  exact Nat.lt_irrefl _ (Nat.lt_of_le_of_lt h.left h.between)

theorem span_mem_separators {g : Group} (hcs : InOrder comments) (o : Options)
    (hg : g ∈ groups t comments) :
    g.span ∈ separators t o comments ↔ containsText o.token.toList g.text = true := by
  rw [separators_eq hcs, List.mem_map]
  constructor
  · rintro ⟨g', hg', hspan⟩
    obtain ⟨hmem, htext⟩ := List.mem_filter.mp hg'
    rwa [← List.inj_on_of_nodup_map (nodup_map_span_groups hcs) hmem hg hspan]
  · intro htext
    exact ⟨g, List.mem_filter.mpr ⟨hg, htext⟩, rfl⟩

theorem flatMap_members_clustersFrom (k : Cluster) (cs : List Comment) :
    (clustersFrom t k cs).flatMap Cluster.members = k.members ++ cs := by
  induction cs generalizing k with
  | nil => simp [clustersFrom]
  | cons c cs ih =>
    rw [clustersFrom]
    split
    case isTrue => rw [ih, Cluster.members_push, List.append_assoc, List.singleton_append]
    case isFalse => rw [List.flatMap_cons, ih]; rfl

theorem flatMap_members_clusters (cs : List Comment) :
    (clusters t cs).flatMap Cluster.members = cs := by
  cases cs with
  | nil => rfl
  | cons c cs => exact flatMap_members_clustersFrom ⟨c, []⟩ cs

theorem Cluster.containsText_group_iff (k : Cluster) (o : Options) :
    containsText o.token.toList (k.group t).text = true ↔
      (∃ c ∈ k.members, List.replicate o.width '/' <:+: c.text.toList) ∨
        RunsAcross o.width (k.members.map (·.text.toList)) := by
  have hne : k.members.map (·.text.toList) ≠ [] := List.cons_ne_nil _ _
  rw [containsText_iff, Options.token, String.toList_ofList, k.text_group, List.flatMap_def,
    replicate_isInfix_flatten_iff hne]
  simp only [List.mem_map, exists_exists_and_eq_and]

/-- The comments are cut into groups, and a group is a separator exactly if a comment of it holds
the slashes of a separator, or the slashes at the end of a comment, those of the comments of slashes
only right after it and those at the start of the next comment are enough of them. -/
theorem span_group_mem_separators_iff (t : SourceText) (o : Options) (comments : List Comment)
    (hcs : InOrder comments) :
    (clusters t comments).flatMap Cluster.members = comments ∧
      (clusters t comments).map (Cluster.group t) = groups t comments ∧
      ∀ k ∈ clusters t comments, ((k.group t).span ∈ separators t o comments ↔
        (∃ c ∈ k.members, List.replicate o.width '/' <:+: c.text.toList) ∨
          RunsAcross o.width (k.members.map (·.text.toList))) := by
  refine ⟨flatMap_members_clusters comments, map_group_clusters t comments, fun k hk => ?_⟩
  have hgroup : k.group t ∈ groups t comments :=
    map_group_clusters t comments ▸ List.mem_map_of_mem hk
  rw [span_mem_separators hcs o hgroup, k.containsText_group_iff]

def chainedText : SourceText := { chars := "/* a *//////\n// b\n".toList }

def chainedCluster : Cluster :=
  ⟨⟨⟨0, 7⟩, "/* a */"⟩, [⟨⟨7, 12⟩, "/////"⟩, ⟨⟨13, 17⟩, "// b"⟩]⟩

theorem span_group_mem_separators_iff_chained :
    InOrder chainedCluster.members ∧
      (chainedCluster.group chainedText).span = ⟨0, 17⟩ ∧
      ⟨0, 17⟩ ∈ separators chainedText { width := 8 } chainedCluster.members := by
  have hcs : InOrder chainedCluster.members := ⟨by decide, by decide⟩
  have hspan : (chainedCluster.group chainedText).span = ⟨0, 17⟩ := by decide +kernel
  have hmem : chainedCluster ∈ clusters chainedText chainedCluster.members := by decide +kernel
  have hiff := (span_group_mem_separators_iff chainedText { width := 8 } _ hcs).2.2 _ hmem
  rw [hspan] at hiff
  refine ⟨hcs, hspan, hiff.mpr (.inr ⟨[], "/* a */".toList, [List.replicate 5 '/'], "// b".toList,
    [], by decide +kernel, ?_, by decide +kernel⟩)⟩
  intro cs hcs c hc
  rw [List.mem_singleton.mp hcs] at hc
  exact List.eq_of_mem_replicate hc

def splitText : SourceText := { chars := "//\n//\n".toList }

/-- Four slashes make a separator also if they stand on two lines. -/
theorem not_forall_separator_one_comment :
    ¬ ∀ (t : SourceText) (w : Nat) (comments : List Comment), 1 ≤ w → InOrder comments →
      (∀ c ∈ comments, Text.slice? t.chars c.span.start c.span.stop = some c.text.toList) →
      ∀ k ∈ clusters t comments, ((k.group t).span ∈ separators t { width := w } comments ↔
        ∃ c ∈ k.members, List.replicate w '/' <:+: c.text.toList) := by
  intro h
  let k : Cluster := ⟨⟨⟨0, 2⟩, "//"⟩, [⟨⟨3, 5⟩, "//"⟩]⟩
  have hcs : InOrder k.members := ⟨by decide, by decide⟩
  have hmem : k ∈ clusters splitText k.members := by decide +kernel
  have hgroup : k.group splitText ∈ groups splitText k.members := by decide +kernel
  have hseparator : (k.group splitText).span ∈ separators splitText { width := 4 } k.members :=
    (span_mem_separators hcs _ hgroup).mpr (by decide +kernel)
  have hnone : ¬ ∃ c ∈ k.members, List.replicate 4 '/' <:+: c.text.toList := by decide +kernel
  exact hnone ((h splitText 4 k.members (by decide) hcs (by decide +kernel) k hmem).mp hseparator)

end LayoutLint.Separator
