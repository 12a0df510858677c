import LayoutLint.Proofs.Outline.Braces
import LayoutLint.Proofs.Outline.Spans

/-! # Outlines of texts are well formed

The rules take an outline as it comes. One that was read from a text has its spans in the text, its
lists in the order of the text, and its blocks nested like their braces.
-/

namespace LayoutLint

/-- The first span starts before the second and ends no later than that starts. -/
def Span.Before (s t : Span) : Prop := s.start < t.start ∧ s.stop ≤ t.start

/-- The span lies in the text, and its ends fall between two characters. -/
def Span.Inside (cs : List Char) (s : Span) : Prop :=
  s.start ≤ s.stop ∧ (Text.slice? cs s.start s.stop).isSome = true

structure Outline.WellFormed (cs : List Char) (o : Outline) : Prop where
  inside : ∀ s ∈ o.spans, s.Inside cs
  decls_ordered : (o.decls.map Decl.span).Pairwise Span.Before
  imports_ordered : o.imports.Pairwise Span.Before
  /-- Each import lies in an import declaration. -/
  imports_within : ∀ s ∈ o.imports, ∃ span specs, .gen span .imports specs ∈ o.decls ∧
    span.start ≤ s.start ∧ s.stop ≤ span.stop
  comments_ordered : (o.comments.map Comment.span).Pairwise Span.Before
  comments_stand : ∀ c ∈ o.comments,
    Text.slice? cs c.span.start c.span.stop = some c.text.toList
  defers_sorted : o.defers.Pairwise fun s t => s.le t = true
  /-- The braces stand where the block says. -/
  braces : ∀ b ∈ o.blocks, b.lbrace < b.rbrace ∧
    Text.slice? cs b.lbrace (b.lbrace + 1) = some ['\x7b'] ∧
    Text.slice? cs b.rbrace (b.rbrace + 1) = some ['\x7d']
  blocks_sorted : o.blocks.Pairwise fun a b => Outline.blockLe a b = true
  blocks_apart : o.blocks.Pairwise Block.Apart

/-! ## Sorted lists -/

theorem Span.le_iff {s t : Span} :
    s.le t = true ↔ s.start < t.start ∨ (s.start = t.start ∧ s.stop ≤ t.stop) := by
  simp [Span.le]

theorem pairwise_mergeSort_span {α : Type} (span : α → Span) (xs : List α) :
    (xs.mergeSort fun a b => (span a).le (span b)).Pairwise fun a b =>
      (span a).le (span b) = true := by
  refine List.pairwise_mergeSort (fun a b c hab hbc => ?_) (fun a b => ?_) xs
  · rw [Span.le_iff] at hab hbc ⊢
    omega
  · rw [Bool.or_eq_true_iff, Span.le_iff, Span.le_iff]
    omega

theorem Span.le_antisymm {s t : Span} (h : s.le t = true) (h' : t.le s = true) : s = t := by
  rw [le_iff] at h h'
  cases s
  cases t
  simp only [mk.injEq] at *
  omega

/-- What has different spans has one order by span. -/
theorem mergeSort_span_eq_of_perm {α : Type} (span : α → Span) {xs ys : List α} (h : xs.Perm ys)
    (hspan : ∀ x ∈ xs, ∀ y ∈ xs, span x = span y → x = y) :
    (xs.mergeSort fun a b => (span a).le (span b)) =
      ys.mergeSort fun a b => (span a).le (span b) := by
  have hxs := List.mergeSort_perm xs fun a b => (span a).le (span b)
  have hys := List.mergeSort_perm ys fun a b => (span a).le (span b)
  refine List.Perm.eq_of_pairwise (fun x y hx hy hxy hyx => ?_) (pairwise_mergeSort_span span xs)
    (pairwise_mergeSort_span span ys) (hxs.trans (h.trans hys.symm))
  refine hspan x (hxs.mem_iff.mp hx) y (h.mem_iff.mpr (hys.mem_iff.mp hy)) ?_
  exact Span.le_antisymm hxy hyx

theorem Span.before_of_le {s t : Span} (hs : s.start < s.stop) (ht : t.start < t.stop)
    (hle : s.le t = true) (h : s.Precedes t ∨ t.Precedes s) : s.Before t := by
  rw [Span.le_iff] at hle
  unfold Span.Precedes at h
  unfold Span.Before
  omega

namespace Source.Tree

variable {cs : List Char} {t u : Tree} {ts : List Tree}

theorem Laid.inside (h : Laid cs [t]) : t.span.Inside cs :=
  ⟨Nat.le_of_lt h.start_lt_stop, h.isSome_slice?⟩

theorem Laid.pairwise_before (h : Laid cs ts) : ts.Pairwise fun t u => t.span.Before u.span := by
  refine h.pairwise.imp_of_mem fun ht _ hprecedes => ⟨?_, hprecedes⟩
  exact Nat.lt_of_lt_of_le (h.of_mem ht).start_lt_stop hprecedes

theorem Laid.pairwise_flatMap (h : Laid cs ts) {f : Tree → List Span}
    (hwithin : ∀ t ∈ ts, ∀ s ∈ f t, ∃ u, Within u t ∧ u.span = s)
    (hf : ∀ t ∈ ts, (f t).Pairwise Span.Before) : (ts.flatMap f).Pairwise Span.Before := by
  refine List.pairwise_flatMap.mpr ⟨hf, ?_⟩
  refine h.pairwise.imp_of_mem fun {t t'} ht ht' hprecedes s hs s' hs' => ?_
  obtain ⟨u, hu, rfl⟩ := hwithin t ht s hs
  obtain ⟨u', hu', rfl⟩ := hwithin t' ht' s' hs'
  have hlt := (hu.laid (h.of_mem ht)).start_lt_stop
  have hspan := hu.span_within (h.of_mem ht)
  have hspan' := hu'.span_within (h.of_mem ht')
  have hle : t.stop ≤ t'.start := hprecedes
  refine ⟨?_, ?_⟩ <;> simp only [span] <;> omega

end Source.Tree

namespace Outline

open Source

/-! ## What stands at the top of a file -/

section

variable {cs : List Char} {t root : Tree}

theorem span_of_decl? {d : Decl} (h : decl? t = some d) : d.span = t.span := by
  unfold decl? at h
  split at h <;> cases h <;> rfl

def specSpans (child : Tree) : List Span :=
  match child.kind with
  | .importSpec => [child.span]
  | .importSpecList => importSpans child
  | _ => []

theorem importSpansOf_eq (ts : List Tree) : importSpansOf ts = ts.flatMap specSpans := by
  induction ts with
  | nil => rfl
  | cons t ts ih =>
    rw [importSpansOf, List.flatMap_cons, ih]
    rfl

theorem importSpans_eq (t : Tree) : importSpans t = t.children.flatMap specSpans := by
  cases t with
  | node => exact importSpansOf_eq _
  | _ => rfl

theorem within_of_mem_importSpans (t : Tree) :
    ∀ s ∈ importSpans t, ∃ u, Tree.Within u t ∧ u.span = s := by
  induction t using Tree.induction_on_children with
  | step t ih =>
    intro s hs
    rw [importSpans_eq] at hs
    obtain ⟨child, hchild, hs⟩ := List.mem_flatMap.mp hs
    unfold specSpans at hs
    split at hs
    · exact ⟨child, .child hchild (.self child), (List.mem_singleton.mp hs).symm⟩
    · obtain ⟨u, hu, hspan⟩ := ih child hchild s hs
      exact ⟨u, .child hchild hu, hspan⟩
    · cases hs

theorem within_of_mem_specSpans (t : Tree) :
    ∀ s ∈ specSpans t, ∃ u, Tree.Within u t ∧ u.span = s := by
  intro s hs
  unfold specSpans at hs
  split at hs
  · exact ⟨t, .self t, (List.mem_singleton.mp hs).symm⟩
  · exact within_of_mem_importSpans t s hs
  · cases hs

theorem pairwise_importSpans (h : Tree.Laid cs [t]) : (importSpans t).Pairwise Span.Before := by
  induction t using Tree.induction_on_children with
  | step t ih =>
    rw [importSpans_eq]
    refine h.children.pairwise_flatMap (fun c _ => within_of_mem_specSpans c) fun child hc => ?_
    unfold specSpans
    split
    · exact List.pairwise_singleton _ _
    · exact ih child hc (h.children.of_mem hc)
    · exact .nil

theorem inside_zero (cs : List Char) : Span.zero.Inside cs :=
  ⟨Nat.le_refl 0, by cases cs <;> rfl⟩

theorem inside_of_decl? {d : Decl} (h : Tree.Laid cs [t]) (hd : decl? t = some d) {s : Span}
    (hs : s ∈ d.spans) : s.Inside cs := by
  have hparams : (function t).params.Inside cs := by
    change ((t.child? .parameters).elim Span.zero Tree.span).Inside cs
    cases hchild : t.child? .parameters with
    | none => exact inside_zero cs
    | some c => exact (h.children.of_mem (List.mem_of_find?_eq_some hchild)).inside
  unfold decl? at hd
  split at hd <;> cases hd
  all_goals
    simp only [Decl.spans, List.mem_cons, List.not_mem_nil, or_false] at hs
  case h_8 | h_9 =>
    rcases hs with rfl | rfl
    · exact h.inside
    · exact hparams
  all_goals
    rw [hs]
    exact h.inside

end

/-! ## What stands at any depth -/

section

variable {cs : List Char} {root : Tree} (hroot : root.kind = .sourceFile)
include hroot

theorem mem_comments_iff {c : Comment} :
    c ∈ (ofTree root).comments ↔ ∃ x ∈ visited root, x.1 = .comment c := by
  have h := mem_nested_iff Part.comments hroot (a := c)
  simp only [Part.mem_comments_here] at h
  rw [← h]
  exact List.mem_mergeSort

theorem mem_defers_iff {s : Span} :
    s ∈ (ofTree root).defers ↔
      ∃ x ∈ visited root, x.1.kind = .deferStatement ∧ x.1.span = s := by
  have h := mem_nested_iff Part.defers hroot (a := s)
  simp only [Part.mem_defers_here] at h
  rw [← h]
  exact List.mem_mergeSort

theorem mem_blocks_iff {b : Block} :
    b ∈ (ofTree root).blocks ↔ ∃ x ∈ visited root, x.1.kind.isBraced = true ∧
      bracePair? x.1 = some (b.lbrace, b.rbrace) ∧
      b.kind = if x.2 then .functionBody else .statement := by
  have h := mem_nested_iff Part.blocks hroot (a := b)
  simp only [Part.mem_blocks_here] at h
  rw [← h]
  exact List.mem_mergeSort

variable (hlaid : Tree.Laid cs root.children)
include hlaid

omit hroot in
theorem laid_of_mem_visited {x : Tree × Bool} (hx : x ∈ visited root) : Tree.Laid cs [x.1] :=
  laid_of_mem_visitAll (laid_childrenToVisit hlaid) hx

theorem comment_stands {c : Comment} (hc : c ∈ (ofTree root).comments) :
    c.piece.Stands cs := by
  obtain ⟨x, hx, hcomment⟩ := (mem_comments_iff hroot).mp hc
  have hpieces := (laid_of_mem_visited hlaid hx).pieces_self
  rw [hcomment] at hpieces
  exact hpieces.stands c.piece List.mem_cons_self

theorem comments_ordered : ((ofTree root).comments.map Comment.span).Pairwise Span.Before := by
  have hapart : (ofTree root).comments.Pairwise fun c d =>
      c.span.Precedes d.span ∨ d.span.Precedes c.span := by
    refine ((List.mergeSort_perm _ _).pairwise_iff Or.symm).mpr ?_
    refine pairwise_nested Part.comments hroot hlaid Or.symm fun x hx y hy hcomes c hc d hd => ?_
    rw [Part.mem_comments_here] at hc hd
    rw [hc, hd] at hcomes
    rcases hcomes with ⟨u, hu, -⟩ | hprecedes
    · cases hu
    · exact .inl hprecedes
  have hsorted := pairwise_mergeSort_span Comment.span (nested root).comments
  refine List.pairwise_map.mpr ((hsorted.and hapart).imp_of_mem fun hc hd hcd => ?_)
  exact Span.before_of_le (comment_stands hroot hlaid hc).start_lt_stop
    (comment_stands hroot hlaid hd).start_lt_stop hcd.1 hcd.2

theorem blocks_apart : (ofTree root).blocks.Pairwise Block.Apart := by
  refine ((List.mergeSort_perm _ _).pairwise_iff Block.Apart.symm).mpr ?_
  refine pairwise_nested Part.blocks hroot hlaid Block.Apart.symm
    fun x hx y hy hcomes a ha b hb => ?_
  obtain ⟨hxkind, hxpair, -⟩ := Part.mem_blocks_here.mp ha
  obtain ⟨hykind, hypair, -⟩ := Part.mem_blocks_here.mp hb
  have hxlaid := laid_of_mem_visited hlaid hx
  have hylaid := laid_of_mem_visited hlaid hy
  exact apart_of_comes hxlaid hcomes (braced_of_bracePair? hxlaid hxkind hxpair)
    (braced_of_bracePair? hylaid hykind hypair)

theorem braced_of_mem_blocks {b : Block} (hb : b ∈ (ofTree root).blocks) :
    ∃ t, Braced cs t b.lbrace b.rbrace := by
  obtain ⟨x, hx, hkind, hpair, -⟩ := (mem_blocks_iff hroot).mp hb
  exact ⟨x.1, braced_of_bracePair? (laid_of_mem_visited hlaid hx) hkind hpair⟩

theorem inside_of_mem_spans {s : Span} (hs : s ∈ (ofTree root).spans) : s.Inside cs := by
  have htop : ∀ {t}, t ∈ root.namedChildren → Tree.Laid cs [t] := fun ht =>
    hlaid.of_mem (Tree.mem_namedChildren.mp ht).1
  rcases mem_spans_iff.mp hs with rfl | hs | ⟨d, hd, hs⟩ | ⟨c, hc, rfl⟩ | hs
  · change (Option.elim (root.namedChildren.filter _).getLast? Span.zero Tree.span).Inside cs
    cases hlast : (root.namedChildren.filter (·.kind = .packageClause)).getLast? with
    | none => exact inside_zero cs
    | some t => exact (htop (List.mem_of_mem_filter (List.mem_of_getLast? hlast))).inside
  · obtain ⟨t, ht, hs⟩ := List.mem_flatMap.mp hs
    obtain ⟨u, hu, rfl⟩ := within_of_mem_importSpans _ _ hs
    exact (hu.laid (htop (List.mem_of_mem_filter ht))).inside
  · obtain ⟨t, ht, hd⟩ := List.mem_filterMap.mp hd
    exact inside_of_decl? (htop ht) hd hs
  · obtain ⟨x, hx, hcomment⟩ := (mem_comments_iff hroot).mp hc
    have hinside := (laid_of_mem_visited hlaid hx).inside
    rwa [hcomment] at hinside
  · obtain ⟨x, hx, -, rfl⟩ := (mem_defers_iff hroot).mp hs
    exact (laid_of_mem_visited hlaid hx).inside

theorem wellFormed_ofTree : (ofTree root).WellFormed cs where
  inside s := inside_of_mem_spans hroot hlaid
  decls_ordered := by
    refine List.pairwise_map.mpr (List.pairwise_filterMap.mpr ?_)
    refine (hlaid.sublist List.filter_sublist).pairwise_before.imp fun h d hd d' hd' => ?_
    rwa [span_of_decl? hd, span_of_decl? hd']
  imports_ordered := by
    have htop : Tree.Laid cs (root.namedChildren.filter (·.kind = .importDeclaration)) :=
      hlaid.sublist (List.filter_sublist.trans List.filter_sublist)
    exact htop.pairwise_flatMap (fun t _ => within_of_mem_importSpans t) fun t ht =>
      pairwise_importSpans (htop.of_mem ht)
  imports_within s hs := by
    obtain ⟨t, ht, hs⟩ := List.mem_flatMap.mp hs
    obtain ⟨u, hu, rfl⟩ := within_of_mem_importSpans _ _ hs
    obtain ⟨ht, hkind⟩ := List.mem_filter.mp ht
    rw [decide_eq_true_eq] at hkind
    have hdecl : decl? t = some (.gen t.span .imports []) := by rw [decl?, hkind]
    refine ⟨t.span, [], List.mem_filterMap.mpr ⟨t, ht, hdecl⟩, ?_⟩
    exact hu.span_within (hlaid.of_mem (Tree.mem_namedChildren.mp ht).1)
  comments_ordered := comments_ordered hroot hlaid
  comments_stand c hc := (comment_stands hroot hlaid hc).slice?_eq
  defers_sorted := pairwise_mergeSort_span id (nested root).defers
  braces b hb := by
    obtain ⟨t, ht⟩ := braced_of_mem_blocks hroot hlaid hb
    exact ⟨ht.lt, ht.opening, ht.closing⟩
  blocks_sorted :=
    pairwise_mergeSort_span (fun b : Block => ⟨b.lbrace, b.rbrace⟩) (nested root).blocks
  blocks_apart := blocks_apart hroot hlaid

end

/-! ## Texts that were read -/

/-- The outline of a text is that of its tree, or there is nothing in it. -/
theorem exists_tree {cs : List Char} (h : ofText cs ≠ { hasSyntaxErrors := true }) :
    ∃ root, parse? (tokens cs) = some root ∧ ofText cs = ofTree root := by
  unfold ofText at *
  cases hparse : parse? (tokens cs) with
  | none =>
    rw [hparse] at h
    exact absurd rfl h
  | some root => exact ⟨root, rfl, rfl⟩

theorem wellFormed_of_ne {cs : List Char} (h : ofText cs ≠ { hasSyntaxErrors := true }) :
    (ofText cs).WellFormed cs := by
  obtain ⟨root, hparse, hroot⟩ := exists_tree h
  obtain ⟨hkind, hlaid⟩ := laid_of_parse? hparse
  rw [hroot]
  exact wellFormed_ofTree hkind hlaid

theorem ne_of_mem_blocks {cs : List Char} {b : Block} (hb : b ∈ (ofText cs).blocks) :
    ofText cs ≠ { hasSyntaxErrors := true } := by
  intro h
  rw [h] at hb
  cases hb

theorem mem_blocks_ofText_iff {cs : List Char} {b : Block} :
    b ∈ (ofText cs).blocks ↔
      b ∈ (parse? (tokens cs)).elim [] fun root => (nested root).blocks := by
  unfold ofText
  cases parse? (tokens cs) with
  | none => exact Iff.rfl
  | some root => exact List.mem_mergeSort

theorem hasSyntaxErrors_ofTree {cs : List Char} {trees : List Tree} (hlaid : Tree.Laid cs trees) :
    (ofTree (.node none .sourceFile trees)).hasSyntaxErrors = false :=
  Tree.hasErrorIn_eq_false hlaid.shaped

def nestedSource : List Char :=
  ("package a\n\nimport (\n\t\"b\"\n\tc \"d\" // e\n)\n\n// f\nfunc g() \x7b\n" ++
    "\tdefer h(func() \x7b i() \x7d)\n\tswitch j \x7b\n\tcase 1: /* k */\n\t\x7d\n\x7d\n").toList

theorem exists_nestedSource : ∃ trees, Tree.Laid nestedSource trees ∧
    ofText nestedSource = ofTree (.node none .sourceFile trees) := by
  have hread : ofText nestedSource ≠ { hasSyntaxErrors := true } := by
    intro h
    have hnone : (ofText nestedSource).imports.length = 0 := by rw [h]; rfl
    exact absurd hnone (by decide +kernel)
  obtain ⟨root, hparse, htree⟩ := exists_tree hread
  obtain ⟨trees, rfl, -⟩ := shaped_of_parse? hparse
  exact ⟨trees, (laid_of_parse? hparse).2, htree⟩

end Outline

end LayoutLint
