import LayoutLint.Proofs.Outline.TypeGaps
import LayoutLint.Proofs.Source.Insertion
import Mathlib.Data.List.Nodup

/-! # Outlines with a comment put in

A comment that is put between two tokens of a file is one more comment of its outline, and all else
stays, moved around the comment, with one exception. A type of a receiver or of a result in which
the comment comes to stand before the name loses the name.
-/

namespace LayoutLint.Outline

open Source Tree

/-! ## Types -/

/-- A comment that is put in at `place` stands in the type, before its name. -/
def Hides (place : Nat) (t : Tree) : Prop := t.start < place ∧ place ≤ nameStart t

instance (place : Nat) (t : Tree) : Decidable (Hides place t) :=
  inferInstanceAs (Decidable (_ ∧ _))

theorem typeRef_eq_of_name {t t' : Tree} (hkind : t'.kind = t.kind) :
    (baseTypeName? t' = none → typeRef t' = .other) ∧
      (baseTypeName? t' = baseTypeName? t → typeRef t' = typeRef t) := by
  constructor
  · intro hname
    unfold typeRef
    rw [hname]
    split <;> rfl
  · intro hname
    rw [typeRef, typeRef, hname, hkind]

section

variable {cs cs' : List Char} {c : Comment} {root root' t t' d d' : Tree}

/-- The tree of a text and the tree of the text with the comment put in. -/
structure Rereads (c : Comment) (cs cs' : List Char) (root root' : Tree) : Prop where
  inserted : Inserted c root root'
  kind : root.kind = .sourceFile
  laid : Laid cs root.children
  laid' : Laid cs' root'.children

namespace Rereads

variable (h : Rereads c cs cs' root root')
include h

theorem kind' : root'.kind = .sourceFile := by
  rw [← h.kind]
  cases h.inserted <;> rfl

theorem length_pos : 0 < c.span.length := h.inserted.length_pos h.laid'

theorem shiftStart_zero_eq (n : Nat) : shiftStart c.span.start n 0 = 0 :=
  h.inserted.shiftStart_zero_eq h.laid' n

theorem shift_eq :
    root'.shift (startsAt c.span.start) c.span.start 0 =
      root.shift never c.span.start c.span.length := h.inserted.shift_eq h.length_pos

end Rereads

/-- Trees of the two texts that are the same but for the comment. -/
structure Counterparts (c : Comment) (cs cs' : List Char) (root root' t t' : Tree) : Prop
    extends Rereads c cs cs' root root' where
  within : ∃ d ∈ root.children, Within t d
  within' : ∃ d ∈ root'.children, Within t' d
  isComment : t.isComment = false
  same : t'.shift (startsAt c.span.start) c.span.start 0 = t.shift never c.span.start c.span.length

namespace Counterparts

variable (h : Counterparts c cs cs' root root' t t')
include h

theorem kind_eq : t'.kind = t.kind := by
  rw [← kind_shift (startsAt c.span.start) c.span.start 0, h.same, kind_shift]

theorem fits : t.Fits never c.span.start c.span.length := by
  obtain ⟨d, hd, ht⟩ := h.within
  exact (h.inserted.fits h.laid h.laid' d hd).of_within ht

theorem fits' : t'.Fits (startsAt c.span.start) c.span.start 0 := by
  obtain ⟨d, hd, ht⟩ := h.within'
  exact (h.inserted.fits_zero h.laid' d hd).of_within ht

theorem laid_self : Laid cs [t] := by
  obtain ⟨d, hd, ht⟩ := h.within
  exact ht.laid (h.laid.of_mem hd)

theorem laid_self' : Laid cs' [t'] := by
  obtain ⟨d, hd, ht⟩ := h.within'
  exact ht.laid (h.laid'.of_mem hd)

theorem inner {u u' : Tree} (hu : Within u t) (hc : u.isComment = false) (hu' : Within u' t')
    (hsame : u'.shift (startsAt c.span.start) c.span.start 0 =
      u.shift never c.span.start c.span.length) :
    Counterparts c cs cs' root root' u u' := by
  obtain ⟨d, hd, ht⟩ := h.within
  obtain ⟨d', hd', ht'⟩ := h.within'
  exact ⟨h.toRereads, ⟨d, hd, hu.trans ht⟩, ⟨d', hd', hu'.trans ht'⟩, hc, hsame⟩

theorem start_eq : t'.start = shiftStart c.span.start c.span.length t.start := by
  have hnew := start_shift (h.shiftStart_zero_eq 0) h.fits'.trim
  rw [h.same, start_shift (h.shiftStart_zero_eq _) h.fits.trim] at hnew
  simpa using hnew.symm

theorem nameStart_eq : nameStart t' = shiftStart c.span.start c.span.length (nameStart t) := by
  have hnew := nameStart_shift (h.shiftStart_zero_eq 0) h.fits'.trim
  rw [h.same, nameStart_shift (h.shiftStart_zero_eq _) h.fits.trim] at hnew
  simpa using hnew.symm

theorem forall_gone_iff :
    (∀ d, startsAt c.span.start d = true → Within (.comment d) t' →
        nameStart t' ≤ d.span.start) ↔ ¬ Hides c.span.start t := by
  have hlength := h.length_pos
  have hcomment : t'.isComment = false := by
    rw [Tree.isComment, h.kind_eq, ← Tree.isComment, h.isComment]
  obtain ⟨e, he, ht'⟩ := h.within'
  have hspan := h.inserted.within_or_precedes h.laid' (.child he ht') hcomment
  have hstop := nameStart_le_stop h.laid_self'
  unfold Hides
  rw [h.nameStart_eq] at hstop ⊢
  rw [h.start_eq] at hspan
  unfold shiftStart at *
  constructor
  · rintro hgone ⟨hstart, hname⟩
    rcases hspan with hin | hle | hle
    · have hle := hgone c (decide_eq_true rfl) hin
      split at hle <;> omega
    · split at hle
      · unfold Span.length at hlength
        omega
      · omega
    · split at hstop <;> omega
  · intro hhides d hd hin
    have hstart := (hin.span_within h.laid_self').1
    rw [h.start_eq] at hstart
    have hd : d.span.start = c.span.start := of_decide_eq_true hd
    change shiftStart c.span.start c.span.length t.start ≤ d.span.start at hstart
    unfold shiftStart at hstart
    rw [hd] at hstart ⊢
    split at hstart <;> split <;> omega

/-- A type has no name any more if the comment stands before it, and else the name that it had. -/
theorem baseTypeName?_eq :
    baseTypeName? t' = if Hides c.span.start t then none else baseTypeName? t := by
  ext m
  have hold := baseTypeName?_eq_some_iff_shift (m := m) never c.span.start c.span.length h.laid_self
  rw [baseTypeName?_eq_some_iff_shift (startsAt c.span.start) c.span.start 0 h.laid_self', h.same,
    h.forall_gone_iff]
  split
  case isTrue hhides => simp [hhides]
  case isFalse hhides =>
    rw [hold]
    simp [hhides, never]

theorem typeRef_eq :
    typeRef t' = if Hides c.span.start t then .other else typeRef t := by
  have hname := h.baseTypeName?_eq
  obtain ⟨hother, hsame⟩ := typeRef_eq_of_name h.kind_eq
  split at hname
  case isTrue hhides => rw [if_pos hhides, hother hname]
  case isFalse hhides => rw [if_neg hhides, hsame hname]

end Counterparts

/-! ## Declarations -/

/-- A function declaration around `n` bytes of a comment at `place`. -/
def functionAround (place n : Nat) (t : Tree) : FuncDecl :=
  { (function t).shift place n with
    receiver := (receiverType? t).bind fun type =>
      if Hides place type then none else baseTypeName? type
    results := (typesOfResults t).map fun type =>
      if Hides place type then .other else typeRef type }

def isFunction (t : Tree) : Bool :=
  t.kind = .functionDeclaration || t.kind = .methodDeclaration

def declAround (place n : Nat) (t : Tree) : Option Decl :=
  if isFunction t then some (.func (functionAround place n t))
  else (decl? t).map (Decl.shift place n)

theorem decl?_of_isFunction (h : isFunction t = true) : decl? t = some (.func (function t)) := by
  have hkind : t.kind = .functionDeclaration ∨ t.kind = .methodDeclaration := by
    simpa [isFunction] using h
  unfold decl?
  rcases hkind with hkind | hkind <;> rw [hkind]

theorem isComment_of_child? {field : Field} (h : t.child? field = some d) :
    d.Shaped → d.isComment = false := by
  intro hshaped
  apply (Bool.not_eq_true _).mp
  intro hc
  obtain ⟨e, rfl⟩ := hshaped.exists_eq_comment hc
  have hfield := List.find?_some h
  cases hfield

theorem within_of_receiverType? (h : Laid cs [d]) (ht : receiverType? d = some t) :
    Within t d ∧ t.isComment = false := by
  obtain ⟨list, hlist, ht⟩ := Option.bind_eq_some_iff.mp ht
  obtain ⟨param, hparam, ht⟩ := Option.bind_eq_some_iff.mp ht
  have hmem := (mem_namedChildren.mp (List.mem_of_find?_eq_some hparam)).1
  have hwithin : Within t d := .child (List.mem_of_find?_eq_some hlist)
    (.child hmem (.child (List.mem_of_find?_eq_some ht) (.self t)))
  exact ⟨hwithin, isComment_of_child? ht (hwithin.laid h).shaped_self⟩

theorem within_of_mem_typesOfResults (h : Laid cs [d]) (ht : t ∈ typesOfResults d) :
    Within t d ∧ t.isComment = false := by
  unfold typesOfResults at ht
  cases hresult : d.child? .result with
  | none =>
    rw [hresult] at ht
    cases ht
  | some result =>
    rw [hresult, Option.elim_some] at ht
    have hchild := List.mem_of_find?_eq_some hresult
    unfold typesOfResult at ht
    split at ht
    · rw [List.mem_singleton.mp ht]
      exact ⟨.child hchild (.self result),
        isComment_of_child? hresult (h.children.shaped result hchild)⟩
    · obtain ⟨param, hparam, ht⟩ := List.mem_flatMap.mp ht
      have hmem := (mem_namedChildren.mp hparam).1
      split at ht
      · cases htype : param.child? .type with
        | none => simp [htype] at ht
        | some type =>
          simp only [htype] at ht
          rw [(List.mem_replicate.mp ht).2]
          have hwithin : Within type d :=
            .child hchild (.child hmem (.child (List.mem_of_find?_eq_some htype) (.self _)))
          exact ⟨hwithin, isComment_of_child? htype (hwithin.laid h).shaped_self⟩
      · cases ht

theorem map_eq_map_of_map_eq {α β γ δ : Type} {f : α → γ} {g : β → γ} {p : α → δ} {q : β → δ}
    {xs : List α} {ys : List β} (h : xs.map f = ys.map g)
    (hsame : ∀ x ∈ xs, ∀ y ∈ ys, f x = g y → p x = q y) : xs.map p = ys.map q := by
  induction xs generalizing ys with
  | nil =>
    rw [List.map_nil, eq_comm, List.map_eq_nil_iff] at h
    rw [h]
    rfl
  | cons x xs ih =>
    obtain ⟨y, ys, rfl, hy, hys⟩ := List.map_eq_cons_iff.mp h.symm
    rw [List.map_cons, List.map_cons, hsame x (.head _) y (.head _) hy.symm,
      ih hys.symm fun x hx y hy => hsame x (.tail _ hx) y (.tail _ hy)]

namespace Counterparts

variable (h : Counterparts c cs cs' root root' d d')
include h

theorem signature_eq :
    signature d' = (signature d).shift c.span.start c.span.length := by
  have hsame := signature_shift (h.shiftStart_zero_eq 0) h.fits'
  rw [h.same, FuncDecl.shift_zero, signature_shift (h.shiftStart_zero_eq _) h.fits] at hsame
  exact hsame.symm

theorem receiver_eq :
    (function d').receiver = (receiverType? d).bind fun type =>
      if Hides c.span.start type then none else baseTypeName? type := by
  have hsame : (receiverType? d).map (Tree.shift never c.span.start c.span.length) =
      (receiverType? d').map (Tree.shift (startsAt c.span.start) c.span.start 0) := by
    rw [← receiverType?_shift, ← h.same, receiverType?_shift]
  rw [receiver_function]
  cases htype : receiverType? d with
  | none =>
    rw [htype, Option.map_none, eq_comm, Option.map_eq_none_iff] at hsame
    rw [hsame]
    rfl
  | some type =>
    rw [htype, Option.map_some, eq_comm, Option.map_eq_some_iff] at hsame
    obtain ⟨type', htype', hshifts⟩ := hsame
    obtain ⟨hwithin, hcomment⟩ := within_of_receiverType? h.laid_self htype
    obtain ⟨hwithin', -⟩ := within_of_receiverType? h.laid_self' htype'
    rw [htype']
    exact (h.inner hwithin hcomment hwithin' hshifts).baseTypeName?_eq

theorem results_eq :
    (function d').results = (typesOfResults d).map fun type =>
      if Hides c.span.start type then .other else typeRef type := by
  have hsame : (typesOfResults d').map (Tree.shift (startsAt c.span.start) c.span.start 0) =
      (typesOfResults d).map (Tree.shift never c.span.start c.span.length) := by
    rw [← typesOfResults_shift, h.same, typesOfResults_shift]
  rw [results_function]
  apply map_eq_map_of_map_eq hsame
  intro type' htype' type htype hshifts
  obtain ⟨hwithin, hcomment⟩ := within_of_mem_typesOfResults h.laid_self htype
  obtain ⟨hwithin', -⟩ := within_of_mem_typesOfResults h.laid_self' htype'
  exact (h.inner hwithin hcomment hwithin' hshifts).typeRef_eq

theorem function_eq : function d' = functionAround c.span.start c.span.length d := by
  calc function d'
      = { signature d' with
          receiver := (function d').receiver
          results := (function d').results } := rfl
    _ = functionAround c.span.start c.span.length d := by
        rw [h.signature_eq, h.receiver_eq, h.results_eq]
        rfl

theorem decl?_eq : decl? d' = declAround c.span.start c.span.length d := by
  unfold declAround
  split
  case isTrue hfunction =>
    rw [← h.function_eq]
    apply decl?_of_isFunction
    rw [isFunction, h.kind_eq]
    exact hfunction
  case isFalse hfunction =>
    have hkind : d.kind ≠ .functionDeclaration ∧ d.kind ≠ .methodDeclaration := by
      simpa [isFunction] using hfunction
    have hsame := decl?_shift (h.shiftStart_zero_eq 0) h.fits' (h.kind_eq ▸ hkind.1)
      (h.kind_eq ▸ hkind.2)
    rw [h.same, Decl.shift_zero, Option.map_id,
      decl?_shift (h.shiftStart_zero_eq _) h.fits hkind.1 hkind.2] at hsame
    exact hsame.symm

end Counterparts

theorem filterMap_eq_of_shiftOf_eq {α : Type} {gone gone' : Comment → Bool} {place n n' : Nat}
    {p q : Tree → Option α} {ts us : List Tree}
    (h : shiftOf gone place n ts = shiftOf gone' place n' us)
    (hp : ∀ t, t.isGone gone = true → p t = none) (hq : ∀ u, u.isGone gone' = true → q u = none)
    (hsame : ∀ t ∈ ts, ∀ u ∈ us, t.shift gone place n = u.shift gone' place n' → p t = q u) :
    ts.filterMap p = us.filterMap q := by
  have hkept : ∀ {gone : Comment → Bool} {p : Tree → Option α} (ts : List Tree),
      (∀ t, t.isGone gone = true → p t = none) →
        ts.filterMap p = ((ts.filter (!·.isGone gone)).map p).filterMap id := by
    intro gone p ts hp
    rw [List.filterMap_map, List.filterMap_filter]
    apply List.filterMap_congr
    intro t _
    cases hc : t.isGone gone with
    | true => simp [hp t hc]
    | false => simp
  rw [shiftOf_eq, shiftOf_eq] at h
  rw [hkept ts hp, hkept us hq]
  congr 1
  apply map_eq_map_of_map_eq h
  intro t ht u hu hshifts
  exact hsame t (List.mem_filter.mp ht).1 u (List.mem_filter.mp hu).1 hshifts

theorem decl?_of_kind_comment (hc : t.kind = .comment) : decl? t = none := by
  rw [decl?, hc]

theorem declAround_of_kind_comment {place n : Nat} (hc : t.kind = .comment) :
    declAround place n t = none := by
  rw [declAround, isFunction, hc, decl?_of_kind_comment hc]
  rfl

theorem decls_inserted (h : Rereads c cs cs' root root') :
    (ofTree root').decls =
      root.namedChildren.filterMap (declAround c.span.start c.span.length) := by
  have hnamed : shiftOf (startsAt c.span.start) c.span.start 0 root'.namedChildren =
      shiftOf never c.span.start c.span.length root.namedChildren := by
    rw [← namedChildren_shift, h.shift_eq, namedChildren_shift]
  apply filterMap_eq_of_shiftOf_eq hnamed
  · intro d hd
    exact decl?_of_kind_comment (kind_of_isGone hd)
  · intro d hd
    exact declAround_of_kind_comment (kind_of_isGone hd)
  · intro d' hd' d hd hshifts
    cases hc : d.isComment with
    | true =>
      have hkind : d.kind = .comment := of_decide_eq_true hc
      have hkind' : d'.kind = .comment := by
        rw [← hkind, ← kind_shift (startsAt c.span.start) c.span.start 0, hshifts, kind_shift]
      rw [decl?_of_kind_comment hkind', declAround_of_kind_comment hkind]
    | false =>
      have hcounterparts : Counterparts c cs cs' root root' d d' :=
        ⟨h, ⟨d, (mem_namedChildren.mp hd).1, .self d⟩,
          ⟨d', (mem_namedChildren.mp hd').1, .self d'⟩, hc, hshifts⟩
      exact hcounterparts.decl?_eq

/-! ## Comments -/

theorem flatMap_here_visitsOf {ts : List Tree} (hts : ∀ t ∈ ts, t.Shaped)
    (h : ∀ t ∈ ts, ∀ isBody, (visits isBody t).flatMap Part.comments.here = t.comments)
    (hasBody : Bool) :
    (visitsOf hasBody ts).flatMap Part.comments.here = ts.flatMap Tree.comments := by
  induction ts generalizing hasBody with
  | nil => rfl
  | cons t ts ih =>
    rw [visitsOf, List.flatMap_append, List.flatMap_cons,
      ih (fun u hu => hts u (.tail _ hu)) fun u hu => h u (.tail _ hu)]
    congr 1
    split
    · exact h t (.head _) _
    case isFalse hnamed =>
      have hmark : t.kind = .mark := by simpa [Tree.isNamed] using hnamed
      cases hts t (.head _) with
      | leaf => rfl
      | comment => cases hmark
      | node hfits => exact absurd hmark (Profile.fits_of_eq hfits).notMark

theorem flatMap_here_visits {t : Tree} (h : t.Shaped) (isBody : Bool) :
    (visits isBody t).flatMap Part.comments.here = t.comments := by
  induction h generalizing isBody with
  | leaf | comment =>
    rw [visits, List.flatMap_singleton]
    exact comments_nestedHere _ _
  | @node field kind children _ _ hchildren ih =>
    have hhere : Part.comments.here (.node field kind children, isBody) = [] :=
      comments_nestedHere _ _
    rw [visits, List.flatMap_cons, hhere, List.nil_append, flatMap_here_visitsOf hchildren ih,
      comments_node]

theorem comments_perm_tree (hroot : root.kind = .sourceFile) (hlaid : Laid cs root.children) :
    (nested root).comments.Perm root.comments := by
  cases root with
  | node field kind trees =>
    obtain rfl : kind = .sourceFile := hroot
    have hshaped : ∀ t ∈ trees, t.Shaped := hlaid.shaped
    have hvisited : visited (.node field .sourceFile trees) = visitsOf false trees :=
      (visitsOf_eq false trees).symm
    have hnested : (nested (.node field .sourceFile trees)).comments.Perm
        ((visited (.node field .sourceFile trees)).flatMap Part.comments.here) :=
      nested_perm Part.comments rfl
    rwa [hvisited, flatMap_here_visitsOf hshaped fun t ht => flatMap_here_visits (hshaped t ht),
      ← comments_node field .sourceFile] at hnested
  | comment => cases hroot
  | _ => exact nested_perm Part.comments hroot

/-- The outline with one more comment, moved around it. -/
def withComment (c : Comment) (o : Outline) : Outline :=
  { o.shift c.span.start c.span.length with
    comments := (c :: o.comments.map (Comment.shift c.span.start c.span.length)).mergeSort
      commentLe }

theorem comments_inserted (h : Rereads c cs cs' root root') :
    (ofTree root').comments = ((ofTree root).withComment c).comments := by
  have hnew := comments_perm_tree h.kind' h.laid'
  have hold : (ofTree root).comments.Perm root.comments :=
    (List.mergeSort_perm _ _).trans (comments_perm_tree h.kind h.laid)
  have hperm : (nested root').comments.Perm (c ::
      (ofTree root).comments.map (Comment.shift c.span.start c.span.length)) :=
    (hnew.trans h.inserted.comments_perm).trans ((hold.map _).symm.cons c)
  have hsorted : (nested root').comments.Perm (ofTree root').comments :=
    (List.mergeSort_perm _ _).symm
  have hnodup : ((ofTree root').comments.map Comment.span).Nodup := by
    apply (comments_ordered h.kind' h.laid').imp
    rintro s _ hbefore rfl
    exact Nat.lt_irrefl _ hbefore.1
  apply mergeSort_span_eq_of_perm Comment.span hperm
  intro c hc e he hspan
  exact List.inj_on_of_nodup_map hnodup (hsorted.mem_iff.mp hc) (hsorted.mem_iff.mp he) hspan

/-! ## Outlines -/

theorem frame_inserted (h : Rereads c cs cs' root root') :
    (ofTree root').frame = (ofTree root).frame.shift c.span.start c.span.length := by
  have hsame := frame_shift (h.shiftStart_zero_eq 0) h.kind' (h.inserted.fits_zero h.laid')
  rw [h.shift_eq, frame_shift (h.shiftStart_zero_eq _) h.kind (h.inserted.fits h.laid h.laid')]
    at hsame
  rw [hsame]
  simp [Outline.shift, frame]

theorem ofTree_inserted (h : Rereads c cs cs' root root') :
    ofTree root' = { (ofTree root).withComment c with
      decls := root.namedChildren.filterMap (declAround c.span.start c.span.length) } := by
  calc ofTree root'
      = { (ofTree root').frame with
          decls := (ofTree root').decls
          comments := (ofTree root').comments } := rfl
    _ = { (ofTree root).withComment c with
          decls := root.namedChildren.filterMap (declAround c.span.start c.span.length) } := by
        rw [frame_inserted h, decls_inserted h, comments_inserted h]
        rfl

/-! ## Names that are lost -/

/-- The types of a function declaration that have a name in the outline. -/
def namedTypes (d : Tree) : List Tree :=
  (receiverType? d).toList.filter (fun t => (baseTypeName? t).isSome) ++
    (typesOfResults d).filter (typeRef · ≠ .other)

theorem functionAround_eq_iff {place n : Nat} {d : Tree} :
    functionAround place n d = (function d).shift place n ↔
      ∀ t ∈ namedTypes d, ¬ Hides place t := by
  have hreceiver : ((receiverType? d).bind fun type =>
        if Hides place type then none else baseTypeName? type) =
          (receiverType? d).bind baseTypeName? ↔
      ∀ t ∈ (receiverType? d).toList.filter (fun t => (baseTypeName? t).isSome),
        ¬ Hides place t := by
    cases receiverType? d with
    | none => simp
    | some t => cases hname : baseTypeName? t <;> simp [hname]
  have hresults : ((typesOfResults d).map fun type =>
        if Hides place type then .other else typeRef type) = (typesOfResults d).map typeRef ↔
      ∀ t ∈ (typesOfResults d).filter (typeRef · ≠ .other), ¬ Hides place t := by
    rw [List.map_inj_left]
    simp only [List.mem_filter, decide_eq_true_eq, and_imp]
    apply forall₂_congr
    intro t _
    by_cases hhides : Hides place t
    · simp [hhides, eq_comm]
    · simp [hhides]
  rw [namedTypes, List.forall_mem_append, ← hreceiver, ← hresults, ← receiver_function,
    ← results_function]
  unfold functionAround FuncDecl.shift
  simp

theorem declAround_eq_iff {place n : Nat} {d : Tree} :
    declAround place n d = (decl? d).map (Decl.shift place n) ↔
      (isFunction d = true → ∀ t ∈ namedTypes d, ¬ Hides place t) := by
  unfold declAround
  split
  case isTrue hfunction =>
    rw [decl?_of_isFunction hfunction, ← functionAround_eq_iff (n := n)]
    simp [hfunction, Decl.shift]
  case isFalse hfunction => simp [hfunction]

theorem isSome_declAround (place n : Nat) (d : Tree) :
    (declAround place n d).isSome = ((decl? d).map (Decl.shift place n)).isSome := by
  unfold declAround
  split
  case isTrue hfunction =>
    rw [decl?_of_isFunction hfunction]
    rfl
  case isFalse => rfl

theorem filterMap_eq_filterMap_iff {α β : Type} {p q : α → Option β}
    (h : ∀ x, (p x).isSome = (q x).isSome) (xs : List α) :
    xs.filterMap p = xs.filterMap q ↔ ∀ x ∈ xs, p x = q x := by
  induction xs with
  | nil => simp
  | cons x xs ih =>
    have hx := h x
    rw [List.filterMap_cons, List.filterMap_cons, List.forall_mem_cons, ← ih]
    cases hp : p x <;> cases hq : q x <;> simp_all

end

def starFunction (rest : List Tree) : Tree :=
  .node none .functionDeclaration [
    .leaf none .mark ⟨.keyword, "func", 0, false, []⟩,
    .leaf (some .name) .identifier ⟨.word, "f", 5, false, []⟩,
    .node (some .parameters) .parameterList [
      .leaf none .mark ⟨.operator, "(", 6, false, []⟩,
      .leaf none .mark ⟨.operator, ")", 7, false, []⟩],
    .node (some .result) .pointerType (.leaf none .mark ⟨.operator, "*", 9, false, []⟩ :: rest)]

def starComment : Comment := ⟨⟨10, 14⟩, "/**/"⟩

def plainName : Tree := .leaf none .typeIdentifier ⟨.word, "T", 10, false, []⟩

def movedName : Tree := .leaf none .typeIdentifier ⟨.word, "T", 14, false, [starComment]⟩

theorem laid_plain : Tree.Laid "func f() *T".toList [starFunction [plainName]] :=
  Tree.laid_of_checks (by decide +kernel) (by decide +kernel) (by decide +kernel)

theorem laid_commented :
    Tree.Laid "func f() */**/T".toList [starFunction [.comment starComment, movedName]] :=
  Tree.laid_of_checks (by decide +kernel) (by decide +kernel) (by decide +kernel)

theorem inserted_star :
    Tree.Inserted starComment (.node none .sourceFile [starFunction [plainName]])
      (.node none .sourceFile [starFunction [.comment starComment, movedName]]) := by
  have hleaf : ∀ {field kind u u'}, u'.kind = u.kind → u'.text = u.text →
      u'.start = shiftStart 10 4 u.start →
      Tree.Moved 10 4 (.leaf field kind u) (.leaf field kind u') := Tree.Moved.leaf
  refine @Inserted.inside _ none .sourceFile [] [] _ _ [] [] .nil ?_ .nil
  refine @Inserted.inside _ none .functionDeclaration
    [_, _, _] [_, _, _] _ _ [] [] (.cons (hleaf rfl rfl rfl) (.cons (hleaf rfl rfl rfl)
      (.cons (.node (.cons (hleaf rfl rfl rfl) (.cons (hleaf rfl rfl rfl) .nil))) .nil))) ?_ .nil
  exact @Inserted.here _ (some .result) .pointerType [_] [_] [_] [_]
    (.cons (hleaf rfl rfl rfl) .nil) (by simp) (.cons (hleaf rfl rfl rfl) .nil) (by simp)

end LayoutLint.Outline
