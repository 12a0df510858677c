import LayoutLint.Proofs.Source.Layout

/-! # Trees around bytes that are put in

A tree is moved around bytes that are put in at a place, and some of its comments are dropped. What
is found among its children by kind or by part is found there still. A node that neither starts nor
ends with a comment that is dropped stands around the bytes as well.
-/

namespace LayoutLint

/-! ## Offsets -/

/-- Where a thing starts when `n` bytes are put in at `place`, if it started at `o`. -/
def shiftStart (place n o : Nat) : Nat := if o < place then o else o + n

def shiftStop (place n o : Nat) : Nat := if o ≤ place then o else o + n

def Span.shift (place n : Nat) (s : Span) : Span :=
  ⟨shiftStart place n s.start, shiftStop place n s.stop⟩

def Comment.shift (place n : Nat) (c : Comment) : Comment := { c with span := c.span.shift place n }

@[simp] theorem shiftStart_zero (place : Nat) : shiftStart place 0 = id :=
  funext fun _ => ite_self _

@[simp] theorem shiftStop_zero (place : Nat) : shiftStop place 0 = id := funext fun _ => ite_self _

@[simp] theorem Span.shift_zero (place : Nat) : Span.shift place 0 = id := by
  funext s
  simp [Span.shift]

@[simp] theorem Comment.shift_zero (place : Nat) : Comment.shift place 0 = id := by
  funext c
  simp [Comment.shift]

namespace Source.Tree

/-! ## Dropping comments -/

/-- The tree is a comment that is dropped. -/
def isGone (gone : Comment → Bool) : Tree → Bool
  | comment c => gone c
  | _ => false

section

variable (gone : Comment → Bool) (place n : Nat)

mutual

/-- The tree without the comments that are gone, each offset moved around `n` bytes at `place`. Of
a token only its kind, its text and its start are kept. -/
def shift : Tree → Tree
  | leaf field kind u =>
    leaf field kind { u with start := shiftStart place n u.start, newline := false, comments := [] }
  | comment c => comment (c.shift place n)
  | missing field kind text o => missing field kind text (shiftStart place n o)
  | node field kind children => node field kind (shiftOf children)

def shiftOf : List Tree → List Tree
  | [] => []
  | t :: ts => if t.isGone gone then shiftOf ts else t.shift :: shiftOf ts

end

theorem shiftOf_eq (ts : List Tree) :
    shiftOf gone place n ts = (ts.filter (!·.isGone gone)).map (shift gone place n) := by
  induction ts with
  | nil => rfl
  | cons t ts ih =>
    rw [shiftOf, List.filter_cons, ih]
    cases t.isGone gone <;> rfl

theorem shiftOf_append (ts us : List Tree) :
    shiftOf gone place n (ts ++ us) = shiftOf gone place n ts ++ shiftOf gone place n us := by
  simp only [shiftOf_eq, List.filter_append, List.map_append]

theorem shiftOf_reverse (ts : List Tree) :
    shiftOf gone place n ts.reverse = (shiftOf gone place n ts).reverse := by
  simp only [shiftOf_eq, List.filter_reverse, List.map_reverse]

@[simp] theorem kind_shift (t : Tree) : (t.shift gone place n).kind = t.kind := by cases t <;> rfl

@[simp] theorem field?_shift (t : Tree) : (t.shift gone place n).field? = t.field? := by
  cases t <;> rfl

@[simp] theorem text_shift (t : Tree) : (t.shift gone place n).text = t.text := by cases t <;> rfl

@[simp] theorem isComment_shift (t : Tree) :
    (t.shift gone place n).isComment = t.isComment := by
  rw [isComment, kind_shift, isComment]

@[simp] theorem isNamed_shift (t : Tree) : (t.shift gone place n).isNamed = t.isNamed := by
  rw [isNamed, kind_shift, isNamed]

@[simp] theorem isMark_shift (text : String) (t : Tree) :
    (t.shift gone place n).isMark text = t.isMark text := by
  cases t <;> rfl

@[simp] theorem isMissing_shift (t : Tree) : (t.shift gone place n).isMissing = t.isMissing := by
  cases t <;> rfl

theorem children_shift (t : Tree) :
    (t.shift gone place n).children = shiftOf gone place n t.children := by
  cases t <;> rfl

end

/-! ## Children -/

section

variable {gone : Comment → Bool} {place n : Nat} {p : Tree → Bool} {t : Tree} {ts : List Tree}

theorem exists_of_isGone (h : t.isGone gone = true) : ∃ c, t = comment c ∧ gone c = true := by
  cases t with
  | comment c => exact ⟨c, rfl, h⟩
  | _ => cases h

theorem kind_of_isGone (h : t.isGone gone = true) : t.kind = .comment := by
  obtain ⟨c, rfl, -⟩ := exists_of_isGone h
  rfl

theorem shiftOf_cons_of_isGone (h : t.isGone gone = true) (ts : List Tree) :
    shiftOf gone place n (t :: ts) = shiftOf gone place n ts := if_pos h

theorem shiftOf_cons (h : t.isGone gone = false) (ts : List Tree) :
    shiftOf gone place n (t :: ts) = t.shift gone place n :: shiftOf gone place n ts :=
  if_neg (by simp [h])

theorem filter_shiftOf (hp : ∀ t : Tree, p (t.shift gone place n) = p t) (ts : List Tree) :
    (shiftOf gone place n ts).filter p = shiftOf gone place n (ts.filter p) := by
  have hcomp : p ∘ shift gone place n = p := funext hp
  rw [shiftOf_eq, shiftOf_eq, List.filter_map, hcomp, List.filter_filter, List.filter_filter]
  simp only [Bool.and_comm]

theorem filter_shiftOf_eq_map (hp : ∀ t : Tree, p (t.shift gone place n) = p t)
    (hgone : ∀ t : Tree, t.isGone gone = true → p t = false) (ts : List Tree) :
    (shiftOf gone place n ts).filter p = (ts.filter p).map (shift gone place n) := by
  have hself : (ts.filter p).filter (!·.isGone gone) = ts.filter p := by
    apply List.filter_eq_self.mpr
    intro t ht
    obtain ⟨-, hpt⟩ := List.mem_filter.mp ht
    cases hc : t.isGone gone with
    | false => rfl
    | true =>
      rw [hgone t hc] at hpt
      cases hpt
  rw [filter_shiftOf hp, shiftOf_eq, hself]

theorem find?_shiftOf (hp : ∀ t : Tree, p (t.shift gone place n) = p t)
    (hgone : ∀ t : Tree, t.isGone gone = true → p t = false) (ts : List Tree) :
    (shiftOf gone place n ts).find? p = (ts.find? p).map (shift gone place n) := by
  rw [← List.head?_filter, ← List.head?_filter, filter_shiftOf_eq_map hp hgone, List.head?_map]

theorem filter_kind_shiftOf {kind : NodeKind} (hkind : kind ≠ .comment) (ts : List Tree) :
    (shiftOf gone place n ts).filter (·.kind = kind) =
      (ts.filter (·.kind = kind)).map (shift gone place n) := by
  apply filter_shiftOf_eq_map
  · intro t
    rw [kind_shift]
  · intro t ht
    rw [kind_of_isGone ht]
    exact decide_eq_false hkind.symm

theorem find?_kind_shiftOf {kind : NodeKind} (hkind : kind ≠ .comment) (ts : List Tree) :
    (shiftOf gone place n ts).find? (·.kind = kind) =
      (ts.find? (·.kind = kind)).map (shift gone place n) := by
  rw [← List.head?_filter, ← List.head?_filter, filter_kind_shiftOf hkind, List.head?_map]

theorem filter_isComment_shiftOf (ts : List Tree) :
    (shiftOf gone place n ts).filter (!·.isComment) =
      (ts.filter (!·.isComment)).map (shift gone place n) := by
  apply filter_shiftOf_eq_map
  · intro t
    rw [isComment_shift]
  · intro t ht
    rw [isComment, kind_of_isGone ht]
    rfl

theorem flatMap_shiftOf {α : Type} {g g' : Tree → List α} {h : α → α}
    (hgone : ∀ t : Tree, t.isGone gone = true → g t = [])
    (hshift : ∀ t ∈ ts, g' (t.shift gone place n) = (g t).map h) :
    (shiftOf gone place n ts).flatMap g' = (ts.flatMap g).map h := by
  induction ts with
  | nil => rfl
  | cons t ts ih =>
    have ih := ih fun u hu => hshift u (.tail _ hu)
    cases hc : t.isGone gone with
    | true =>
      rw [shiftOf_cons_of_isGone hc, ih, List.flatMap_cons, hgone t hc, List.nil_append]
    | false =>
      rw [shiftOf_cons hc, List.flatMap_cons, List.flatMap_cons, List.map_append, ih,
        hshift t (.head _)]

theorem namedChildren_shift (t : Tree) :
    (t.shift gone place n).namedChildren = shiftOf gone place n t.namedChildren := by
  rw [namedChildren, children_shift, filter_shiftOf (isNamed_shift gone place n), namedChildren]

theorem child?_shift (t : Tree) (field : Field) :
    (t.shift gone place n).child? field = (t.child? field).map (shift gone place n) := by
  rw [child?, children_shift]
  apply find?_shiftOf
  · intro u
    rw [field?_shift]
  · intro u hu
    obtain ⟨c, rfl, -⟩ := exists_of_isGone hu
    rfl

theorem text_child?_shift (t : Tree) (field : Field) :
    ((t.shift gone place n).child? field).elim "" text = (t.child? field).elim "" text := by
  rw [child?_shift]
  cases t.child? field <;> simp

theorem hasErrorIn_shiftOf (h : ∀ t ∈ ts, (t.shift gone place n).hasError = t.hasError) :
    hasErrorIn (shiftOf gone place n ts) = hasErrorIn ts := by
  induction ts with
  | nil => rfl
  | cons t ts ih =>
    have ih := ih fun u hu => h u (.tail _ hu)
    cases hc : t.isGone gone with
    | true =>
      obtain ⟨c, rfl, -⟩ := exists_of_isGone hc
      rw [shiftOf_cons_of_isGone hc, ih]
      rfl
    | false => rw [shiftOf_cons hc, hasErrorIn, hasErrorIn, ih, h t (.head _)]

theorem hasError_shift (t : Tree) : (t.shift gone place n).hasError = t.hasError := by
  induction t using induction_on_children with
  | step t ih =>
    cases t with
    | node field kind children =>
      have hchildren : hasErrorIn (shiftOf gone place n children) = hasErrorIn children :=
        hasErrorIn_shiftOf ih
      rw [shift, hasError, hasError, hchildren]
    | _ => rfl

end

/-! ## Spans -/

theorem Within.trans {s t root : Tree} (hs : Within s t) (ht : Within t root) :
    Within s root := by
  induction ht with
  | self => exact hs
  | child hc _ ih => exact .child hc ih

section

variable {gone : Comment → Bool} {place n : Nat} {t c : Tree}

/-- No node in the tree starts or ends with a comment that is gone. -/
def Trim (gone : Comment → Bool) (t : Tree) : Prop :=
  ∀ u, Within u t → (∀ c ∈ u.children.head?, c.isGone gone = false) ∧
    ∀ c ∈ u.children.getLast?, c.isGone gone = false

theorem Trim.of_within (h : t.Trim gone) (hc : Within c t) : c.Trim gone :=
  fun u hu => h u (hu.trans hc)

theorem Trim.of_mem_children (h : t.Trim gone) (hc : c ∈ t.children) : c.Trim gone :=
  h.of_within (.child hc (.self c))

theorem start_shift (hzero : shiftStart place n 0 = 0) (h : t.Trim gone) :
    (t.shift gone place n).start = shiftStart place n t.start := by
  induction t using induction_on_children with
  | step t ih =>
    cases t with
    | node field kind children =>
      cases children with
      | nil => exact hzero.symm
      | cons c rest =>
        have hc := (h _ (.self _)).1 c rfl
        have hstart := ih c (.head _) (h.of_mem_children (.head _))
        rw [shift, shiftOf_cons hc, start, startOf, hstart, start, startOf]
    | _ => rfl

/-- The bytes are put in between two tokens of the tree, or outside it. -/
structure Fits (gone : Comment → Bool) (place n : Nat) (t : Tree) : Prop where
  shaped : t.Shaped
  trim : t.Trim gone
  clear : ∀ {field kind} {u : Token}, Within (.leaf field kind u) t →
    shiftStart place n u.start + u.text.utf8ByteSize = shiftStop place n u.stop

theorem Fits.of_mem_children (h : t.Fits gone place n) (hc : c ∈ t.children) :
    c.Fits gone place n :=
  ⟨h.shaped.of_mem_children hc, h.trim.of_mem_children hc, fun hu => h.clear (.child hc hu)⟩

theorem Fits.of_child? {field : Field} (h : t.Fits gone place n) (hc : t.child? field = some c) :
    c.Fits gone place n := h.of_mem_children (List.mem_of_find?_eq_some hc)

theorem Fits.of_within (h : t.Fits gone place n) (hc : Within c t) : c.Fits gone place n := by
  induction hc with
  | self => exact h
  | child hmem _ ih => exact ih (h.of_mem_children hmem)

theorem stop_shift (h : t.Fits gone place n) :
    (t.shift gone place n).stop = shiftStop place n t.stop := by
  obtain ⟨hshaped, htrim, hclear⟩ := h
  induction hshaped with
  | leaf => exact hclear (.self _)
  | comment => rfl
  | @node field kind children hfits hbody hchildren ih =>
    obtain ⟨rest, c, rfl⟩ : ∃ rest c, children = rest ++ [c] :=
      ⟨_, _, (List.dropLast_concat_getLast (ne_nil_of_fits hfits)).symm⟩
    have hmem : c ∈ (Tree.node field kind (rest ++ [c])).children := by simp [children]
    have hc := (htrim _ (.self _)).2 c (by simp [children])
    have hstop := ih c (by simp) (htrim.of_mem_children hmem) fun hu => hclear (.child hmem hu)
    have hlast : shiftOf gone place n [c] = [c.shift gone place n] := shiftOf_cons hc []
    rw [shift, shiftOf_append, hlast, stop, stopOf_append_singleton, hstop, stop,
      stopOf_append_singleton]

theorem span_shift (hzero : shiftStart place n 0 = 0) (h : t.Fits gone place n) :
    (t.shift gone place n).span = t.span.shift place n := by
  rw [span, start_shift hzero h.trim, stop_shift h]
  rfl

end

end Source.Tree

end LayoutLint
