import LayoutLint.Proofs.Outline.Bodies
import LayoutLint.Proofs.Source.Blocks
import LayoutLint.Proofs.Source.Visible
import LayoutLint.Rules.SignatureGap

/-! # What stands after the brace of a body

Between the opening brace of a function and its first statement, or its closing brace where there is
none, the text has only blanks and comments, and the outline lists those comments.
-/

namespace LayoutLint

theorem LaidOut.mem_between {cs : List Char} {before mid after : List Piece} {p q r : Piece}
    (h : LaidOut cs (before ++ p :: (mid ++ q :: after)))
    (hr : r ∈ before ++ p :: (mid ++ q :: after)) {i : Nat} (hp : p.span.stop ≤ i)
    (hq : i < q.span.start) (hstart : r.span.start ≤ i) (hstop : i < r.span.stop) :
    r ∈ mid ∧ p.span.stop ≤ r.span.start := by
  have hpstands := (h.stands p (by simp)).start_lt_stop
  have hqstands := (h.stands q (by simp)).start_lt_stop
  obtain ⟨-, htail, hbefore⟩ := List.pairwise_append.mp h.ordered
  obtain ⟨hbrace, htail⟩ := List.pairwise_cons.mp htail
  obtain ⟨-, hlast, -⟩ := List.pairwise_append.mp htail
  rcases List.mem_append.mp hr with hr | hr
  · have hprecedes : r.span.stop ≤ p.span.start := hbefore r hr p (.head _)
    omega
  rcases List.mem_cons.mp hr with rfl | hr
  · omega
  rcases List.mem_append.mp hr with hr | hr
  · exact ⟨hr, hbrace r (List.mem_append_left _ hr)⟩
  rcases List.mem_cons.mp hr with rfl | hr
  · omega
  · have hprecedes : q.span.stop ≤ r.span.start := (List.pairwise_cons.mp hlast).1 r hr
    omega

namespace Source

/-! ## The pieces of a subtree -/

namespace Tree

theorem pieces_infix {t : Tree} {ts : List Tree} (h : t ∈ ts) : t.pieces <:+: piecesOf ts := by
  obtain ⟨as, bs, rfl⟩ := List.append_of_mem h
  rw [piecesOf_append, piecesOf, ← List.append_assoc]
  exact List.infix_append _ _ _

theorem Within.pieces_infix {u t : Tree} (h : Within u t) : u.pieces <:+: t.pieces := by
  induction h with
  | self => exact List.infix_rfl
  | @child c t hc _ ih =>
    cases t with
    | node => exact ih.trans (Tree.pieces_infix hc)
    | _ => cases hc

theorem pieces_of_look_eq_opening {t : Tree} (h : t.Shaped) (hlook : t.look = .opening) :
    ∃ p, t.pieces = [p] ∧ p.text = "\x7b" ∧ p.span.start = t.start := by
  obtain ⟨hkind, htext⟩ := Look.of_eq_opening_iff.mp hlook
  cases h with
  | @leaf _ _ token _ _ hend => exact ⟨_, by rw [pieces, Token.own, if_neg hend], htext, rfl⟩
  | comment => cases hkind
  | node hfits => exact absurd hkind (Profile.fits_of_eq hfits).notMark

end Tree

end Source

namespace Outline

open Source

/-! ## The offsets of a body -/

section

variable {t left next : Tree} {comments rest : List Tree} {body : FuncBody}

theorem lbrace_of_blockChildren (ht : ∀ c ∈ t.children, c.isMissing = false)
    (h : BlockChildren t.children left comments next rest) (hbody : functionBody? t = some body) :
    body.lbrace = left.start := by
  have hpair := bracePair?_of_functionBody? hbody
  rw [bracePair?_eq ht, h.eq, List.find?_cons_of_pos (by simp [h.opening])] at hpair
  obtain ⟨right, -, hpair⟩ := Option.map_eq_some_iff.mp hpair
  exact (congrArg Prod.fst hpair).symm

theorem blockStatements_of_blockChildren (h : BlockChildren t.children left comments next rest) :
    (blockStatements t).head? =
      if next.kind = .statementList then next.children.head? else none := by
  have hleft : left.isNamed = false := by
    simp [Tree.isNamed, (Look.of_eq_opening_iff.mp h.opening).1]
  have hcomments : ∀ c ∈ comments.filter Tree.isNamed, c.kind = .comment := by
    intro c hc
    exact of_decide_eq_true (h.comments c (List.mem_of_mem_filter hc))
  have hnone : ∀ {statements : Tree → List Tree}, (∀ c, c.kind = .comment → statements c = []) →
      (comments.filter Tree.isNamed).flatMap statements = [] := by
    intro statements hempty
    apply List.flatMap_eq_nil_iff.mpr
    intro c hc
    exact hempty c (hcomments c hc)
  rw [blockStatements, Tree.namedChildren, h.eq, List.filter_cons_of_neg (by simp [hleft]),
    List.filter_append, List.flatMap_append, hnone (fun c hc => by rw [hc]), List.nil_append]
  rcases h.next with ⟨hkind, first, others, hfirst, hnamed, hcomment⟩ | ⟨hclosing, rfl⟩
  · have hnext : next.isNamed = true := by simp [Tree.isNamed, hkind]
    rw [if_pos hkind, List.filter_cons_of_pos hnext, List.flatMap_cons, hkind]
    simp only [Tree.namedChildren, hfirst, List.filter_cons_of_pos hnamed]
    rw [List.filter_cons_of_pos (by simp [hcomment])]
    rfl
  · have hmark := (Look.of_eq_closing_iff.mp hclosing).1
    rw [if_neg (by rw [hmark]; decide), List.filter_cons_of_neg (by simp [Tree.isNamed, hmark])]
    rfl

theorem firstOffset_of_blockChildren (ht : ∀ c ∈ t.children, c.isMissing = false)
    (h : BlockChildren t.children left comments next rest) (hbody : functionBody? t = some body) :
    SignatureGap.firstOffset body = next.start := by
  have hpair := bracePair?_of_functionBody? hbody
  have hfirst : body.firstStmt = (blockStatements t).head?.map Tree.start := by
    obtain ⟨pair, -, rfl⟩ := Option.map_eq_some_iff.mp hbody
    rfl
  rw [SignatureGap.firstOffset, hfirst, blockStatements_of_blockChildren h]
  rcases h.next with ⟨hkind, first, others, hfirst, -⟩ | ⟨hclosing, rfl⟩
  · rw [if_pos hkind, hfirst]
    cases next with
    | node field kind children =>
      obtain rfl : children = first :: others := hfirst
      rw [Tree.start, Tree.startOf]
      rfl
    | _ => cases hfirst
  · have hmark := (Look.of_eq_closing_iff.mp hclosing).1
    rw [if_neg (by rw [hmark]; decide)]
    rw [bracePair?_eq ht, h.eq, ← List.cons_append, List.reverse_append, List.reverse_singleton,
      List.singleton_append, List.find?_cons_of_pos (a := next) (by simp [hclosing])] at hpair
    obtain ⟨_, -, hsome⟩ := Option.bind_eq_some_iff.mp hpair
    exact (congrArg Prod.snd (Option.some.inj hsome)).symm

end

/-! ## The text of a body -/

/-- From the opening brace of the body to its first statement, or to its closing brace, the text
shows comments only. -/
structure ShowsComments (cs : List Char) (comments : List Comment) (body : FuncBody) : Prop where
  first : Text.ShowsAt cs (SignatureGap.firstOffset body)
  starts : ∀ c ∈ comments, Text.ShowsAt cs c.span.start
  between : ∀ i, body.lbrace < i → i < SignatureGap.firstOffset body → Text.ShowsAt cs i →
    ∃ c ∈ comments, body.lbrace < c.span.start ∧ c.span.start ≤ i ∧ i < c.span.stop

theorem exists_block_of_mem_functions {cs : List Char} {root : Tree}
    (hlaid : Tree.Laid cs root.children) {f : FuncDecl} (hf : f ∈ (ofTree root).functions)
    {body : FuncBody} (hbody : body ∈ f.body) :
    ∃ children, Tree.Within (.node (some .body) .block children) root ∧
      functionBody? (.node (some .body) .block children) = some body ∧
      ∀ c ∈ children, c.Shaped := by
  obtain ⟨fn, hfn, -, block, hchild, hblock⟩ := exists_of_mem_functions hf hbody
  have hshaped := hlaid.shaped fn hfn
  obtain ⟨hmem, hfield⟩ := (child?_body_iff hshaped).mp hchild
  have hkind := kind_of_body (hshaped.of_mem_children hmem) hfield
  have hwithin : Tree.Within block root := .child hfn (.child hmem (.self block))
  cases hshaped.of_mem_children hmem with
  | leaf _ _ _ hleaf => exact absurd hfield hleaf
  | comment => cases hfield
  | node _ _ hchildren =>
    cases hfield
    cases hkind
    exact ⟨_, hwithin, hblock, hchildren⟩

theorem mem_comments_of_child {cs : List Char} {root t : Tree} (hroot : root.kind = .sourceFile)
    (hlaid : Tree.Laid cs root.children) (ht : Tree.Within t root) {c : Comment}
    (hc : .comment c ∈ t.children) : c ∈ (ofTree root).comments := by
  have hnamed := Tree.mem_namedChildren.mpr ⟨hc, by simp [Tree.kind]⟩
  obtain ⟨isBody, hvisit⟩ := exists_mem_childrenToVisit hnamed
  exact (mem_comments_iff hroot).mpr ⟨_, mem_visited_of_within hlaid.shaped ht hvisit, rfl⟩

theorem piece_mem_of_mem_comments {cs : List Char} {trees : List Tree} (hlaid : Tree.Laid cs trees)
    {c : Comment} (hc : c ∈ (ofTree (.node none .sourceFile trees)).comments) :
    c.piece ∈ Tree.piecesOf trees := by
  obtain ⟨x, hx, hcomment⟩ := (mem_comments_iff rfl).mp hc
  obtain ⟨y, hy, hxy⟩ := mem_visitAll.mp hx
  have hchild : y.1 ∈ trees := (Tree.mem_namedChildren.mp (mem_childrenToVisit.mp hy).1).1
  have hwithin := within_of_mem_visits (hlaid.shaped y.1 hchild) hxy
  have hpiece : c.piece ∈ x.1.pieces := by
    rw [hcomment]
    exact List.mem_singleton_self c.piece
  exact Tree.pieces_subset hchild (hwithin.pieces_subset hpiece)

theorem exists_pieces_of_blockChildren {root block left next : Tree} {comments rest : List Tree}
    (hblock : Tree.Within block root) (hshaped : ∀ c ∈ block.children, c.Shaped)
    (h : BlockChildren block.children left comments next rest) :
    ∃ before p q after, root.pieces = before ++ p :: (Tree.piecesOf comments ++ q :: after) ∧
      p.text = "\x7b" ∧ p.span.start = left.start ∧ q.span.start = next.start := by
  obtain ⟨p, hp, htext, hpstart⟩ :=
    Tree.pieces_of_look_eq_opening (hshaped left (by simp [h.eq])) h.opening
  obtain ⟨q, qs, hq, hqstart⟩ := (hshaped next (by simp [h.eq])).exists_first
  obtain ⟨before, after, hpieces⟩ := hblock.pieces_infix
  refine ⟨before, p, q, qs ++ (Tree.piecesOf rest ++ after), hpieces.symm.trans ?_, htext, hpstart,
    hqstart.symm⟩
  cases block with
  | node field kind children =>
    obtain rfl : children = left :: (comments ++ next :: rest) := h.eq
    simp [Tree.pieces, Tree.piecesOf, hp, hq]
  | _ => cases h.eq

theorem showsComments_of_blockChildren {cs : List Char} {trees : List Tree} {block : Tree}
    {left next : Tree} {comments rest : List Tree} {body : FuncBody}
    (hlaid : Tree.Laid cs trees) (hshown : Shown cs (Tree.piecesOf trees))
    (hblock : Tree.Within block (.node none .sourceFile trees))
    (hshaped : ∀ c ∈ block.children, c.Shaped)
    (h : BlockChildren block.children left comments next rest)
    (hbody : functionBody? block = some body) :
    ShowsComments cs (ofTree (.node none .sourceFile trees)).comments body := by
  have hmissing : ∀ c ∈ block.children, c.isMissing = false := by
    intro c hc
    cases hshaped c hc <;> rfl
  have hlbrace := lbrace_of_blockChildren hmissing h hbody
  have hoffset := firstOffset_of_blockChildren hmissing h hbody
  obtain ⟨before, p, q, after, hpieces, htext, hpstart, hqstart⟩ :=
    exists_pieces_of_blockChildren hblock hshaped h
  have hlaidOut : LaidOut cs (before ++ p :: (Tree.piecesOf comments ++ q :: after)) :=
    hpieces ▸ hlaid.pieces
  rw [Tree.pieces] at hpieces
  rw [hpieces] at hshown
  have hstop : p.span.stop = body.lbrace + 1 := by
    obtain ⟨pre, post, -, -, hspan⟩ := hlaidOut.stands p (by simp)
    rw [hlbrace, ← hpstart, hspan, htext]
    rfl
  refine ⟨?_, fun c hc => ?_, fun i hi hlt hshows => ?_⟩
  · rw [hoffset, ← hqstart]
    exact hshown.starts q (by simp)
  · have hmem := piece_mem_of_mem_comments hlaid hc
    rw [hpieces] at hmem
    exact hshown.starts _ hmem
  · rw [hoffset, ← hqstart] at hlt
    have hpi : p.span.stop ≤ i := by omega
    obtain ⟨r, hr, hle, hrstop⟩ := hshown.between p (by simp) q (by simp) i hpi hlt hshows
    obtain ⟨hmem, hprecedes⟩ := hlaidOut.mem_between hr hpi hlt hle hrstop
    rw [Tree.piecesOf_eq_flatMap] at hmem
    obtain ⟨c, hc, hpiece⟩ := List.mem_flatMap.mp hmem
    have hchild : c ∈ block.children := by simp [h.eq, hc]
    obtain ⟨comment, rfl⟩ := (hshaped c hchild).exists_eq_comment (h.comments c hc)
    obtain rfl : r = comment.piece := List.mem_singleton.mp hpiece
    exact ⟨comment, mem_comments_of_child rfl hlaid hblock hchild, Nat.lt_of_lt_of_le (by omega)
      hprecedes, hle, hrstop⟩

/-- The bodies of a text that can be read open with comments only. -/
theorem showsComments_of_parse? {cs : List Char} {root : Tree}
    (hparse : parse? (tokens cs) = some root) {f : FuncDecl} (hf : f ∈ (ofTree root).functions)
    {body : FuncBody} (hbody : body ∈ f.body) :
    ShowsComments cs (ofTree root).comments body := by
  obtain ⟨-, hlaid⟩ := laid_of_parse? hparse
  obtain ⟨children, hwithin, hblock, hshaped⟩ := exists_block_of_mem_functions hlaid hf hbody
  obtain ⟨left, comments, next, rest, h⟩ := exists_blockChildren_of_parse? hparse hwithin
  have hshown := shown_of_parse? hparse
  obtain ⟨trees, rfl, -⟩ := shaped_of_parse? hparse
  exact showsComments_of_blockChildren hlaid hshown hwithin hshaped h hblock

theorem showsComments_ofText {cs : List Char} (hread : (ofText cs).hasSyntaxErrors = false) :
    (ofText cs).WellFormed cs ∧ ∀ f ∈ (ofText cs).functions, ∀ body ∈ f.body,
      ShowsComments cs (ofText cs).comments body := by
  have hne : ofText cs ≠ { hasSyntaxErrors := true } := by
    intro heq
    rw [heq] at hread
    cases hread
  refine ⟨wellFormed_of_ne hne, fun f hf body hbody => ?_⟩
  obtain ⟨root, hparse, hroot⟩ := exists_tree hne
  rw [hroot] at hf ⊢
  exact showsComments_of_parse? hparse hf hbody

end Outline

end LayoutLint
