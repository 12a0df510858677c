import LayoutLint.Proofs.Outline.WellFormed

/-! # Bodies of functions

A function declaration finds its body by its part in the tree, the blocks are found by visiting
the tree. Both ways lead to the same braces.
-/

namespace LayoutLint.Outline

open Source

/-- The braces are those of the body of a function, a method or a function literal in the tree. -/
def IsBodyPair (root : Tree) (l r : Nat) : Prop :=
  ∃ f body, Tree.Within f root ∧
    (f.kind = .functionDeclaration ∨ f.kind = .methodDeclaration ∨ f.kind = .funcLiteral) ∧
    f.child? .body = some body ∧ bracePair? body = some (l, r)

/-- The bodies of the functions and the blocks say the same about the tree. -/
structure BodiesAgree (root : Tree) (o : Outline) : Prop where
  /-- A function at the top of the file keeps the braces of its body. -/
  declared : ∀ t ∈ root.children,
    t.kind = .functionDeclaration ∨ t.kind = .methodDeclaration →
    ∃ f ∈ o.functions, f.span = t.span ∧
      f.body.map (fun body => (body.lbrace, body.rbrace)) = (t.child? .body).bind bracePair?
  /-- The braces of a body are those of one block. -/
  listed : ∀ f ∈ o.functions, ∀ body ∈ f.body,
    o.blocks.filter (fun b => b.lbrace = body.lbrace ∧ b.rbrace = body.rbrace) =
      [⟨body.lbrace, body.rbrace, .functionBody⟩]
  kind_iff : ∀ b ∈ o.blocks, b.kind = .functionBody ↔ IsBodyPair root b.lbrace b.rbrace
  mem_of_isBodyPair : ∀ l r, IsBodyPair root l r → ⟨l, r, .functionBody⟩ ∈ o.blocks
  firstStmt_eq_none_iff : ∀ f ∈ o.functions, ∀ body ∈ f.body,
    body.firstStmt = none ↔ body.statements = []
  firstStmt_between : ∀ f ∈ o.functions, ∀ body ∈ f.body, ∀ n ∈ body.firstStmt,
    body.lbrace < n ∧ n < body.rbrace

/-! ## Visits and parents -/

section

variable {t f c : Tree} {x : Tree × Bool}

theorem parent_of_mem_visited (h : ∀ c ∈ t.children, c.Shaped) (hx : x ∈ visited t) :
    ∃ f, Tree.Within f t ∧ x ∈ childrenToVisit f := by
  have step : ∀ t : Tree,
      (∀ c ∈ t.children, x ∈ visited c → ∃ f, Tree.Within f c ∧ x ∈ childrenToVisit f) →
      x ∈ visited t → ∃ f, Tree.Within f t ∧ x ∈ childrenToVisit f := by
    intro t ih hx
    obtain ⟨y, hy, hx⟩ := mem_visitAll.mp hx
    have hmem := (Tree.mem_namedChildren.mp (mem_childrenToVisit.mp hy).1).1
    rw [visits_eq] at hx
    rcases List.mem_cons.mp hx with rfl | hx
    · exact ⟨t, .self t, hy⟩
    · obtain ⟨f, hf, hx⟩ := ih y.1 hmem hx
      exact ⟨f, .child hmem hf, hx⟩
  exact step t (fun c hc => (h c hc).induction_children fun t _ => step t) hx

/-- Only nodes have children, and every node is named, so each child of each is visited. -/
theorem mem_visited_of_within (ht : ∀ c ∈ t.children, c.Shaped) (h : Tree.Within f t)
    (hx : x ∈ childrenToVisit f) : x ∈ visited t := by
  have hf : f.children ≠ [] :=
    List.ne_nil_of_mem (Tree.mem_namedChildren.mp (mem_childrenToVisit.mp hx).1).1
  induction h with
  | self => exact mem_visitAll.mpr ⟨x, hx, by rw [visits_eq]; exact List.mem_cons_self⟩
  | @child c t hc hwithin ih =>
    have hne : c.children ≠ [] := by
      cases hwithin with
      | self => exact hf
      | child hc' => exact List.ne_nil_of_mem hc'
    have hnamed : c ∈ t.namedChildren :=
      Tree.mem_namedChildren.mpr ⟨hc, (Profile.fits_of_eq ((ht c hc).fits hne)).notMark⟩
    obtain ⟨isBody, hvisit⟩ := exists_mem_childrenToVisit hnamed
    refine mem_visitAll.mpr ⟨(c, isBody), hvisit, ?_⟩
    rw [visits_eq]
    exact List.mem_cons_of_mem _ (ih fun c' => (ht c hc).of_mem_children)

theorem child?_body_iff (hf : f.Shaped) :
    f.child? .body = some c ↔ c ∈ f.children ∧ c.field? = some .body := by
  constructor
  · intro h
    exact ⟨List.mem_of_find?_eq_some h, by simpa using List.find?_some h⟩
  · rintro ⟨hc, hbody⟩
    have hcount := (Profile.fits_of_eq (hf.fits (List.ne_nil_of_mem hc))).bodies
    have hmem : c ∈ f.children.filter (·.field? = some .body) :=
      List.mem_filter.mpr ⟨hc, by simpa using hbody⟩
    rw [Profile.of, List.countP_eq_length_filter] at hcount
    obtain ⟨d, hd⟩ := List.length_eq_one_iff.mp
      (Nat.le_antisymm hcount (List.length_pos_of_mem hmem))
    rw [hd] at hmem
    rw [Tree.child?, ← List.head?_filter, hd, List.mem_singleton.mp hmem, List.head?_cons]

theorem kind_of_body (hc : c.Shaped) (hbody : c.field? = some .body) : c.kind = .block := by
  cases hc with
  | leaf _ _ _ hfield => exact absurd hbody hfield
  | comment => cases hbody
  | node _ hkind => exact hkind hbody

theorem isFunctionLike_iff : isFunctionLike t = true ↔
    t.kind = .functionDeclaration ∨ t.kind = .methodDeclaration ∨ t.kind = .funcLiteral := by
  simp [isFunctionLike, or_assoc]

end

/-! ## Braces and blocks -/

theorem filter_braces_eq {bs : List Block} (hapart : bs.Pairwise Block.Apart)
    (hlt : ∀ b ∈ bs, b.lbrace < b.rbrace) {b : Block} (hb : b ∈ bs) :
    bs.filter (fun a => a.lbrace = b.lbrace ∧ a.rbrace = b.rbrace) = [b] := by
  have hsub := hapart.sublist
    (List.filter_sublist (p := fun a => decide (a.lbrace = b.lbrace ∧ a.rbrace = b.rbrace)))
  have hmem : b ∈ bs.filter (fun a => a.lbrace = b.lbrace ∧ a.rbrace = b.rbrace) :=
    List.mem_filter.mpr ⟨hb, by simp⟩
  have hbraces : ∀ a ∈ bs.filter (fun a => a.lbrace = b.lbrace ∧ a.rbrace = b.rbrace),
      a.lbrace = b.lbrace ∧ a.rbrace = b.rbrace := fun a ha => by
    simpa using (List.mem_filter.mp ha).2
  match hfilter : bs.filter (fun a => a.lbrace = b.lbrace ∧ a.rbrace = b.rbrace) with
  | [] =>
    rw [hfilter] at hmem
    cases hmem
  | [a] =>
    rw [hfilter] at hmem
    rw [hfilter, List.mem_singleton.mp hmem]
  | a :: c :: rest =>
    rw [hfilter] at hsub hbraces
    have hac : a.Apart c := (List.pairwise_cons.mp hsub).1 c List.mem_cons_self
    have ha := hbraces a List.mem_cons_self
    have hc := hbraces c (List.mem_cons_of_mem _ List.mem_cons_self)
    have := hlt b hb
    unfold Block.Apart at hac
    omega

section

variable {cs : List Char} {root : Tree} (hroot : root.kind = .sourceFile)
  (hlaid : Tree.Laid cs root.children)
include hroot hlaid

theorem shaped_of_within {f : Tree} (h : Tree.Within f root) (hf : isFunctionLike f = true) :
    f.Shaped := by
  cases h with
  | self =>
    rw [isFunctionLike_iff, hroot] at hf
    simp at hf
  | child hc hwithin => exact (hwithin.laid (hlaid.of_mem hc)).shaped_self

/-- The blocks that are marked as bodies are those that the functions of the tree have. -/
theorem functionBody_mem_blocks_iff {l r : Nat} :
    ⟨l, r, .functionBody⟩ ∈ (ofTree root).blocks ↔ IsBodyPair root l r := by
  rw [mem_blocks_iff hroot]
  constructor
  · rintro ⟨⟨body, isBody⟩, hvisited, -, hpair, hkind⟩
    obtain rfl : isBody = true := by
      cases isBody
      · cases hkind
      · rfl
    obtain ⟨f, hwithin, hchild⟩ := parent_of_mem_visited hlaid.shaped hvisited
    obtain ⟨hf, hbody⟩ := mem_markBody_true_iff.mp (mem_childrenToVisit.mp hchild).2
    exact ⟨f, body, hwithin, isFunctionLike_iff.mp hf, hbody, hpair⟩
  · rintro ⟨f, body, hwithin, hf, hchild, hpair⟩
    rw [← isFunctionLike_iff] at hf
    have hshaped := shaped_of_within hroot hlaid hwithin hf
    obtain ⟨hmem, hbody⟩ := (child?_body_iff hshaped).mp hchild
    have hkind := kind_of_body (hshaped.of_mem_children hmem) hbody
    have hnamed : body ∈ f.namedChildren :=
      Tree.mem_namedChildren.mpr ⟨hmem, by rw [hkind]; decide⟩
    have hvisit : (body, true) ∈ childrenToVisit f :=
      mem_childrenToVisit.mpr ⟨hnamed, mem_markBody_true_iff.mpr ⟨hf, hchild⟩⟩
    exact ⟨(body, true), mem_visited_of_within hlaid.shaped hwithin hvisit, by rw [hkind]; rfl,
      hpair, rfl⟩

theorem filter_blocks_eq {b : Block} (hb : b ∈ (ofTree root).blocks) :
    (ofTree root).blocks.filter (fun a => a.lbrace = b.lbrace ∧ a.rbrace = b.rbrace) = [b] := by
  refine filter_braces_eq (blocks_apart hroot hlaid) (fun a ha => ?_) hb
  obtain ⟨t, ht⟩ := braced_of_mem_blocks hroot hlaid ha
  exact ht.lt

omit hroot hlaid in
theorem exists_of_mem_functions {f : FuncDecl} (hf : f ∈ (ofTree root).functions)
    {body : FuncBody} (hbody : body ∈ f.body) :
    ∃ t ∈ root.children, isFunctionLike t = true ∧
      ∃ c, t.child? .body = some c ∧ functionBody? c = some body := by
  obtain ⟨t, ht, hdecl⟩ := List.mem_filterMap.mp (mem_functions_iff.mp hf)
  have hfunction : isFunctionLike t = true ∧ f = function t := by
    unfold decl? at hdecl
    split at hdecl <;> cases hdecl <;> simp [isFunctionLike, *]
  obtain ⟨hlike, rfl⟩ := hfunction
  obtain ⟨c, hc, hbody⟩ := Option.bind_eq_some_iff.mp hbody
  exact ⟨t, (Tree.mem_namedChildren.mp ht).1, hlike, c, hc, hbody⟩

end

/-! ## First statements -/

section

variable {cs : List Char} {t s : Tree} {l r : Nat} {body : FuncBody}

theorem between_of_mem_blockStatements (h : Tree.Laid cs [t]) (hkind : t.kind = .block)
    (hpair : bracePair? t = some (l, r)) (hs : s ∈ blockStatements t) :
    l < s.start ∧ s.start < r := by
  obtain ⟨c, hc, hs⟩ := List.mem_flatMap.mp hs
  have hlaid := h.namedChildren.of_mem hc
  have hwithin : c.isComment = false ∧ Tree.Within s c := by
    split at hs
    case h_1 => cases hs
    case h_2 hlist =>
      have hmem := Tree.mem_namedChildren.mp (List.mem_of_mem_filter hs)
      exact ⟨by rw [Tree.isComment, hlist]; rfl, .child hmem.1 (.self s)⟩
    case h_3 hcomment _ =>
      rw [List.mem_singleton.mp hs]
      exact ⟨decide_eq_false hcomment, .self c⟩
  obtain ⟨hcomment, hwithin⟩ := hwithin
  have hbetween := between_of_block h hkind hpair hc hcomment
  have hspan := hwithin.span_within hlaid
  have hlt := (hwithin.laid hlaid).start_lt_stop
  omega

theorem bracePair?_of_functionBody? (h : functionBody? t = some body) :
    bracePair? t = some (body.lbrace, body.rbrace) := by
  obtain ⟨pair, hpair, rfl⟩ := Option.map_eq_some_iff.mp h
  exact hpair

theorem map_braces_body (t : Tree) :
    (function t).body.map (fun body => (body.lbrace, body.rbrace)) =
      (t.child? .body).bind bracePair? := by
  change ((t.child? .body).bind functionBody?).map _ = _
  rw [Option.map_bind]
  congr 1
  funext c
  simp [functionBody?, Function.comp_def]

theorem firstStmt_eq_none_of_functionBody? (h : functionBody? t = some body) :
    body.firstStmt = none ↔ body.statements = [] := by
  obtain ⟨pair, -, rfl⟩ := Option.map_eq_some_iff.mp h
  simp

theorem firstStmt_mem_of_functionBody? (h : functionBody? t = some body) {n : Nat}
    (hn : n ∈ body.firstStmt) : ∃ s ∈ blockStatements t, s.start = n := by
  obtain ⟨pair, -, rfl⟩ := Option.map_eq_some_iff.mp h
  obtain ⟨s, hs, rfl⟩ := Option.map_eq_some_iff.mp hn
  exact ⟨s, List.mem_of_head? hs, rfl⟩

end

theorem bodiesAgree_ofTree {cs : List Char} {root : Tree} (hroot : root.kind = .sourceFile)
    (hlaid : Tree.Laid cs root.children) : (ofTree root).BodiesAgree root where
  declared t ht hkind := by
    have hdecl : decl? t = some (.func (function t)) := by
      rcases hkind with hkind | hkind <;> rw [decl?, hkind]
    have hnamed : t ∈ root.namedChildren := by
      refine Tree.mem_namedChildren.mpr ⟨ht, ?_⟩
      rcases hkind with hkind | hkind <;> rw [hkind] <;> decide
    refine ⟨function t, mem_functions_iff.mpr (List.mem_filterMap.mpr ⟨t, hnamed, hdecl⟩), rfl, ?_⟩
    exact map_braces_body t
  listed f hf body hbody := by
    obtain ⟨t, ht, hlike, c, hc, hbody⟩ := exists_of_mem_functions hf hbody
    have hpair : IsBodyPair root body.lbrace body.rbrace :=
      ⟨t, c, .child ht (.self t), isFunctionLike_iff.mp hlike, hc,
        bracePair?_of_functionBody? hbody⟩
    exact filter_blocks_eq hroot hlaid ((functionBody_mem_blocks_iff hroot hlaid).mpr hpair)
  kind_iff b hb := by
    constructor
    · intro hkind
      refine (functionBody_mem_blocks_iff hroot hlaid).mp ?_
      rwa [← hkind]
    · intro hpair
      have hbody := (functionBody_mem_blocks_iff hroot hlaid).mpr hpair
      have hmem : b ∈ (ofTree root).blocks.filter
          (fun a => a.lbrace = b.lbrace ∧ a.rbrace = b.rbrace) :=
        List.mem_filter.mpr ⟨hb, by simp⟩
      rw [filter_blocks_eq hroot hlaid hbody] at hmem
      rw [List.mem_singleton.mp hmem]
  mem_of_isBodyPair l r := (functionBody_mem_blocks_iff hroot hlaid).mpr
  firstStmt_eq_none_iff f hf body hbody := by
    obtain ⟨t, -, -, c, -, hbody⟩ := exists_of_mem_functions hf hbody
    exact firstStmt_eq_none_of_functionBody? hbody
  firstStmt_between f hf body hbody n hn := by
    obtain ⟨t, ht, -, c, hc, hbody⟩ := exists_of_mem_functions hf hbody
    have ht := hlaid.of_mem ht
    obtain ⟨hmem, hfield⟩ := (child?_body_iff ht.shaped_self).mp hc
    have hc := ht.children.of_mem hmem
    obtain ⟨s, hs, rfl⟩ := firstStmt_mem_of_functionBody? hbody hn
    exact between_of_mem_blockStatements hc (kind_of_body hc.shaped_self hfield)
      (bracePair?_of_functionBody? hbody) hs

end LayoutLint.Outline
