import LayoutLint.Proofs.Source.Layout

/-! # What a block starts with

Nodes of one kind come from one production, so what that production reads shows in each of them. In
a block the opening brace comes first. Only comments stand between it and the first statement, or
the closing brace where there is none.
-/

namespace LayoutLint.Source

/-! ## Nodes of one kind -/

/-- Each node of the kind in the tree has the property of its children. -/
def Tree.Nodes (kind : NodeKind) (P : List Tree → Prop) (t : Tree) : Prop :=
  ∀ field children, Within (.node field kind children) t → P children

namespace Tree

variable {kind : NodeKind} {P : List Tree → Prop} {t : Tree}

theorem nodes_of_children_eq_nil (h : t.children = []) (hnode : ∀ field, t ≠ .node field kind []) :
    t.Nodes kind P := by
  intro field children hwithin
  cases hwithin with
  | self => exact absurd (h ▸ rfl) (hnode field)
  | child hc =>
    rw [h] at hc
    cases hc

theorem nodes_node {field : Option Field} {kind' : NodeKind} {children : List Tree}
    (hself : kind' = kind → P children) (hchildren : ∀ c ∈ children, c.Nodes kind P) :
    (Tree.node field kind' children).Nodes kind P := by
  intro field' children' hwithin
  cases hwithin with
  | self => exact hself rfl
  | child hc hwithin => exact hchildren _ hc field' children' hwithin

theorem Nodes.withField (h : t.Nodes kind P) (field : Field) :
    (t.withField field).Nodes kind P := by
  cases t with
  | leaf => exact nodes_of_children_eq_nil rfl nofun
  | comment => exact nodes_of_children_eq_nil rfl nofun
  | missing => exact nodes_of_children_eq_nil rfl nofun
  | node field' kind' children =>
    apply nodes_node
    · rintro rfl
      exact h field' children (.self _)
    · intro c hc field'' children' hwithin
      exact h field'' children' (.child hc hwithin)

end Tree

namespace Grammar

open LayoutLint.Source.Tree

variable {ρ : Type} {body : ρ → Grammar ρ} {kind : NodeKind} {P : List Tree → Prop}

/-- The grammar makes no node of the kind, except in phrases. -/
def avoids (kind : NodeKind) : Grammar ρ → Bool
  | .wrap kind' _ => kind' ≠ kind
  | .seq a b | .alt a b => a.avoids kind && b.avoids kind
  | .many a | .scope a | .label _ a | .inMode _ a => a.avoids kind
  | _ => true

/-- Whatever the grammar reads in a scope of its own has the property, and it makes no node of the
kind. -/
def Fills (body : ρ → Grammar ρ) (kind : NodeKind) (P : List Tree → Prop) (a : Grammar ρ) : Prop :=
  a.avoids kind = true ∧ ∀ {ts acc ts'}, Reads body a [] ts acc ts' →
    P (acc.reverse.dropWhile isComment)

theorem nodes_push {leaf : Tree} (hleaf : leaf.Nodes kind P) (t : Token) {acc : List Tree}
    (hacc : ∀ t ∈ acc, t.Nodes kind P) : ∀ u ∈ push leaf t acc, u.Nodes kind P := by
  intro u hu
  rcases List.mem_cons.mp hu with rfl | hu
  · exact hleaf
  rcases List.mem_append.mp hu with hu | hu
  · obtain ⟨c, -, rfl⟩ := List.mem_map.mp hu
    exact nodes_of_children_eq_nil rfl nofun
  · exact hacc u hu

theorem nodes_wrapAll {kind' : NodeKind} {field : Option Field} {acc : List Tree}
    (hself : kind' = kind → P (acc.reverse.dropWhile isComment))
    (hacc : ∀ t ∈ acc, t.Nodes kind P) : ∀ u ∈ wrapAll kind' field acc, u.Nodes kind P := by
  intro u hu
  rcases List.mem_cons.mp hu with rfl | hu
  · apply nodes_node hself
    intro c hc
    exact hacc c (List.mem_reverse.mp ((List.dropWhile_suffix _).subset hc))
  · exact hacc u (List.mem_reverse.mp ((List.takeWhile_prefix _).subset (List.mem_reverse.mp hu)))

theorem nodes_labelLast {field : Field} {acc : List Tree} (hacc : ∀ t ∈ acc, t.Nodes kind P) :
    ∀ u ∈ labelLast field acc, u.Nodes kind P := by
  cases acc with
  | nil => exact hacc
  | cons t acc =>
    intro u hu
    rcases List.mem_cons.mp hu with rfl | hu
    · exact (hacc t (.head _)).withField field
    · exact hacc u (.tail _ hu)

theorem nodes_append {as bs : List Tree} (has : ∀ t ∈ as, t.Nodes kind P)
    (hbs : ∀ t ∈ bs, t.Nodes kind P) : ∀ t ∈ as ++ bs, t.Nodes kind P := by
  intro t ht
  rcases List.mem_append.mp ht with ht | ht
  · exact has t ht
  · exact hbs t ht

/-- Where one phrase makes the nodes of a kind, what it reads shows in each of them. -/
theorem Reads.nodes
    (hbody : ∀ name, (body name).avoids kind = true ∨
      ∃ a, body name = node kind a ∧ Fills body kind P a)
    {g : Grammar ρ} {acc acc' : List Tree} {ts ts' : List Token}
    (h : Reads body g acc ts acc' ts') (hacc : ∀ t ∈ acc, t.Nodes kind P) :
    (g.avoids kind = true → ∀ t ∈ acc', t.Nodes kind P) ∧
    (∀ a, g = .seq a (.wrap kind) → Fills body kind P a → acc = [] → ∀ t ∈ acc', t.Nodes kind P) ∧
    (∀ a, g = node kind a → Fills body kind P a → ∀ t ∈ acc', t.Nodes kind P) := by
  have hleaf : ∀ {field kind' t}, (Tree.leaf field kind' t).Nodes kind P :=
    nodes_of_children_eq_nil rfl nofun
  induction h with
  | empty | sameLine | noBlock | ahead | lineEnd | manyStop =>
    exact ⟨fun _ => hacc, nofun, nofun⟩
  | mark | word | wordAmong | literal | semicolon =>
    exact ⟨fun _ => nodes_push hleaf _ hacc, nofun, nofun⟩
  | endOfText =>
    refine ⟨fun _ => nodes_append ?_ hacc, nofun, nofun⟩
    intro u hu
    obtain ⟨c, -, rfl⟩ := List.mem_map.mp hu
    exact nodes_of_children_eq_nil rfl nofun
  | @seq a b acc acc' acc'' ts ts' ts'' ha hb iha ihb =>
    refine ⟨fun hg => ?_, ?_, nofun⟩
    · obtain ⟨hga, hgb⟩ := Bool.and_eq_true_iff.mp hg
      exact (ihb ((iha hacc).1 hga)).1 hgb
    · rintro a' heq hfills rfl
      cases heq
      cases hb
      exact nodes_wrapAll (fun _ => hfills.2 ha) ((iha hacc).1 hfills.1)
  | altLeft _ ih => exact ⟨fun hg => (ih hacc).1 (Bool.and_eq_true_iff.mp hg).1, nofun, nofun⟩
  | altRight _ ih => exact ⟨fun hg => (ih hacc).1 (Bool.and_eq_true_iff.mp hg).2, nofun, nofun⟩
  | manyStep _ _ iha ihb => exact ⟨fun hg => (ihb ((iha hacc).1 hg)).1 hg, nofun, nofun⟩
  | scope _ ih =>
    have hinner := ih (by simp)
    refine ⟨fun hg => nodes_append (hinner.1 hg) hacc, nofun, ?_⟩
    rintro a heq hfills
    cases heq
    exact nodes_append (hinner.2.1 a rfl hfills rfl) hacc
  | wrap =>
    refine ⟨fun hg => nodes_wrapAll (fun heq => ?_) hacc, nofun, nofun⟩
    exact absurd heq (of_decide_eq_true hg)
  | label _ ih =>
    exact ⟨fun hg => nodes_append (nodes_labelLast ((ih (by simp)).1 hg)) hacc, nofun, nofun⟩
  | inMode _ ih => exact ⟨fun hg => (ih hacc).1 hg, nofun, nofun⟩
  | @phrase name _ _ _ _ _ ih =>
    refine ⟨fun _ => ?_, nofun, nofun⟩
    rcases hbody name with havoids | ⟨a, heq, hfills⟩
    · exact (ih hacc).1 havoids
    · exact (ih hacc).2.2 a heq hfills

/-! ## Grammars that make one node -/

/-- The grammar ends by making a node of its scope. -/
def wraps : Grammar ρ → Bool
  | .wrap kind _ => kind ≠ .mark && kind ≠ .comment
  | .seq _ b => b.wraps
  | .alt a b => a.wraps && b.wraps
  | .fail => true
  | _ => false

/-- The grammar makes one node, if each of the phrases does. -/
def makesNode [DecidableEq ρ] (phrases : List ρ) : Grammar ρ → Bool
  | .scope a => a.wraps
  | .alt a b => a.makesNode phrases && b.makesNode phrases
  | .phrase name => name ∈ phrases
  | .fail => true
  | _ => false

def IsNode (acc : List Tree) : Prop :=
  ∃ kind field inner, kind ≠ .mark ∧ kind ≠ .comment ∧ acc = wrapAll kind field inner

theorem Reads.isNode_of_wraps {g : Grammar ρ} {acc acc' : List Tree} {ts ts' : List Token}
    (h : Reads body g acc ts acc' ts') (hg : g.wraps = true) : IsNode acc' := by
  induction h with
  | seq _ _ _ ih => exact ih hg
  | altLeft _ ih => exact ih (Bool.and_eq_true_iff.mp hg).1
  | altRight _ ih => exact ih (Bool.and_eq_true_iff.mp hg).2
  | wrap =>
    obtain ⟨hmark, hcomment⟩ := Bool.and_eq_true_iff.mp hg
    exact ⟨_, _, _, of_decide_eq_true hmark, of_decide_eq_true hcomment, rfl⟩
  | _ => cases hg

theorem Reads.exists_isNode [DecidableEq ρ] {phrases : List ρ}
    (hbody : ∀ name ∈ phrases, (body name).makesNode phrases = true) {g : Grammar ρ}
    {acc acc' : List Tree} {ts ts' : List Token} (h : Reads body g acc ts acc' ts')
    (hg : g.makesNode phrases = true) : ∃ inner, IsNode inner ∧ acc' = inner ++ acc := by
  induction h with
  | scope ha => exact ⟨_, ha.isNode_of_wraps hg, rfl⟩
  | altLeft _ ih => exact ih (Bool.and_eq_true_iff.mp hg).1
  | altRight _ ih => exact ih (Bool.and_eq_true_iff.mp hg).2
  | phrase _ ih => exact ih (hbody _ (of_decide_eq_true hg))
  | _ => cases hg

theorem IsNode.exists_append {acc : List Tree} (h : IsNode acc) :
    ∃ comments t, acc.reverse = comments ++ [t] ∧ (∀ c ∈ comments, c.isComment = true) ∧
      t.isNamed = true ∧ t.isComment = false := by
  obtain ⟨kind, field, inner, hmark, hcomment, rfl⟩ := h
  refine ⟨inner.reverse.takeWhile isComment,
    .node field kind (inner.reverse.dropWhile isComment), ?_, fun c => List.mem_takeWhile_imp,
    decide_eq_true hmark, decide_eq_false hcomment⟩
  rw [wrapAll, List.reverse_cons, List.reverse_reverse]

/-! ## What single forms read -/

section

variable {a b : Grammar ρ} {acc acc' : List Tree} {ts ts' : List Token}

theorem Reads.of_seq (h : Reads body (.seq a b) acc ts acc' ts') :
    ∃ mid ts₁, Reads body a acc ts mid ts₁ ∧ Reads body b mid ts₁ acc' ts' := by
  cases h with
  | seq ha hb => exact ⟨_, _, ha, hb⟩

theorem Reads.of_mark {text : String} (h : Reads body (.mark text) acc ts acc' ts') :
    ∃ t, isMark text t = true ∧ acc' = push (.leaf none .mark t) t acc := by
  cases h with
  | mark ht => exact ⟨_, ht, rfl⟩

theorem Reads.of_node (h : Reads body (node kind a) acc ts acc' ts') :
    ∃ inner ts₁, Reads body a [] ts inner ts₁ ∧ acc' = wrapAll kind none inner ++ acc := by
  cases h with
  | scope hscope =>
    obtain ⟨inner, ts₁, ha, hwrap⟩ := hscope.of_seq
    cases hwrap
    exact ⟨inner, _, ha, rfl⟩

theorem Reads.of_opt_terminator (h : Reads body (opt .terminator) acc ts acc' ts') :
    ∃ more, acc' = more ++ acc := by
  cases h with
  | altLeft h =>
    cases h with
    | lineEnd => exact ⟨[], rfl⟩
    | semicolon => exact ⟨_ :: _, rfl⟩
  | altRight h =>
    cases h
    exact ⟨[], rfl⟩

theorem dropWhile_push (leaf : Tree) (t : Token) (hleaf : leaf.isComment = false)
    (more : List Tree) :
    ((more ++ push leaf t []).reverse).dropWhile isComment = leaf :: more.reverse := by
  rw [List.reverse_append, push, List.append_nil, List.reverse_cons, List.append_assoc,
    List.dropWhile_append_of_pos]
  · rw [List.singleton_append, List.dropWhile_cons_of_neg (by simp [hleaf])]
  · intro c hc
    obtain ⟨c, -, rfl⟩ := List.mem_map.mp (List.mem_reverse.mp hc)
    rfl

end

end Grammar

/-! ## Blocks -/

/-- The first thing in the list of statements is a statement. -/
def StartsWithStatement (children : List Tree) : Prop :=
  ∃ first others, children = first :: others ∧ first.isNamed = true ∧ first.isComment = false

/-- The children of a block: its brace, comments, and a list of statements or the other brace. -/
structure BlockChildren (children : List Tree) (left : Tree) (comments : List Tree) (next : Tree)
    (rest : List Tree) : Prop where
  eq : children = left :: (comments ++ next :: rest)
  opening : left.look = .opening
  comments : ∀ c ∈ comments, c.isComment = true
  next : next.kind = .statementList ∧ StartsWithStatement next.children ∨
    next.look = .closing ∧ rest = []

namespace Productions

open LayoutLint.Source.Tree LayoutLint.Source.Grammar

def statementItem : Grammar Phrase := choice [emptyLabel, phrase .statement]

theorem statementList_eq :
    statementList = .alt (.seq (.inMode .line (node .statementList
      (sepBy statementItem terminator))) (opt terminator)) .empty := rfl

theorem exists_append_of_many {acc acc' : List Tree} {ts ts' : List Token}
    (h : Reads Phrase.body (many (terminator ++ statementItem)) acc ts acc' ts') :
    ∃ more, acc' = more ++ acc := by
  have hfollow : (follow Phrase.shape false (many (terminator ++ statementItem))
      .empty).isSome = true := by decide +kernel
  obtain ⟨ps, hps⟩ := Option.isSome_iff_exists.mp hfollow
  obtain ⟨p, -, more, hmore, -⟩ := h.grows Phrase.leads_body
    (Grows.nothing nofun : Grows false acc .empty acc) (leads_of_follow hps (List.Subset.refl ps))
  exact ⟨more, hmore⟩

theorem startsWithStatement {acc : List Tree} {ts ts' : List Token}
    (h : Reads Phrase.body (sepBy statementItem terminator) [] ts acc ts') :
    StartsWithStatement (acc.reverse.dropWhile isComment) := by
  have hphrases : ∀ name ∈ [.statement, .block, .ifStatement],
      (Phrase.body name).makesNode [.statement, .block, .ifStatement] = true := by decide
  obtain ⟨mid, ts₁, hitem, hmany⟩ := h.of_seq
  obtain ⟨inner, hnode, rfl⟩ := hitem.exists_isNode hphrases (by decide)
  obtain ⟨more, rfl⟩ := exists_append_of_many hmany
  obtain ⟨comments, first, hinner, hcomments, hnamed, hcomment⟩ := hnode.exists_append
  refine ⟨first, more.reverse, ?_, hnamed, hcomment⟩
  rw [List.append_nil, List.reverse_append, hinner, List.append_assoc,
    List.dropWhile_append_of_pos hcomments, List.singleton_append,
    List.dropWhile_cons_of_neg (by simp [hcomment])]

theorem look_of_isMark {text : String} {t : Token} (h : Grammar.isMark text t = true) :
    (Tree.leaf none .mark t).look = .of .mark text := by
  rw [Grammar.isMark, Bool.and_eq_true_iff, beq_iff_eq] at h
  rw [look, ← h.2]
  rfl

theorem blockChildren {acc : List Tree} {ts ts' : List Token}
    (h : Reads Phrase.body (mark "\x7b" ++ statementList ++ mark "\x7d") [] ts acc ts') :
    ∃ left comments next rest,
      BlockChildren (acc.reverse.dropWhile isComment) left comments next rest := by
  obtain ⟨acc₂, ts₂, h, hclose⟩ := h.of_seq
  obtain ⟨acc₁, ts₁, hopen, hlist⟩ := h.of_seq
  obtain ⟨left, hleft, rfl⟩ := hopen.of_mark
  obtain ⟨right, hright, rfl⟩ := hclose.of_mark
  have hopening := look_of_isMark hleft
  have hclosing := look_of_isMark hright
  rw [statementList_eq] at hlist
  cases hlist with
  | altRight hempty =>
    cases hempty
    refine ⟨_, right.comments.map .comment, _, [], ?_, hopening, by simp [isComment, kind],
      .inr ⟨hclosing, rfl⟩⟩
    have hdrop := dropWhile_push (.leaf none .mark left) left rfl
      (.leaf none .mark right :: right.comments.reverse.map .comment)
    rw [push, ← List.cons_append, hdrop]
    simp
  | altLeft hstatements =>
    obtain ⟨acc₃, ts₃, hnode, hend⟩ := hstatements.of_seq
    cases hnode with
    | inMode hnode =>
      obtain ⟨inner, ts₄, hitems, rfl⟩ := hnode.of_node
      obtain ⟨more, rfl⟩ := hend.of_opt_terminator
      refine ⟨_, inner.reverse.takeWhile isComment,
        .node none .statementList (inner.reverse.dropWhile isComment),
        more.reverse ++ (right.comments.map .comment ++ [.leaf none .mark right]), ?_, hopening,
        fun c => List.mem_takeWhile_imp, .inl ⟨rfl, startsWithStatement hitems⟩⟩
      have hdrop := dropWhile_push (.leaf none .mark left) left rfl
        (.leaf none .mark right :: (right.comments.reverse.map .comment ++
          (more ++ wrapAll .statementList none inner)))
      rw [push, ← List.append_assoc, ← List.append_assoc, ← List.cons_append,
        List.append_assoc (right.comments.reverse.map Tree.comment), hdrop, wrapAll]
      simp

/-- In each block of a tree that was read, comments stand between its brace and its first statement
or its other brace. -/
theorem nodes_block {acc : List Tree} {ts ts' : List Token}
    (h : Reads Phrase.body sourceFile [] ts acc ts') :
    ∀ t ∈ acc, t.Nodes .block fun children =>
      ∃ left comments next rest, BlockChildren children left comments next rest := by
  refine (h.nodes ?_ (by simp)).1 (by decide)
  intro name
  cases name with
  | block => exact .inr ⟨_, rfl, by decide, blockChildren⟩
  | _ => exact .inl (by decide)

end Productions

theorem exists_blockChildren_of_parse? {ts : List Token} {root : Tree} (h : parse? ts = some root)
    {field : Option Field} {children : List Tree}
    (hblock : Tree.Within (.node field .block children) root) :
    ∃ left comments next rest, BlockChildren children left comments next rest := by
  obtain ⟨⟨acc, ts'⟩, hread, rfl⟩ := Option.map_eq_some_iff.mp h
  have hnodes := Productions.nodes_block (Grammar.reads_of_read hread)
  cases hblock with
  | child hc hwithin => exact hnodes _ (List.mem_reverse.mp hc) field children hwithin

end LayoutLint.Source
