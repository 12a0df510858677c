import LayoutLint.Proofs.Outline.WellFormed
import LayoutLint.Proofs.Source.Shifted

/-! # Outlines around bytes that are put in

Put bytes in between two tokens of a file and drop some of its comments. The outline of what is left
is that of the file, moved around the bytes: only the names of types and the list of comments depend
on comments.
-/

namespace LayoutLint

/-! ## Outlines with bytes put in -/

section

variable (place n : Nat)

def Block.shift (b : Block) : Block :=
  { b with lbrace := shiftStart place n b.lbrace, rbrace := shiftStart place n b.rbrace }

def FuncBody.shift (b : FuncBody) : FuncBody :=
  { b with
    lbrace := shiftStart place n b.lbrace
    rbrace := shiftStart place n b.rbrace
    firstStmt := b.firstStmt.map (shiftStart place n) }

def FuncDecl.shift (d : FuncDecl) : FuncDecl :=
  { d with
    span := d.span.shift place n
    params := d.params.shift place n
    body := d.body.map (FuncBody.shift place n) }

def Decl.shift : Decl → Decl
  | gen span keyword specs => gen (span.shift place n) keyword specs
  | func decl => func (decl.shift place n)
  | unrecognized span nodeKind => unrecognized (span.shift place n) nodeKind

/-- The outline with each offset where it comes to stand when `n` bytes are put in at `place`. -/
def Outline.shift (o : Outline) : Outline :=
  { o with
    package := o.package.shift place n
    imports := o.imports.map (Span.shift place n)
    decls := o.decls.map (Decl.shift place n)
    comments := o.comments.map (Comment.shift place n)
    blocks := o.blocks.map (Block.shift place n)
    defers := o.defers.map (Span.shift place n) }

@[simp] theorem Block.shift_zero : Block.shift place 0 = id := by
  funext b
  simp [Block.shift]

@[simp] theorem FuncBody.shift_zero : FuncBody.shift place 0 = id := by
  funext b
  simp [FuncBody.shift]

@[simp] theorem FuncDecl.shift_zero : FuncDecl.shift place 0 = id := by
  funext d
  simp [FuncDecl.shift]

@[simp] theorem Decl.shift_zero : Decl.shift place 0 = id := by
  funext d
  cases d <;> simp [Decl.shift]

theorem shiftStart_le_iff (a b : Nat) : shiftStart place n a ≤ shiftStart place n b ↔ a ≤ b := by
  unfold shiftStart
  split <;> split <;> omega

theorem shiftStop_le_iff (a b : Nat) : shiftStop place n a ≤ shiftStop place n b ↔ a ≤ b := by
  unfold shiftStop
  split <;> split <;> omega

theorem lexicographic_map {f g : Nat → Nat} (hf : ∀ a b, f a ≤ f b ↔ a ≤ b)
    (hg : ∀ a b, g a ≤ g b ↔ a ≤ b) (a b c d : Nat) :
    (f a < f c || (f a == f c && g b ≤ g d) : Bool) = (a < c || (a == c && b ≤ d) : Bool) := by
  have hle := hf a c
  have hge := hf c a
  have hsecond := hg b d
  rw [Bool.eq_iff_iff]
  simp only [Bool.or_eq_true, Bool.and_eq_true, decide_eq_true_eq, beq_iff_eq]
  omega

theorem Span.le_shift (s t : Span) : (s.shift place n).le (t.shift place n) = s.le t :=
  lexicographic_map (shiftStart_le_iff place n) (shiftStop_le_iff place n) _ _ _ _

theorem Outline.blockLe_shift (a b : Block) :
    blockLe (a.shift place n) (b.shift place n) = blockLe a b :=
  lexicographic_map (shiftStart_le_iff place n) (shiftStart_le_iff place n) _ _ _ _

end

namespace Outline

open Source Tree

/-! ## Bodies -/

section

variable {gone : Comment → Bool} {place n : Nat} {t : Tree}

theorem start_find?_shiftOf (hzero : shiftStart place n 0 = 0) {p : Tree → Bool}
    (hp : ∀ t : Tree, p (t.shift gone place n) = p t)
    (hgone : ∀ t : Tree, t.isGone gone = true → p t = false) {ts : List Tree}
    (hts : ∀ c ∈ ts, c.Trim gone) :
    ((shiftOf gone place n ts).find? p).map start =
      ((ts.find? p).map start).map (shiftStart place n) := by
  rw [find?_shiftOf hp hgone]
  cases hfound : ts.find? p with
  | none => rfl
  | some c => simp [start_shift hzero (hts c (List.mem_of_find?_eq_some hfound))]

theorem bracePair?_shift (hzero : shiftStart place n 0 = 0) (h : t.Trim gone) :
    bracePair? (t.shift gone place n) =
      (bracePair? t).map (Prod.map (shiftStart place n) (shiftStart place n)) := by
  have hpair : ∀ left right : Option Tree,
      (left.bind fun left => right.bind fun right => some (left.start, right.start)) =
        (left.map start).bind fun l => (right.map start).map (Prod.mk l) := by
    intro left right
    cases left <;> cases right <;> rfl
  have hchildren : ∀ c ∈ t.children, c.Trim gone := fun c hc => h.of_mem_children hc
  have hopening := start_find?_shiftOf hzero (p := (·.isMark "\x7b")) (by simp)
    (fun c hc => by obtain ⟨d, rfl, -⟩ := exists_of_isGone hc; rfl) hchildren
  have hclosing := start_find?_shiftOf hzero (p := fun c => c.isMark "\x7d" && !c.isMissing)
    (by simp) (fun c hc => by obtain ⟨d, rfl, -⟩ := exists_of_isGone hc; rfl)
    fun c hc => hchildren c (List.mem_reverse.mp hc)
  change (Option.bind _ fun _ => Option.bind _ fun _ => some _) =
    Option.map _ (Option.bind _ fun _ => Option.bind _ fun _ => some _)
  rw [hpair, hpair, children_shift, ← shiftOf_reverse, hopening, hclosing]
  cases (t.children.find? (·.isMark "\x7b")).map start <;>
    cases (t.children.reverse.find? fun c => c.isMark "\x7d" && !c.isMissing).map start <;> rfl

theorem blockStatements_shift (t : Tree) :
    blockStatements (t.shift gone place n) = (blockStatements t).map (Tree.shift gone place n) := by
  unfold blockStatements
  rw [namedChildren_shift]
  apply flatMap_shiftOf
  · intro c hc
    rw [kind_of_isGone hc]
  · intro c _
    rw [kind_shift]
    split
    · rfl
    · rw [namedChildren_shift, filter_isComment_shiftOf]
    · rfl

theorem exists_parent_of_mem_blockStatements {c : Tree} (h : c ∈ blockStatements t) :
    ∃ p, Tree.Within p t ∧ c ∈ p.children := by
  obtain ⟨d, hd, hc⟩ := List.mem_flatMap.mp h
  have hd := (mem_namedChildren.mp hd).1
  split at hc
  · cases hc
  · obtain ⟨hc, -⟩ := List.mem_filter.mp hc
    exact ⟨d, .child hd (.self d), (mem_namedChildren.mp hc).1⟩
  · rw [List.mem_singleton.mp hc]
    exact ⟨t, .self t, hd⟩

/-! ## Statements -/

theorem baseTypeName?_shift_of_kind (hpointer : t.kind ≠ .pointerType)
    (hparens : t.kind ≠ .parenthesizedType) :
    baseTypeName? (t.shift gone place n) = baseTypeName? t := by
  cases t with
  | leaf => rfl
  | comment => rfl
  | missing => rfl
  | node field kind children =>
    have hchild : (Source.Tree.node field kind (shiftOf gone place n children)).child? .type =
        ((Source.Tree.node field kind children).child? .type).map (Tree.shift gone place n) :=
      child?_shift (.node field kind children) .type
    rw [Tree.shift]
    unfold baseTypeName?
    split
    · rw [hchild]
      cases Tree.child? (.node field .genericType children) .type with
      | none => rfl
      | some c => simp
    · exact absurd rfl hpointer
    · exact absurd rfl hparens
    · rfl

theorem expression_shift (t : Tree) : expression (t.shift gone place n) = expression t := by
  unfold expression
  rw [kind_shift, text_shift, child?_shift, child?_shift]
  split
  · rfl
  · cases t.child? .operator with
    | none => rfl
    | some operator =>
      cases t.child? .operand with
      | none => rfl
      | some operand =>
        simp only [Option.map_some, Option.bind_eq_bind, Option.bind_some, text_shift, kind_shift]
        split
        · rw [child?_shift]
          cases operand.child? .type with
          | none => rfl
          | some type =>
            simp only [Option.map_some, Option.bind_some, kind_shift]
            split
            case isTrue hkind =>
              have hkind : type.kind = .typeIdentifier ∨ type.kind = .genericType := by
                simpa using hkind
              rw [baseTypeName?_shift_of_kind]
              · rcases hkind with hkind | hkind <;> rw [hkind] <;> decide
              · rcases hkind with hkind | hkind <;> rw [hkind] <;> decide
            case isFalse => rfl
        · rfl
  · rfl

theorem expressions_shift (t : Tree) : expressions (t.shift gone place n) = expressions t := by
  unfold expressions
  rw [namedChildren_shift, filter_isComment_shiftOf, List.map_map]
  apply List.map_congr_left
  intro c _
  exact expression_shift c

theorem assignment_shift (t : Tree) : assignment (t.shift gone place n) = assignment t := by
  have htargets : ((t.child? .left).map (Tree.shift gone place n)).elim [] (fun left =>
        (left.namedChildren.filter (!·.isComment)).map fun c =>
          if c.kind = .identifier then some c.text else none) =
      (t.child? .left).elim [] fun left =>
        (left.namedChildren.filter (!·.isComment)).map fun c =>
          if c.kind = .identifier then some c.text else none := by
    cases t.child? .left with
    | none => rfl
    | some left =>
      rw [Option.map_some, Option.elim_some, Option.elim_some, namedChildren_shift,
        filter_isComment_shiftOf, List.map_map]
      apply List.map_congr_left
      intro c _
      simp
  have hvalues : ((t.child? .right).map (Tree.shift gone place n)).elim [] expressions =
      (t.child? .right).elim [] expressions := by
    cases t.child? .right with
    | none => rfl
    | some right => exact expressions_shift right
  unfold assignment
  rw [child?_shift, child?_shift, hvalues]
  exact congrArg (Stmt.assign · _) htargets

theorem statement_shift (t : Tree) : statement (t.shift gone place n) = statement t := by
  unfold statement
  rw [kind_shift, child?_shift, assignment_shift, namedChildren_shift]
  split
  · rw [find?_kind_shiftOf (by decide)]
    cases t.namedChildren.find? (·.kind = .expressionList) with
    | none => rfl
    | some list => rw [Option.map_some, Option.elim_some, Option.elim_some, expressions_shift]
  · cases t.child? .operator <;> simp
  · rfl
  · rfl

theorem functionBody?_shift (hzero : shiftStart place n 0 = 0) (h : t.Trim gone) :
    functionBody? (t.shift gone place n) = (functionBody? t).map (FuncBody.shift place n) := by
  have hfirst : ((blockStatements t).map (Tree.shift gone place n)).head?.map start =
      ((blockStatements t).head?.map start).map (shiftStart place n) := by
    cases hhead : (blockStatements t).head? with
    | none => simp [hhead]
    | some c =>
      obtain ⟨p, hp, hmem⟩ := exists_parent_of_mem_blockStatements (List.mem_of_head? hhead)
      simp [hhead, start_shift hzero ((h.of_within hp).of_mem_children hmem)]
  have hstatements : ((blockStatements t).map (Tree.shift gone place n)).map statement =
      (blockStatements t).map statement := by
    rw [List.map_map]
    apply List.map_congr_left
    intro c _
    exact statement_shift c
  unfold functionBody?
  rw [bracePair?_shift hzero h, blockStatements_shift, hfirst, hstatements]
  cases bracePair? t <;> rfl

end

/-! ## Declarations -/

section

variable {gone : Comment → Bool} {place n : Nat}

def receiverType? (t : Tree) : Option Tree := (t.child? .receiver).bind firstParameterType?

/-- The types of a result; a parameter with several names counts once for each. -/
def typesOfResult (t : Tree) : List Tree :=
  if t.kind ≠ .parameterList then [t]
  else t.namedChildren.flatMap fun param =>
    if param.kind = .parameterDeclaration || param.kind = .variadicParameterDeclaration then
      match param.child? .type with
      | none => []
      | some type =>
        let names := (param.children.filter (·.field? = some .name)).length
        List.replicate (max names 1) type
    else []

def typesOfResults (t : Tree) : List Tree := (t.child? .result).elim [] typesOfResult

theorem resultTypes_eq_map (t : Tree) : resultTypes t = (typesOfResult t).map typeRef := by
  unfold resultTypes typesOfResult
  split
  · rfl
  · rw [List.map_flatMap]
    congr 1
    funext param
    split
    · cases param.child? .type <;> simp
    · rfl

theorem receiver_function (t : Tree) :
    (function t).receiver = (receiverType? t).bind baseTypeName? := by
  unfold receiverType?
  rw [Option.bind_assoc]
  rfl

theorem results_function (t : Tree) :
    (function t).results = (typesOfResults t).map typeRef := by
  unfold typesOfResults
  change (t.child? .result).elim [] resultTypes = _
  cases t.child? .result with
  | none => rfl
  | some c => exact resultTypes_eq_map c

theorem firstParameterType?_shift (t : Tree) :
    firstParameterType? (t.shift gone place n) =
      (firstParameterType? t).map (Tree.shift gone place n) := by
  unfold firstParameterType?
  rw [namedChildren_shift, find?_kind_shiftOf (by decide)]
  cases t.namedChildren.find? (·.kind = .parameterDeclaration) with
  | none => rfl
  | some param => exact child?_shift param .type

theorem receiverType?_shift (t : Tree) :
    receiverType? (t.shift gone place n) = (receiverType? t).map (Tree.shift gone place n) := by
  unfold receiverType?
  rw [child?_shift]
  cases t.child? .receiver with
  | none => rfl
  | some list => exact firstParameterType?_shift list

theorem typesOfResult_shift (t : Tree) :
    typesOfResult (t.shift gone place n) = (typesOfResult t).map (Tree.shift gone place n) := by
  unfold typesOfResult
  rw [kind_shift]
  split
  · rfl
  · rw [namedChildren_shift]
    apply flatMap_shiftOf
    · intro param hc
      simp [kind_of_isGone hc]
    · intro param _
      have hnames : ((shiftOf gone place n param.children).filter
            (·.field? = some .name)).length =
          (param.children.filter (·.field? = some .name)).length := by
        rw [filter_shiftOf_eq_map (fun c => by rw [field?_shift]) fun c hc => by
          obtain ⟨d, rfl, -⟩ := exists_of_isGone hc
          rfl, List.length_map]
      rw [kind_shift, child?_shift, children_shift]
      split
      · cases param.child? .type with
        | none => rfl
        | some type => simp only [Option.map_some, hnames, List.map_replicate]
      · rfl

theorem typesOfResults_shift (t : Tree) :
    typesOfResults (t.shift gone place n) = (typesOfResults t).map (Tree.shift gone place n) := by
  unfold typesOfResults
  rw [child?_shift]
  cases t.child? .result with
  | none => rfl
  | some result => exact typesOfResult_shift result

theorem typeSpecs_shift (t : Tree) : typeSpecs (t.shift gone place n) = typeSpecs t := by
  unfold typeSpecs
  rw [namedChildren_shift, filter_shiftOf_eq_map (fun c => by rw [kind_shift]) fun c hc => by
    simp [kind_of_isGone hc], List.map_map]
  apply List.map_congr_left
  intro c _
  have hshape : typeShape (c.shift gone place n) = typeShape c := by
    unfold typeShape
    rw [child?_shift, kind_shift, Option.map_map]
    have hkind : kind ∘ Tree.shift gone place n = kind := funext (kind_shift gone place n)
    rw [hkind]
  rw [Function.comp, text_child?_shift, hshape]

end

section

variable {gone : Comment → Bool} {place n : Nat} {t : Tree}

def signature (t : Tree) : FuncDecl := { function t with receiver := none, results := [] }

variable (hzero : shiftStart place n 0 = 0)
include hzero

theorem zero_shift : Span.zero.shift place n = Span.zero := by
  rw [Span.shift, Span.zero, hzero, shiftStop, if_pos (Nat.zero_le _)]

theorem signature_shift (h : t.Fits gone place n) :
    signature (t.shift gone place n) = (signature t).shift place n := by
  have hparams : ((t.shift gone place n).child? .parameters).elim Span.zero span =
      ((t.child? .parameters).elim Span.zero span).shift place n := by
    rw [child?_shift]
    cases hchild : t.child? .parameters with
    | none => exact (zero_shift hzero).symm
    | some c => exact span_shift hzero (h.of_child? hchild)
  have hbody : ((t.shift gone place n).child? .body).bind functionBody? =
      ((t.child? .body).bind functionBody?).map (FuncBody.shift place n) := by
    rw [child?_shift]
    cases hchild : t.child? .body with
    | none => rfl
    | some c => exact functionBody?_shift hzero (h.of_child? hchild).trim
  unfold signature function FuncDecl.shift
  simp only [text_child?_shift, hparams, hbody, span_shift hzero h]

theorem importSpans_shift (h : t.Fits gone place n) :
    importSpans (t.shift gone place n) = (importSpans t).map (Span.shift place n) := by
  induction t using induction_on_children with
  | step t ih =>
    rw [importSpans_eq, importSpans_eq, children_shift]
    apply flatMap_shiftOf
    · intro c hc
      rw [specSpans, kind_of_isGone hc]
    · intro c hc
      unfold specSpans
      rw [kind_shift]
      split
      · rw [span_shift hzero (h.of_mem_children hc)]
        rfl
      · exact ih c hc (h.of_mem_children hc)
      · rfl

theorem decl?_shift (h : t.Fits gone place n) (hkind : t.kind ≠ .functionDeclaration)
    (hkind' : t.kind ≠ .methodDeclaration) :
    decl? (t.shift gone place n) = (decl? t).map (Decl.shift place n) := by
  unfold decl?
  rw [kind_shift, span_shift hzero h, typeSpecs_shift]
  split
  case h_8 hfunction => exact absurd hfunction hkind
  case h_9 hmethod => exact absurd hmethod hkind'
  all_goals rfl

/-! ## What stands at any depth -/

def shiftStack (gone : Comment → Bool) (place n : Nat) (stack : List (Tree × Bool)) :
    List (Tree × Bool) :=
  (stack.filter (!·.1.isGone gone)).map fun x => (x.1.shift gone place n, x.2)

omit hzero in
theorem markBody_shift (hasBody : Bool) (ts : List Tree) :
    markBody hasBody (shiftOf gone place n ts) =
      shiftStack gone place n (markBody hasBody ts) := by
  induction ts generalizing hasBody with
  | nil => rfl
  | cons t ts ih =>
    rw [shiftOf, markBody, shiftStack]
    cases hc : t.isGone gone with
    | true =>
      obtain ⟨c, rfl, -⟩ := exists_of_isGone hc
      rw [if_pos rfl, ih, List.filter_cons_of_neg (by simp [hc]), shiftStack]
      simp [Tree.field?]
    | false =>
      rw [if_neg (by decide), markBody, ih, List.filter_cons_of_pos (by simp [hc]),
        List.map_cons, shiftStack, field?_shift]

omit hzero in
theorem childrenToVisit_shift (t : Tree) :
    childrenToVisit (t.shift gone place n) = shiftStack gone place n (childrenToVisit t) := by
  have hlike : isFunctionLike (t.shift gone place n) = isFunctionLike t := by
    rw [isFunctionLike, kind_shift, isFunctionLike]
  unfold childrenToVisit
  rw [hlike, children_shift, markBody_shift, shiftStack, shiftStack, List.filter_map,
    List.filter_filter, List.filter_filter]
  congr 2
  funext x
  rw [Function.comp, isNamed_shift, Bool.and_comm]

omit hzero in
theorem shiftStack_append (xs ys : List (Tree × Bool)) :
    shiftStack gone place n (xs ++ ys) =
      shiftStack gone place n xs ++ shiftStack gone place n ys := by
  rw [shiftStack, List.filter_append, List.map_append, shiftStack, shiftStack]

omit hzero in
theorem shiftStack_reverse (xs : List (Tree × Bool)) :
    shiftStack gone place n xs.reverse = (shiftStack gone place n xs).reverse := by
  rw [shiftStack, List.filter_reverse, List.map_reverse, shiftStack]

theorem blocks_nestedHere_shift (h : t.Fits gone place n) (isBody : Bool) :
    (nestedHere (t.shift gone place n) isBody).blocks =
      (nestedHere t isBody).blocks.map (Block.shift place n) := by
  rw [blocks_nestedHere, blocks_nestedHere, kind_shift, bracePair?_shift hzero h.trim]
  split
  · cases bracePair? t <;> rfl
  · rfl

theorem defers_nestedHere_shift (h : t.Fits gone place n) (isBody : Bool) :
    (nestedHere (t.shift gone place n) isBody).defers =
      (nestedHere t isBody).defers.map (Span.shift place n) := by
  rw [defers_nestedHere, defers_nestedHere, kind_shift, span_shift hzero h]
  split <;> rfl

theorem collect_shift {found found' : Nested} {stack : List (Tree × Bool)}
    (hfits : ∀ x ∈ stack, x.1.Fits gone place n)
    (hblocks : found'.blocks = found.blocks.map (Block.shift place n))
    (hdefers : found'.defers = found.defers.map (Span.shift place n)) :
    (collect found' (shiftStack gone place n stack)).blocks =
        (collect found stack).blocks.map (Block.shift place n) ∧
      (collect found' (shiftStack gone place n stack)).defers =
        (collect found stack).defers.map (Span.shift place n) := by
  fun_induction collect found stack generalizing found' with
  | case1 found =>
    rw [show shiftStack gone place n [] = [] from rfl, collect]
    exact ⟨hblocks, hdefers⟩
  | case2 found t isBody stack ih =>
    obtain ⟨ht, hstack⟩ := List.forall_mem_cons.mp hfits
    have hbelow : ∀ x ∈ (childrenToVisit t).reverse ++ stack, x.1.Fits gone place n := by
      intro x hx
      rcases List.mem_append.mp hx with hx | hx
      · have hmem := (mem_childrenToVisit.mp (List.mem_reverse.mp hx)).1
        exact ht.of_mem_children (mem_namedChildren.mp hmem).1
      · exact hstack x hx
    cases hc : t.isGone gone with
    | true =>
      have hcons : shiftStack gone place n ((t, isBody) :: stack) =
          shiftStack gone place n stack := by
        rw [shiftStack, List.filter_cons_of_neg (by simp [hc]), shiftStack]
      obtain ⟨c, rfl, -⟩ := exists_of_isGone hc
      rw [hcons]
      exact ih hbelow hblocks hdefers
    | false =>
      have hcons : shiftStack gone place n ((t, isBody) :: stack) =
          (t.shift gone place n, isBody) :: shiftStack gone place n stack := by
        rw [shiftStack, List.filter_cons_of_pos (by simp [hc]), List.map_cons, shiftStack]
      rw [hcons, collect, childrenToVisit_shift, ← shiftStack_reverse, ← shiftStack_append]
      apply ih hbelow
      · change _ ++ found'.blocks = ((nestedHere t isBody).blocks ++ found.blocks).map _
        rw [blocks_nestedHere_shift hzero ht, hblocks, List.map_append]
      · change _ ++ found'.defers = ((nestedHere t isBody).defers ++ found.defers).map _
        rw [defers_nestedHere_shift hzero ht, hdefers, List.map_append]

/-! ## Files -/

/-- The outline but for declarations and comments. -/
def frame (o : Outline) : Outline := { o with decls := [], comments := [] }

variable {root : Tree} (hroot : root.kind = .sourceFile)
  (htrees : ∀ t ∈ root.children, t.Fits gone place n)
include htrees

omit hzero in
theorem fits_of_mem_filter {kind : NodeKind} {t : Tree}
    (ht : t ∈ root.namedChildren.filter (·.kind = kind)) : t.Fits gone place n :=
  htrees t (mem_namedChildren.mp (List.mem_filter.mp ht).1).1

theorem package_shift :
    (ofTree (root.shift gone place n)).package = (ofTree root).package.shift place n := by
  change Option.elim (List.filter _ (root.shift _ _ _).namedChildren).getLast? _ _ =
    Span.shift place n (Option.elim (root.namedChildren.filter _).getLast? _ _)
  rw [namedChildren_shift, filter_kind_shiftOf (by decide), List.getLast?_map]
  cases hlast : (root.namedChildren.filter (·.kind = .packageClause)).getLast? with
  | none => exact (zero_shift hzero).symm
  | some t => exact span_shift hzero (fits_of_mem_filter htrees (List.mem_of_getLast? hlast))

theorem imports_shift :
    (ofTree (root.shift gone place n)).imports =
      (ofTree root).imports.map (Span.shift place n) := by
  change List.flatMap _ (List.filter _ (root.shift _ _ _).namedChildren) =
    ((root.namedChildren.filter _).flatMap _).map _
  rw [namedChildren_shift, filter_kind_shiftOf (by decide), List.flatMap_map, List.map_flatMap]
  apply List.flatMap_congr
  intro t ht
  exact importSpans_shift hzero (fits_of_mem_filter htrees ht)

include hroot

theorem nested_shift :
    (nested (root.shift gone place n)).blocks =
        (nested root).blocks.map (Block.shift place n) ∧
      (nested (root.shift gone place n)).defers =
        (nested root).defers.map (Span.shift place n) := by
  have hroot' : (root.shift gone place n).kind = .sourceFile := by rw [kind_shift, hroot]
  rw [nested, nested, collect, collect, childrenToVisit_shift, List.append_nil,
    List.append_nil, ← shiftStack_reverse, nestedHere_of_sourceFile hroot,
    nestedHere_of_sourceFile hroot']
  apply collect_shift hzero _ rfl rfl
  intro x hx
  have hmem := (mem_childrenToVisit.mp (List.mem_reverse.mp hx)).1
  exact htrees x.1 (mem_namedChildren.mp hmem).1

/-- But for declarations, nothing in the outline looks at comments. -/
theorem frame_shift :
    (ofTree (root.shift gone place n)).frame = (ofTree root).frame.shift place n := by
  obtain ⟨hblocks, hdefers⟩ := nested_shift hzero hroot htrees
  have hblocks : (ofTree (root.shift gone place n)).blocks =
      (ofTree root).blocks.map (Block.shift place n) := by
    change List.mergeSort _ _ = List.map _ (List.mergeSort _ _)
    rw [hblocks]
    exact (List.map_mergeSort fun a _ b _ => (blockLe_shift place n a b).symm).symm
  have hdefers : (ofTree (root.shift gone place n)).defers =
      (ofTree root).defers.map (Span.shift place n) := by
    change List.mergeSort _ _ = List.map _ (List.mergeSort _ _)
    rw [hdefers]
    exact (List.map_mergeSort fun s _ t _ => (Span.le_shift place n s t).symm).symm
  have herrors : (ofTree (root.shift gone place n)).hasSyntaxErrors =
      (ofTree root).hasSyntaxErrors := hasError_shift root
  unfold frame Outline.shift
  rw [package_shift hzero htrees, imports_shift hzero htrees, hblocks, hdefers, herrors]
  rfl

end

end Outline

end LayoutLint
