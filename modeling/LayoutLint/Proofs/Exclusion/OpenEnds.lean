import LayoutLint.Proofs.Exclusion.Folders

/-! # Patterns with open ends

A pattern leaves out the paths that it matches and those that hold what is left of its text without
its `**`. It leaves out nothing but what it matches exactly if its end is open, so that any text may
stand after what it asks for, and it matches what is left of its text after any beginning. Without
sets it does so exactly if its start is open too. Where an end is not open, a path can be left out
for a mere part of a component.
-/

namespace LayoutLint

namespace Glob

/-- How a pattern without sets is read: its text, its pieces, and what is left of the text without
its `**`. The flag tells whether a component may start here. -/
inductive Reads : Bool → List Char → List Piece → List Char → Prop where
  | nil {starts : Bool} : Reads starts [] [] []
  | char {starts : Bool} {c : Char} {text left : List Char} {pieces : List Piece}
      (plain : isPlain c) (rest : Reads (c == '/') text pieces left) :
      Reads starts (c :: text) (.char c :: pieces) (c :: left)
  | anyChar {starts : Bool} {text left : List Char} {pieces : List Piece}
      (rest : Reads false text pieces left) :
      Reads starts ('?' :: text) (.anyChar :: pieces) ('?' :: left)
  | anyText {starts : Bool} {text left : List Char} {pieces : List Piece}
      (single : text.head? ≠ some '*') (rest : Reads false text pieces left) :
      Reads starts ('*' :: text) (.anyText :: pieces) ('*' :: left)
  | last : Reads true ['*', '*'] [.anyComponents] []
  | components {text left : List Char} {pieces : List Piece} (rest : Reads true text pieces left) :
      Reads true ('*' :: '*' :: '/' :: text) (.anyComponents :: pieces) ('/' :: left)

theorem exists_of_cons_eq_ok {result : Except Error (List Piece)} {piece : Piece}
    {pieces : List Piece} (h : (do return piece :: (← result)) = Except.ok pieces) :
    ∃ rest, result = .ok rest ∧ pieces = piece :: rest := by
  cases result with
  | error e => cases h
  | ok rest => exact ⟨rest, rfl, (Except.ok.inj h).symm⟩

theorem reads_of_parseFrom {position : Nat} {last : Option Char} {text : List Char}
    {pieces : List Piece} (hsets : '[' ∉ text) (h : parseFrom position last text = .ok pieces) :
    Reads (last.all (· = '/')) text pieces (Exclusion.dropStars text) := by
  fun_induction parseFrom position last text generalizing pieces
  case case1 =>
    cases h
    exact .nil
  case case2 ih =>
    obtain ⟨pieces, hrest, rfl⟩ := exists_of_cons_eq_ok h
    exact .anyChar (ih (List.not_mem_of_not_mem_cons hsets) hrest)
  case case4 hstarts _ =>
    cases h
    rw [hstarts]
    exact .last
  case case5 hstarts rest _ ih =>
    obtain ⟨pieces, hrest, rfl⟩ := exists_of_cons_eq_ok h
    rw [hstarts]
    exact .components (ih (fun hmem => hsets (by simp [hmem])) hrest)
  case case8 rest _ hsingle ih =>
    obtain ⟨pieces, hrest, rfl⟩ := exists_of_cons_eq_ok h
    rw [Exclusion.dropStars]
    · refine .anyText ?_ (ih (List.not_mem_of_not_mem_cons hsets) hrest)
      rw [ne_eq, List.head?_eq_some_iff]
      rintro ⟨tail, htail⟩
      exact hsingle tail htail
    · simpa using hsingle
  case case9 | case10 => simp at hsets
  case case11 c rest hany _ _ htext hset ih =>
    obtain ⟨pieces, hrest, rfl⟩ := exists_of_cons_eq_ok h
    rw [Exclusion.dropStars]
    · refine .char ?_ (ih (List.not_mem_of_not_mem_cons hsets) hrest)
      simpa [isPlain] using ⟨⟨hany, htext⟩, hset⟩
    · exact fun _ hc => absurd hc htext
  all_goals cases h

theorem Reads.anyComponents_mem {starts : Bool} {text left : List Char} {pieces : List Piece}
    (h : Reads starts text pieces left) (hstars : ['*', '*'] <:+: text) :
    Piece.anyComponents ∈ pieces := by
  induction h with
  | nil => simp at hstars
  | char plain _ ih =>
    rcases List.infix_cons_iff.mp hstars with hhere | hrest
    · obtain ⟨rfl, -⟩ := List.cons_prefix_cons.mp hhere
      exact absurd plain (by decide)
    · exact List.mem_cons_of_mem _ (ih hrest)
  | anyChar _ ih =>
    rcases List.infix_cons_iff.mp hstars with hhere | hrest
    · obtain ⟨hc, -⟩ := List.cons_prefix_cons.mp hhere
      exact absurd hc (by decide)
    · exact List.mem_cons_of_mem _ (ih hrest)
  | anyText single _ ih =>
    rcases List.infix_cons_iff.mp hstars with hhere | hrest
    · obtain ⟨-, tail, rfl⟩ := List.cons_prefix_cons.mp hhere
      exact absurd rfl single
    · exact List.mem_cons_of_mem _ (ih hrest)
  | last => exact List.mem_cons_self
  | components => exact List.mem_cons_self

/-! ## Open ends -/

def takesText : List Piece → Bool
  | .anyText :: _ => true
  | .anyChar :: pieces => takesText pieces
  | _ => false

/-- The pieces start with `**`, or with `*` after any number of `?`. -/
def opensHere : List Piece → Bool
  | .anyComponents :: _ => true
  | pieces => takesText pieces

/-- The pieces leave open how a path starts. -/
def startsOpen : List Piece → Bool
  | .char c :: pieces => c = '/' && opensHere pieces
  | pieces => opensHere pieces

/-- The pieces leave open how a path ends: they end with `**`, or with `*` before any number of
`?`. -/
def endsOpen : List Piece → Bool
  | [] => false
  | .anyComponents :: pieces => pieces.isEmpty || endsOpen pieces
  | .anyText :: pieces => pieces.all (· = .anyChar) || endsOpen pieces
  | _ :: pieces => endsOpen pieces

/-- The piece stands for one character, whichever it is. -/
def Piece.TakesAny : Piece → Prop
  | .anyChar => True
  | .within ranges => ∀ c, inRanges ranges c = true
  | .except ranges => ∀ c, inRanges ranges c = false
  | _ => False

/-- The same with sets, which may stand for any character like `?`. -/
def EndsOpen : List Piece → Prop
  | [] => False
  | .anyComponents :: pieces => pieces = [] ∨ EndsOpen pieces
  | .anyText :: pieces => (∀ p ∈ pieces, p.TakesAny) ∨ EndsOpen pieces
  | _ :: pieces => EndsOpen pieces

theorem forall_takesAny {pieces : List Piece} (h : pieces.all (· = .anyChar) = true) :
    ∀ p ∈ pieces, p.TakesAny := by
  intro p hp
  rw [of_decide_eq_true (List.all_eq_true.mp h p hp)]
  trivial

/-! ### What is left of a pattern -/

theorem matchPieces_of_takesAny {pieces : List Piece} {text : List Char}
    (hpieces : ∀ p ∈ pieces, p.TakesAny) :
    matchPieces pieces text = true ↔ text.length = pieces.length := by
  induction pieces generalizing text with
  | nil => simp [matchPieces]
  | cons piece pieces ih =>
    obtain ⟨hpiece, hrest⟩ := List.forall_mem_cons.mp hpieces
    cases text with
    | nil => cases piece <;> first | exact hpiece.elim | simp [matchPieces]
    | cons c text =>
      cases piece with
      | anyChar => simp [matchPieces, ih hrest]
      | within ranges => simp [matchPieces, hpiece c, ih hrest]
      | except ranges => simp [matchPieces, hpiece c, ih hrest]
      | _ => exact hpiece.elim

theorem matchPieces_anyText {pieces : List Piece} {text : List Char} :
    matchPieces (.anyText :: pieces) text = true ↔
      ∃ before rest, text = before ++ rest ∧ matchPieces pieces rest = true := by
  rw [matchPieces, anyEnd_iff]

theorem matchPieces_anyText_append {pieces : List Piece} {text : List Char}
    (h : matchPieces (.anyText :: pieces) text = true) (before : List Char) :
    matchPieces (.anyText :: pieces) (before ++ text) = true := by
  obtain ⟨taken, rest, rfl, hrest⟩ := matchPieces_anyText.mp h
  exact matchPieces_anyText.mpr ⟨before ++ taken, rest, (List.append_assoc _ _ _).symm, hrest⟩

theorem matchPieces_anyText_of_length_le {pieces : List Piece} {text : List Char}
    (hpieces : ∀ p ∈ pieces, p.TakesAny) (hlength : pieces.length ≤ text.length) :
    matchPieces (.anyText :: pieces) text = true := by
  refine matchPieces_anyText.mpr ⟨text.take (text.length - pieces.length),
    text.drop (text.length - pieces.length), (List.take_append_drop _ _).symm,
    (matchPieces_of_takesAny hpieces).mpr ?_⟩
  rw [List.length_drop]
  omega

theorem matchPieces_anyComponents {pieces : List Piece} {text : List Char} :
    matchPieces (.anyComponents :: pieces) text = true ↔
      pieces = [] ∨ matchPieces pieces text = true ∨
        ∃ before rest, text = before ++ '/' :: rest ∧ matchPieces pieces rest = true := by
  rw [matchPieces, Bool.or_eq_true, Bool.or_eq_true, anyComponentEnd_iff, List.isEmpty_iff,
    or_assoc]

section

variable {starts : Bool} {text left : List Char} {pieces : List Piece}

theorem Reads.length_le (h : Reads starts text pieces left) (hpieces : pieces.all (· = .anyChar)) :
    pieces.length ≤ left.length := by
  induction h with
  | nil => exact Nat.le_refl _
  | anyChar _ ih =>
    rw [List.all_cons, Bool.and_eq_true] at hpieces
    exact Nat.succ_le_succ (ih hpieces.2)
  | _ => simp at hpieces

/-- Where the end is open, the pieces match what is left of their text and whatever follows. -/
theorem Reads.matchPieces_left (h : Reads starts text pieces left) (hend : endsOpen pieces)
    (after : List Char) : matchPieces pieces (left ++ after) = true := by
  induction h with
  | nil => cases hend
  | char _ _ ih => simp [matchPieces, ih hend]
  | anyChar _ ih => simp [matchPieces, ih hend]
  | anyText _ rest ih =>
    rw [endsOpen, Bool.or_eq_true] at hend
    rcases hend with hall | hend
    · have hlength := rest.length_le hall
      exact matchPieces_anyText_of_length_le (forall_takesAny hall) (by simp; omega)
    · exact matchPieces_anyText.mpr ⟨['*'], _, rfl, ih hend⟩
  | last => rfl
  | components rest ih =>
    rw [endsOpen, Bool.or_eq_true, List.isEmpty_iff] at hend
    exact matchPieces_anyComponents.mpr (hend.imp_right fun hend => .inr ⟨[], _, rfl, ih hend⟩)

theorem Reads.matchPieces_of_takesText (h : Reads starts text pieces left)
    (hstart : takesText pieces) (hend : endsOpen pieces) (before after : List Char) :
    matchPieces pieces (before ++ (left ++ after)) = true := by
  have hleft := h.matchPieces_left hend after
  induction h generalizing before with
  | anyText => exact matchPieces_anyText_append hleft before
  | anyChar _ ih =>
    cases before with
    | nil => exact hleft
    | cons c before =>
      have hrest := ih hstart hend (before ++ ['?']) hleft
      rwa [List.append_assoc] at hrest
  | _ => cases hstart

theorem Reads.matchPieces_of_opensHere (h : Reads starts text pieces left)
    (hstart : opensHere pieces) (hend : endsOpen pieces) (before after : List Char) :
    matchPieces pieces (before ++ (left ++ after)) = true := by
  have htakes := fun hstart => h.matchPieces_of_takesText hstart hend before after
  cases h with
  | last => rfl
  | components rest =>
    rw [endsOpen, Bool.or_eq_true, List.isEmpty_iff] at hend
    refine matchPieces_anyComponents.mpr (hend.imp_right fun hend => .inr ?_)
    exact ⟨before, _, rfl, rest.matchPieces_left hend after⟩
  | _ => exact htakes hstart

theorem Reads.matchPieces_of_isInfix (h : Reads starts text pieces left)
    (hstart : startsOpen pieces) (hend : endsOpen pieces) {path : List Char}
    (hpath : path.head? = some '/') (hleft : left <:+: path) : matchPieces pieces path = true := by
  obtain ⟨before, after, rfl⟩ := hleft
  have hopens := fun hstart => h.matchPieces_of_opensHere hstart hend before after
  rw [List.append_assoc] at hpath ⊢
  cases h with
  | @char _ c _ left pieces plain rest =>
    obtain ⟨hslash, hstart⟩ : c = '/' ∧ opensHere pieces := by simpa [startsOpen] using hstart
    subst hslash
    cases before with
    | nil => simpa [matchPieces] using rest.matchPieces_of_opensHere hstart hend [] after
    | cons b before =>
      obtain rfl : b = '/' := by simpa using hpath
      have hrest := rest.matchPieces_of_opensHere hstart hend (before ++ ['/']) after
      simpa [matchPieces] using hrest
  | _ => exact hopens hstart

end

/-! ### Texts that go on -/

theorem matchPieces_append {pieces : List Piece} {text : List Char} (hend : EndsOpen pieces)
    (h : matchPieces pieces text = true) (after : List Char) :
    matchPieces pieces (text ++ after) = true := by
  induction pieces generalizing text with
  | nil => exact hend.elim
  | cons piece pieces ih =>
    cases piece with
    | anyComponents =>
      rcases hend with rfl | hend
      · rfl
      · refine matchPieces_anyComponents.mpr (.inr ?_)
        rcases matchPieces_anyComponents.mp h with rfl | hrest | ⟨before, rest, rfl, hrest⟩
        · exact hend.elim
        · exact .inl (ih hend hrest)
        · exact .inr ⟨before, rest ++ after, by simp, ih hend hrest⟩
    | anyText =>
      obtain ⟨before, rest, rfl, hrest⟩ := matchPieces_anyText.mp h
      rcases hend with hany | hend
      · have hlength := (matchPieces_of_takesAny hany).mp hrest
        exact matchPieces_anyText_of_length_le hany (by simp; omega)
      · exact matchPieces_anyText.mpr ⟨before, rest ++ after, by simp, ih hend hrest⟩
    | _ =>
      cases text with
      | nil => cases h
      | cons c text =>
        simp only [matchPieces, List.cons_append, Bool.and_eq_true] at h ⊢
        first | exact ih hend h | exact ⟨h.1, ih hend h.2⟩

/-! ### Ends that are not open -/

def Piece.isStar : Piece → Bool
  | .anyText => true
  | .anyComponents => true
  | _ => false

theorem matchPieces_cons_iff {piece : Piece} {pieces : List Piece} {text : List Char}
    (hpiece : piece.isStar = false) :
    matchPieces (piece :: pieces) text = true ↔
      ∃ c rest, text = c :: rest ∧ matchPieces [piece] [c] = true ∧
        matchPieces pieces rest = true := by
  cases text with
  | nil => cases piece <;> simp_all [matchPieces, Piece.isStar]
  | cons c text => cases piece <;> simp_all [matchPieces, Piece.isStar]

theorem length_of_matchPieces {pieces : List Piece} {text : List Char}
    (hpieces : ∀ p ∈ pieces, p.isStar = false) (h : matchPieces pieces text = true) :
    text.length = pieces.length := by
  induction pieces generalizing text with
  | nil => simpa [matchPieces] using h
  | cons piece pieces ih =>
    obtain ⟨hpiece, hpieces⟩ := List.forall_mem_cons.mp hpieces
    obtain ⟨c, rest, rfl, -, hrest⟩ := (matchPieces_cons_iff hpiece).mp h
    rw [List.length_cons, List.length_cons, ih hpieces hrest]

theorem matchPieces_of_mem {pieces : List Piece} {n : Nat} {d : Char}
    (hpieces : ∀ p ∈ pieces, p.isStar = false)
    (h : matchPieces pieces (List.replicate n d) = true) {p : Piece} (hp : p ∈ pieces) :
    matchPieces [p] [d] = true := by
  induction pieces generalizing n with
  | nil => cases hp
  | cons piece pieces ih =>
    obtain ⟨hpiece, hpieces⟩ := List.forall_mem_cons.mp hpieces
    obtain ⟨c, rest, hd, hc, hrest⟩ := (matchPieces_cons_iff hpiece).mp h
    cases n with
    | zero => cases hd
    | succ n =>
      obtain ⟨rfl, rfl⟩ := List.cons.inj hd
      rcases List.mem_cons.mp hp with rfl | hp
      · exact hc
      · exact ih hpieces hrest hp

theorem exists_suffix_of_matchPieces {front pieces : List Piece} {text : List Char}
    (hne : pieces ≠ []) (h : matchPieces (front ++ pieces) text = true) :
    ∃ rest, rest <:+ text ∧ matchPieces pieces rest = true := by
  induction front generalizing text with
  | nil => exact ⟨text, List.suffix_rfl, h⟩
  | cons piece front ih =>
    have hpart : ∃ rest, rest <:+ text ∧ matchPieces (front ++ pieces) rest = true := by
      cases hpiece : piece.isStar with
      | false =>
        obtain ⟨c, rest, rfl, -, hrest⟩ := (matchPieces_cons_iff hpiece).mp h
        exact ⟨rest, List.suffix_cons c rest, hrest⟩
      | true =>
        cases piece with
        | anyText =>
          obtain ⟨before, rest, rfl, hrest⟩ := matchPieces_anyText.mp h
          exact ⟨rest, List.suffix_append before rest, hrest⟩
        | anyComponents =>
          rcases matchPieces_anyComponents.mp h with hnil | h | ⟨before, rest, rfl, hrest⟩
          · exact absurd (List.append_eq_nil_iff.mp hnil).2 hne
          · exact ⟨text, List.suffix_rfl, h⟩
          · exact ⟨rest, (List.suffix_cons '/' rest).trans (List.suffix_append before _), hrest⟩
        | _ => cases hpiece
    obtain ⟨rest, hrest, hmatch⟩ := hpart
    obtain ⟨last, hlast, hmatch⟩ := ih hmatch
    exact ⟨last, hlast.trans hrest, hmatch⟩

theorem isStar_of_set? {text after : List Char} {piece : Piece}
    (h : set? text = some (piece, after)) : piece.isStar = false := by
  unfold set? at h
  split at h
  all_goals
    obtain ⟨_, -, heq⟩ := Option.map_eq_some_iff.mp h
    obtain ⟨rfl, -⟩ := Prod.mk.inj heq
    rfl

theorem exists_slash_of_cons {piece : Piece} {pieces front tail : List Piece} {path : List Char}
    {starts : Bool} (hpiece : piece.isStar = false) (hstarts : starts = true → piece = .char '/')
    (heq : front ++ .anyComponents :: tail = piece :: pieces)
    (h : matchPieces (front ++ .anyComponents :: tail) path = true)
    (ih : ∀ {front path}, pieces = front ++ .anyComponents :: tail →
      matchPieces (front ++ .anyComponents :: tail) path = true →
      (∃ rest, '/' :: rest <:+ path ∧ rest.length = tail.length) ∨
        starts = true ∧ path.length = tail.length) :
    ∃ rest, '/' :: rest <:+ path ∧ rest.length = tail.length := by
  cases front with
  | nil =>
    obtain ⟨rfl, -⟩ := List.cons.inj heq
    cases hpiece
  | cons first front =>
    obtain ⟨rfl, hpieces⟩ := List.cons.inj heq
    obtain ⟨c, text, rfl, hc, htext⟩ := (matchPieces_cons_iff hpiece).mp h
    rcases ih hpieces.symm htext with ⟨rest, hrest, hlength⟩ | ⟨hslash, hlength⟩
    · exact ⟨rest, hrest.trans (List.suffix_cons c text), hlength⟩
    · obtain rfl := hstarts hslash
      obtain rfl : '/' = c := by simpa [matchPieces] using hc
      exact ⟨text, List.suffix_rfl, hlength⟩

theorem exists_slash_of_anyComponents {pieces front tail : List Piece} {path : List Char}
    (htail : ∀ p ∈ tail, p.isStar = false) (hne : tail ≠ [])
    (heq : front ++ .anyComponents :: tail = .anyComponents :: pieces)
    (h : matchPieces (front ++ .anyComponents :: tail) path = true)
    (ih : ∀ {front path}, pieces = front ++ .anyComponents :: tail →
      matchPieces (front ++ .anyComponents :: tail) path = true →
      (∃ rest, '/' :: rest <:+ path ∧ rest.length = tail.length) ∨ path.length = tail.length) :
    (∃ rest, '/' :: rest <:+ path ∧ rest.length = tail.length) ∨ path.length = tail.length := by
  cases front with
  | nil =>
    rcases matchPieces_anyComponents.mp h with hnil | hall | ⟨before, after, rfl, hafter⟩
    · exact absurd hnil hne
    · exact .inr (length_of_matchPieces htail hall)
    · exact .inl ⟨after, List.suffix_append before _, length_of_matchPieces htail hafter⟩
  | cons first front =>
    obtain ⟨rfl, hpieces⟩ := List.cons.inj heq
    rcases matchPieces_anyComponents.mp h with hnil | hall | ⟨before, after, rfl, hafter⟩
    · simp at hnil
    · exact ih hpieces.symm hall
    · rcases ih hpieces.symm hafter with ⟨rest, hsuffix, hlength⟩ | hlength
      · have htrans := (List.suffix_cons '/' after).trans (List.suffix_append before _)
        exact .inl ⟨rest, hsuffix.trans htrans, hlength⟩
      · exact .inl ⟨after, List.suffix_append before _, hlength⟩

/-- What follows the last `**` takes as many characters as it has pieces, after a slash or where a
component may start. -/
theorem exists_slash_of_parseFrom {position : Nat} {last : Option Char} {text path : List Char}
    {front tail : List Piece}
    (hparse : parseFrom position last text = .ok (front ++ .anyComponents :: tail))
    (htail : ∀ p ∈ tail, p.isStar = false) (hne : tail ≠ [])
    (h : matchPieces (front ++ .anyComponents :: tail) path = true) :
    (∃ rest, '/' :: rest <:+ path ∧ rest.length = tail.length) ∨
      last.all (· = '/') = true ∧ path.length = tail.length := by
  fun_induction parseFrom position last text generalizing front path
  case case1 => simp at hparse
  case case2 ih =>
    obtain ⟨pieces, hrest, heq⟩ := exists_of_cons_eq_ok hparse
    exact .inl (exists_slash_of_cons rfl (by decide) heq h fun hpieces => ih (hpieces ▸ hrest))
  case case4 =>
    have hlength := congrArg List.length (Except.ok.inj hparse)
    simp only [List.length_append, List.length_cons, List.length_nil] at hlength
    exact absurd (List.length_eq_zero_iff.mp (by omega)) hne
  case case5 hstarts _ _ ih =>
    obtain ⟨pieces, hrest, heq⟩ := exists_of_cons_eq_ok hparse
    refine (exists_slash_of_anyComponents htail hne heq h ?_).imp_right fun hlength =>
      ⟨hstarts, hlength⟩
    intro front path hpieces hmatch
    exact (ih (hpieces ▸ hrest) hmatch).imp_right And.right
  case case8 ih =>
    obtain ⟨pieces, hrest, heq⟩ := exists_of_cons_eq_ok hparse
    cases front with
    | nil => cases heq
    | cons first front =>
      obtain ⟨rfl, rfl⟩ := List.cons.inj heq
      obtain ⟨before, after, rfl, hafter⟩ := matchPieces_anyText.mp h
      rcases ih hrest hafter with ⟨rest, hsuffix, hlength⟩ | ⟨hslash, -⟩
      · exact .inl ⟨rest, hsuffix.trans (List.suffix_append before after), hlength⟩
      · cases hslash
  case case10 hset _ ih =>
    obtain ⟨pieces, hrest, heq⟩ := exists_of_cons_eq_ok hparse
    exact .inl (exists_slash_of_cons (isStar_of_set? hset) (by simp) heq h fun hpieces =>
      ih (hpieces ▸ hrest))
  case case11 ih =>
    obtain ⟨pieces, hrest, heq⟩ := exists_of_cons_eq_ok hparse
    exact .inl (exists_slash_of_cons rfl (by simp) heq h fun hpieces => ih (hpieces ▸ hrest))
  all_goals cases hparse

theorem forall_isStar_or_exists (pieces : List Piece) :
    (∀ p ∈ pieces, p.isStar = false) ∨
      ∃ front star tail, pieces = front ++ star :: tail ∧ star.isStar = true ∧
        ∀ p ∈ tail, p.isStar = false := by
  induction pieces with
  | nil => exact .inl (by simp)
  | cons piece pieces ih =>
    rcases ih with hpieces | ⟨front, star, tail, rfl, hstar, htail⟩
    · cases hpiece : piece.isStar with
      | false => exact .inl (List.forall_mem_cons.mpr ⟨hpiece, hpieces⟩)
      | true => exact .inr ⟨[], piece, pieces, rfl, hpiece, hpieces⟩
    · exact .inr ⟨piece :: front, star, tail, rfl, hstar, htail⟩

theorem EndsOpen.append {pieces : List Piece} (h : EndsOpen pieces) (front : List Piece) :
    EndsOpen (front ++ pieces) := by
  induction front with
  | nil => exact h
  | cons piece front ih =>
    cases piece with
    | anyText => exact .inr ih
    | anyComponents => exact .inr ih
    | _ => exact ih

theorem exists_ne_char (c : Char) : ∃ d, d ≠ c := by
  by_cases hc : c = 'a'
  · exact ⟨'b', by rw [hc]; decide⟩
  · exact ⟨'a', Ne.symm hc⟩

theorem exists_not_matchPieces {p : Piece} (hstar : p.isStar = false) (h : ¬ p.TakesAny) :
    ∃ d, matchPieces [p] [d] = false := by
  cases p with
  | char c =>
    obtain ⟨d, hd⟩ := exists_ne_char c
    exact ⟨d, by simp [matchPieces, hd.symm]⟩
  | anyChar => exact absurd trivial h
  | within ranges =>
    obtain ⟨d, hd⟩ := not_forall.mp h
    exact ⟨d, by simpa [matchPieces] using hd⟩
  | except ranges =>
    obtain ⟨d, hd⟩ := not_forall.mp h
    exact ⟨d, by simpa [matchPieces] using hd⟩
  | _ => cases hstar

theorem eq_of_suffix_append {before rest ending : List Char} (h : rest <:+ before ++ ending)
    (hlength : rest.length = ending.length) : rest = ending :=
  (List.suffix_of_suffix_length_le h (List.suffix_append before ending)
    (Nat.le_of_eq hlength)).eq_of_length hlength

/-- Pieces that do not leave the end open exclude some texts by their last characters. -/
theorem exists_ending {position : Nat} {last : Option Char} {text : List Char}
    {pieces : List Piece} (hparse : parseFrom position last text = .ok pieces)
    (hend : ¬ EndsOpen pieces) :
    ∃ ending, ∀ before, ¬ matchPieces pieces (before ++ ending) = true := by
  rcases forall_isStar_or_exists pieces with hstars | ⟨front, star, tail, rfl, hstar, htail⟩
  · refine ⟨List.replicate (pieces.length + 1) 'a', fun before h => ?_⟩
    have hlength := length_of_matchPieces hstars h
    simp only [List.length_append, List.length_replicate] at hlength
    omega
  cases star with
  | anyText =>
    have hclosed : ¬ EndsOpen (.anyText :: tail) := fun hopen => hend (hopen.append front)
    obtain ⟨p, hp, hany⟩ : ∃ p ∈ tail, ¬ p.TakesAny := by
      by_contra hall
      push Not at hall
      exact hclosed (.inl hall)
    obtain ⟨d, hd⟩ := exists_not_matchPieces (htail p hp) hany
    refine ⟨List.replicate tail.length d, fun before h => ?_⟩
    obtain ⟨_, hsuffix, hfound⟩ := exists_suffix_of_matchPieces (List.cons_ne_nil _ _) h
    obtain ⟨taken, rest, rfl, hrest⟩ := matchPieces_anyText.mp hfound
    have hlength := length_of_matchPieces htail hrest
    rw [eq_of_suffix_append ((List.suffix_append taken rest).trans hsuffix)
      (by simpa using hlength)] at hrest
    rw [matchPieces_of_mem htail hrest hp] at hd
    cases hd
  | anyComponents =>
    have hclosed : ¬ EndsOpen (.anyComponents :: tail) := fun hopen => hend (hopen.append front)
    have hne : tail ≠ [] := fun hnil => hclosed (.inl hnil)
    refine ⟨List.replicate (tail.length + 1) 'a', fun before h => ?_⟩
    rcases exists_slash_of_parseFrom hparse htail hne h with ⟨rest, hrest, hlength⟩ | ⟨-, hlength⟩
    · have heq := eq_of_suffix_append hrest (by simp [hlength])
      cases (List.cons.inj heq).1
    · simp only [List.length_append, List.length_replicate] at hlength
      omega
  | _ => cases hstar

section

variable {starts : Bool} {text left : List Char} {pieces : List Piece}

/-- A start that is not open excludes some texts by their first characters. -/
theorem Reads.exists_start_of_opensHere (h : Reads starts text pieces left)
    (hstart : opensHere pieces = false) :
    ∃ start, ∀ rest, matchPieces pieces (start ++ rest) = false := by
  induction h with
  | nil => exact ⟨['a'], fun _ => rfl⟩
  | @char _ c =>
    obtain ⟨d, hd⟩ := exists_ne_char c
    exact ⟨[d], fun rest => by simp [matchPieces, hd.symm]⟩
  | @anyChar _ _ _ pieces rest ih =>
    have hrest : opensHere pieces = false := by
      cases rest <;> exact hstart
    obtain ⟨start, hstart⟩ := ih hrest
    exact ⟨'a' :: start, hstart⟩
  | _ => cases hstart

theorem Reads.exists_start_of_startsOpen (h : Reads starts text pieces left)
    (hstart : startsOpen pieces = false) :
    ∃ start, ∀ rest, matchPieces pieces ('/' :: start ++ rest) = false := by
  cases h with
  | nil => exact ⟨[], fun _ => rfl⟩
  | @char _ c _ _ pieces plain rest =>
    by_cases hc : c = '/'
    · subst hc
      have hrest : opensHere pieces = false := by simpa [startsOpen] using hstart
      obtain ⟨start, hstart⟩ := rest.exists_start_of_opensHere hrest
      exact ⟨start, fun rest => by simpa [matchPieces] using hstart rest⟩
    · exact ⟨[], fun rest => by simp [matchPieces, hc]⟩
  | @anyChar _ _ _ pieces rest =>
    have hrest : opensHere pieces = false := by
      cases rest <;> exact hstart
    obtain ⟨start, hstart⟩ := rest.exists_start_of_opensHere hrest
    exact ⟨start, hstart⟩
  | _ => cases hstart

theorem Reads.takesAny_iff (h : Reads starts text pieces left) {p : Piece} (hp : p ∈ pieces) :
    p.TakesAny ↔ p = .anyChar := by
  induction h with
  | nil => cases hp
  | last =>
    obtain rfl := List.mem_singleton.mp hp
    simp [Piece.TakesAny]
  | char _ _ ih | anyChar _ ih | anyText _ _ ih | components _ ih =>
    rcases List.mem_cons.mp hp with rfl | hp
    · simp [Piece.TakesAny]
    · exact ih hp

theorem Reads.endsOpen_iff (h : Reads starts text pieces left) :
    EndsOpen pieces ↔ endsOpen pieces = true := by
  induction h with
  | nil => simp [EndsOpen, endsOpen]
  | char _ _ ih | anyChar _ ih => exact ih
  | last => simp [EndsOpen, endsOpen]
  | anyText _ rest ih =>
    rw [EndsOpen, endsOpen, Bool.or_eq_true, ih, List.all_eq_true]
    refine or_congr_left (forall₂_congr fun p hp => ?_)
    rw [rest.takesAny_iff hp, decide_eq_true_eq]
  | components _ ih => rw [EndsOpen, endsOpen, Bool.or_eq_true, List.isEmpty_iff, ih]

theorem Reads.open_of_left (h : Reads starts text pieces left)
    (hpieces : Piece.anyComponents ∈ pieces) (hleft : left = [] ∨ left = ['/']) :
    startsOpen pieces ∧ endsOpen pieces := by
  cases h with
  | nil => cases hpieces
  | last => exact ⟨rfl, rfl⟩
  | char plain rest =>
    obtain ⟨rfl, rfl⟩ : _ = '/' ∧ _ = [] := by simpa using hleft
    cases rest with
    | nil => simp at hpieces
    | last => exact ⟨rfl, rfl⟩
  | anyChar rest => simp at hleft
  | anyText single rest => simp at hleft
  | components rest =>
    obtain rfl : _ = [] := by simpa using hleft
    cases rest <;> exact ⟨rfl, rfl⟩

end

end Glob

namespace Exclusion

open LayoutLint.Path

/-! ## Paths that are left out without a match -/

variable {pattern path : String} {e : Exclusion}

theorem parse_eq_ok (h : parse pattern = .ok e) :
    e.pattern = pattern ∧ Glob.parseFrom 0 none pattern.toList = .ok e.glob.pieces := by
  rw [parse, Glob.parse] at h
  cases hpieces : Glob.parseFrom 0 none pattern.toList with
  | error error =>
    rw [hpieces] at h
    cases h
  | ok pieces =>
    rw [hpieces] at h
    obtain rfl := Except.ok.inj h
    exact ⟨rfl, rfl⟩

theorem reads_of_parse (h : parse pattern = .ok e) (hsets : '[' ∉ pattern.toList) :
    Glob.Reads true pattern.toList e.glob.pieces e.core := by
  obtain ⟨hpattern, hpieces⟩ := parse_eq_ok h
  rw [core, hpattern]
  exact Glob.reads_of_parseFrom hsets hpieces

theorem excludes_iff :
    e.excludes path = true ↔
      e.glob.accepts path = true ∨ e.core ≠ [] ∧ e.core ≠ ['/'] ∧ e.core <:+: path.toList := by
  simp only [excludes, Bool.or_eq_true, Bool.and_eq_true, decide_eq_true_eq, contains_iff,
    and_assoc]

/-- Every absolute path that the pattern leaves out is one that it matches. -/
def LeavesOutMatches (e : Exclusion) : Prop :=
  ∀ path, isAbsolute path = true → e.excludes path = true → e.glob.accepts path = true

theorem mem_dropStars {c : Char} {text : List Char} (hc : c ≠ '*') (h : c ∈ text) :
    c ∈ dropStars text := by
  fun_induction dropStars text
  case case1 ih => exact ih (by simpa [hc] using h)
  case case2 ih =>
    rcases List.mem_cons.mp h with rfl | h
    · exact List.mem_cons_self
    · exact List.mem_cons_of_mem _ (ih h)
  case case3 => cases h

theorem bracket_not_mem_of_core (hpattern : e.pattern = pattern)
    (h : e.core = [] ∨ e.core = ['/']) : '[' ∉ pattern.toList := by
  intro hmem
  have hcore : '[' ∈ e.core := mem_dropStars (by decide) (hpattern ▸ hmem)
  rcases h with h | h <;> simp [h] at hcore

theorem accepts_ofList {text : List Char} {g : Glob} :
    g.accepts (String.ofList text) = Glob.matchPieces g.pieces text := by
  rw [Glob.accepts, String.toList_ofList]

theorem isAbsolute_ofList_iff {text : List Char} :
    isAbsolute (String.ofList text) = true ↔ text.head? = some '/' := by
  rw [isAbsolute, String.toList_ofList, beq_iff_eq]

theorem LeavesOutMatches.matchPieces (h : e.LeavesOutMatches)
    (hcore : ¬ (e.core = [] ∨ e.core = ['/'])) {text : List Char} (htext : text.head? = some '/')
    (hleft : e.core <:+: text) : Glob.matchPieces e.glob.pieces text = true := by
  obtain ⟨hempty, hslash⟩ := not_or.mp hcore
  rw [← accepts_ofList]
  apply h _ (isAbsolute_ofList_iff.mpr htext)
  exact excludes_iff.mpr (.inr ⟨hempty, hslash, by rwa [String.toList_ofList]⟩)

theorem leavesOutMatches_of_endsOpen (hend : Glob.EndsOpen e.glob.pieces)
    (hleft : ∀ path, isAbsolute path = true → e.core <:+ path.toList →
      e.glob.accepts path = true) : e.LeavesOutMatches := by
  intro path hpath hout
  rcases excludes_iff.mp hout with haccepts | ⟨hempty, -, before, after, heq⟩
  · exact haccepts
  · have hhead : (before ++ e.core).head? = some '/' := by
      rw [isAbsolute, beq_iff_eq, ← heq, List.head?_append_of_ne_nil _ (by simp [hempty])] at hpath
      exact hpath
    have haccepts := hleft _ (isAbsolute_ofList_iff.mpr hhead)
      (by rw [String.toList_ofList]; exact List.suffix_append _ _)
    rw [accepts_ofList] at haccepts
    rw [Glob.accepts, ← heq]
    exact Glob.matchPieces_append hend haccepts after

/-- A pattern with `**` leaves out nothing but what it matches if and only if it leaves open how a
path ends and matches every absolute path that ends with what is left of its text. Without sets, it
does so if and only if it leaves open how a path starts and how it ends. -/
theorem leavesOutMatches_iff (pattern : String) {e : Exclusion} (hparse : parse pattern = .ok e)
    (hstars : ['*', '*'] <:+: pattern.toList) :
    (e.LeavesOutMatches ↔ Glob.EndsOpen e.glob.pieces ∧
      ∀ path, isAbsolute path = true → e.core <:+ path.toList → e.glob.accepts path = true) ∧
    ('[' ∉ pattern.toList →
      (e.LeavesOutMatches ↔ Glob.startsOpen e.glob.pieces ∧ Glob.endsOpen e.glob.pieces)) := by
  obtain ⟨hpattern, hpieces⟩ := parse_eq_ok hparse
  have hopen : '[' ∉ pattern.toList → Glob.startsOpen e.glob.pieces → Glob.endsOpen e.glob.pieces →
      ∀ path, isAbsolute path = true → e.core <:+ path.toList → e.glob.accepts path = true :=
    fun hsets hstart hend path hpath hleft =>
      (reads_of_parse hparse hsets).matchPieces_of_isInfix hstart hend (beq_iff_eq.mp hpath)
        hleft.isInfix
  have hends : e.LeavesOutMatches ↔ Glob.EndsOpen e.glob.pieces ∧
      ∀ path, isAbsolute path = true → e.core <:+ path.toList → e.glob.accepts path = true := by
    refine ⟨fun hmatches => ?_, fun h => leavesOutMatches_of_endsOpen h.1 h.2⟩
    by_cases hcore : e.core = [] ∨ e.core = ['/']
    · have hsets := bracket_not_mem_of_core hpattern hcore
      have hreads := reads_of_parse hparse hsets
      obtain ⟨hstart, hend⟩ := hreads.open_of_left (hreads.anyComponents_mem hstars) hcore
      exact ⟨hreads.endsOpen_iff.mpr hend, hopen hsets hstart hend⟩
    · constructor
      · by_contra hend
        obtain ⟨ending, hending⟩ := Glob.exists_ending hpieces hend
        exact hending ('/' :: e.core)
          (hmatches.matchPieces hcore rfl (List.infix_append ['/'] e.core ending))
      · intro path hpath hleft
        exact hmatches.matchPieces hcore (beq_iff_eq.mp hpath) hleft.isInfix
  refine ⟨hends, fun hsets => ?_⟩
  have hreads := reads_of_parse hparse hsets
  rw [hends, hreads.endsOpen_iff, and_comm]
  refine and_congr_left fun hend => ⟨fun hleft => ?_, fun hstart => hopen hsets hstart hend⟩
  by_contra hstart
  obtain ⟨start, hstart⟩ := hreads.exists_start_of_startsOpen (eq_false_of_ne_true hstart)
  have haccepts := hleft (String.ofList ('/' :: start ++ e.core)) (isAbsolute_ofList_iff.mpr rfl)
    (by rw [String.toList_ofList]; exact List.suffix_append _ _)
  rw [accepts_ofList, hstart] at haccepts
  cases haccepts

theorem parse_eq_ok_of_toOption {pieces : List Glob.Piece}
    (h : (Glob.parseFrom 0 none pattern.toList).toOption = some pieces) :
    parse pattern = .ok ⟨pattern, ⟨pieces⟩⟩ := by
  rw [parse, Glob.parse]
  cases hpieces : Glob.parseFrom 0 none pattern.toList with
  | error error => simp [hpieces, Except.toOption] at h
  | ok found =>
    rw [hpieces] at h
    obtain rfl := Option.some.inj h
    rfl

theorem leavesOutMatches_iff_vendor :
    (∃ e, parse "/**/a?/*" = .ok e ∧ e.LeavesOutMatches) ∧
      (∃ e, parse "**/vendor" = .ok e ∧ ¬ e.LeavesOutMatches) ∧
      ∃ e, parse "**/[ab]/**" = .ok e ∧ ¬ e.LeavesOutMatches := by
  have hopen : parse "/**/a?/*" = .ok ⟨"/**/a?/*",
      ⟨[.char '/', .anyComponents, .char 'a', .anyChar, .char '/', .anyText]⟩⟩ :=
    parse_eq_ok_of_toOption (by decide +kernel)
  have hclosed : parse "**/vendor" = .ok ⟨"**/vendor",
      ⟨.anyComponents :: "vendor".toList.map .char⟩⟩ :=
    parse_eq_ok_of_toOption (by decide +kernel)
  have hset : parse "**/[ab]/**" = .ok ⟨"**/[ab]/**",
      ⟨[.anyComponents, .within [('a', 'a'), ('b', 'b')], .char '/', .anyComponents]⟩⟩ :=
    parse_eq_ok_of_toOption (by decide +kernel)
  refine ⟨⟨_, hopen, ?_⟩, ⟨_, hclosed, ?_⟩, _, hset, ?_⟩
  · rw [(leavesOutMatches_iff _ hopen (by decide +kernel)).2 (by decide +kernel)]
    decide +kernel
  · rw [(leavesOutMatches_iff _ hclosed (by decide +kernel)).2 (by decide +kernel)]
    decide +kernel
  · rw [(leavesOutMatches_iff _ hset (by decide +kernel)).1]
    rintro ⟨-, hleft⟩
    exact absurd (hleft "/[ab]/" (by decide +kernel) (by decide +kernel)) (by decide +kernel)

/-- A file beside the folder that a pattern names can be left out. -/
theorem not_forall_leavesOutMatches :
    ¬ ∀ pattern e, parse pattern = .ok e → ['*', '*'] <:+: pattern.toList →
      e.LeavesOutMatches := by
  intro h
  have hparse : parse "**/vendor" = .ok ⟨"**/vendor",
      ⟨.anyComponents :: "vendor".toList.map .char⟩⟩ :=
    parse_eq_ok_of_toOption (by decide +kernel)
  have hmatches := h _ _ hparse (by decide +kernel)
  have haccepts := hmatches "/w/vendored/a.go" (by decide +kernel) (by decide +kernel)
  exact absurd haccepts (by decide +kernel)

end Exclusion

end LayoutLint
