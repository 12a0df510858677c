import LayoutLint.Source.Lexeme
import Mathlib.Data.List.Infix
import Mathlib.Data.List.TakeWhile

/-! # How lexemes are written

Each kind of lexeme has its own letters. A string, a rune and a block comment end with the mark that
closes them, a number holds no other marks than points, signs and underscores, and a slash is left
alone only where no comment starts.
-/

namespace LayoutLint.Source

/-! ## Numbers -/

def isNumeral (c : Char) : Bool :=
  isHexDigit c || ['_', '.', '+', '-', 'x', 'X', 'o', 'O', 'p', 'P', 'i'].contains c

def Numeral (n : Nat) (cs : List Char) : Prop := ∀ c ∈ cs.take n, isNumeral c = true

namespace Numeral

variable {a b n : Nat} {c : Char} {cs : List Char}

theorem zero : Numeral 0 cs := by
  intro c hc
  cases hc

theorem cons (hc : isNumeral c = true) (h : Numeral n cs) : Numeral (n + 1) (c :: cs) := by
  intro d hd
  rcases List.mem_cons.mp hd with rfl | hd
  · exact hc
  · exact h d hd

theorem add (ha : Numeral a cs) (hb : Numeral b (cs.drop a)) : Numeral (a + b) cs := by
  intro c hc
  rw [List.take_add, List.mem_append] at hc
  rcases hc with hc | hc
  · exact ha c hc
  · exact hb c hc

theorem snoc (h : Numeral n cs) (hhead : (cs.drop n).head? = some c) (hc : isNumeral c = true) :
    Numeral (n + 1) cs := by
  apply h.add
  obtain ⟨rest, hrest⟩ := List.head?_eq_some_iff.mp hhead
  rw [hrest]
  exact .cons hc .zero

theorem of_mem_of_foldl_max {ns : List Nat} (ha : Numeral a cs) (h : ∀ n ∈ ns, Numeral n cs) :
    Numeral (ns.foldl max a) cs := by
  induction ns generalizing a with
  | nil => exact ha
  | cons n ns ih =>
    apply ih
    · rcases Nat.le_total a n with hle | hle
      · rw [Nat.max_eq_right hle]
        exact h n List.mem_cons_self
      · rwa [Nat.max_eq_left hle]
    · intro m hm
      exact h m (List.mem_cons_of_mem n hm)

end Numeral

theorem isNumeral_of_isDigit {c : Char} (h : c.isDigit = true) : isNumeral c = true := by
  simp [isNumeral, isHexDigit, h]

theorem isNumeral_of_isHexDigit {c : Char} (h : isHexDigit c = true) : isNumeral c = true := by
  simp [isNumeral, h]

theorem isNumeral_of_isOctalDigit {c : Char} (h : isOctalDigit c = true) : isNumeral c = true := by
  apply isNumeral_of_isDigit
  simp only [isOctalDigit, Bool.and_eq_true, decide_eq_true_eq] at h
  simp only [Char.isDigit, Bool.and_eq_true, decide_eq_true_eq]
  exact ⟨h.1, UInt32.le_trans h.2 (by decide)⟩

theorem isNumeral_of_isBinaryDigit {c : Char} (h : isBinaryDigit c = true) :
    isNumeral c = true := by
  simp only [isBinaryDigit, Bool.or_eq_true, beq_iff_eq] at h
  rcases h with rfl | rfl <;> decide

section

variable {p : Char → Bool} (hp : ∀ {c}, p c = true → isNumeral c = true)
include hp

theorem numeral_digitRun (cs : List Char) : Numeral (digitRun p cs) cs := by
  fun_induction digitRun p cs with
  | case1 => exact .zero
  | case2 d hd => exact .cons (hp hd) .zero
  | case3 d hd => exact .zero
  | case4 d e rest hd => exact .zero
  | case5 d e rest hd he hzero ih =>
    exact .cons (hp (by simpa using hd)) .zero
  | case6 d e rest hd he n hn ih =>
    rw [hn] at ih
    exact .cons (hp (by simpa using hd)) (.cons (by rw [eq_of_beq he]; decide) ih)
  | case7 d e rest hd he ih => exact .cons (hp (by simpa using hd)) ih

theorem numeral_digitTail (cs : List Char) : Numeral (digitTail p cs) cs := by
  unfold digitTail
  split
  · split
    · exact .zero
    · exact .cons (by decide) (numeral_digitRun hp _)
  · exact numeral_digitRun hp cs

end

theorem numeral_exponentLength {marks : List Char} (hm : marks.all isNumeral = true)
    (cs : List Char) : Numeral (exponentLength marks cs) cs := by
  cases cs with
  | nil => exact .zero
  | cons m rest =>
    unfold exponentLength
    dsimp only
    split
    case isTrue => exact .zero
    case isFalse hmark =>
      have hdigits : ∀ {sign : Nat}, Numeral sign rest →
          Numeral (if digitRun Char.isDigit (rest.drop sign) = 0 then 0
            else 1 + sign + digitRun Char.isDigit (rest.drop sign)) (m :: rest) := by
        intro sign hsign
        split
        · exact .zero
        · rw [Nat.add_assoc, Nat.add_comm]
          exact .cons (List.all_eq_true.mp hm m (by simpa using hmark))
            (hsign.add (numeral_digitRun isNumeral_of_isDigit _))
      split
      · exact hdigits (.cons (by decide) .zero)
      · exact hdigits (.cons (by decide) .zero)
      · exact hdigits .zero

theorem numeral_intLength (cs : List Char) : Numeral (intLength cs) cs := by
  have hbased : ∀ {p : Char → Bool} {a b : Nat} {tail : List Char},
      (∀ {c}, p c = true → isNumeral c = true) → Numeral a cs → Numeral b cs → cs.drop b = tail →
      Numeral (if digitTail p tail = 0 then a else b + digitTail p tail) cs := by
    rintro p a b tail hp ha hb rfl
    split
    · exact ha
    · exact hb.add (numeral_digitTail hp _)
  unfold intLength
  split
  · have hone : ∀ rest, Numeral 1 ('0' :: rest) := fun _ => .cons (by decide) .zero
    have htwo : ∀ {c rest}, isNumeral c = true → Numeral 2 ('0' :: c :: rest) :=
      fun hc => .cons (by decide) (.cons hc .zero)
    dsimp only
    split
    · exact hbased isNumeral_of_isHexDigit (hone _) (htwo (by decide)) rfl
    · exact hbased isNumeral_of_isHexDigit (hone _) (htwo (by decide)) rfl
    · exact hbased isNumeral_of_isBinaryDigit (hone _) (htwo (by decide)) rfl
    · exact hbased isNumeral_of_isBinaryDigit (hone _) (htwo (by decide)) rfl
    · exact hbased isNumeral_of_isOctalDigit (hone _) (htwo (by decide)) rfl
    · exact hbased isNumeral_of_isOctalDigit (hone _) (htwo (by decide)) rfl
    · exact hbased isNumeral_of_isOctalDigit (hone _) (hone _) rfl
  · exact numeral_digitRun isNumeral_of_isDigit cs

theorem numeral_decimalFloatLength (cs : List Char) : Numeral (decimalFloatLength cs) cs := by
  have hmarks : ['e', 'E'].all isNumeral = true := by decide
  have hwhole := numeral_digitRun isNumeral_of_isDigit cs
  unfold decimalFloatLength
  dsimp only
  split
  case h_1 rest hrest =>
    split
    · exact .zero
    · rw [Nat.add_assoc, Nat.add_assoc]
      apply hwhole.add
      rw [hrest, Nat.add_comm 1]
      exact .cons (by decide) ((numeral_digitRun isNumeral_of_isDigit rest).add
        (numeral_exponentLength hmarks _))
  case h_2 rest hrest =>
    split
    · exact .zero
    · exact hwhole.add (numeral_exponentLength hmarks _)

theorem numeral_hexFloatLength (cs : List Char) : Numeral (hexFloatLength cs) cs := by
  unfold hexFloatLength
  split
  case h_1 x rest =>
    dsimp only
    split
    case isTrue => exact .zero
    case isFalse hx =>
      have hmark : isNumeral x = true := by
        have hcases : x = 'x' ∨ x = 'X' := by simpa [or_iff_not_imp_left] using hx
        rcases hcases with rfl | rfl <;> decide
      have hwhole := numeral_digitTail isNumeral_of_isHexDigit rest
      have hexponent : ∀ {n : Nat}, Numeral n rest →
          Numeral (2 + n + exponentLength ['p', 'P'] (rest.drop n)) ('0' :: x :: rest) := by
        intro n hn
        rw [Nat.add_assoc, Nat.add_comm 2]
        exact .cons (by decide) (.cons hmark (hn.add (numeral_exponentLength (by decide) _)))
      split
      case h_1 fraction hfraction =>
        split
        · exact .zero
        · apply hexponent
          rw [Nat.add_assoc, Nat.add_comm 1]
          apply hwhole.add
          rw [hfraction]
          exact .cons (by decide) (numeral_digitRun isNumeral_of_isHexDigit fraction)
      case h_2 =>
        split
        · exact .zero
        · exact hexponent hwhole
  case h_2 => exact .zero

theorem numeral_numberLength (cs : List Char) : Numeral (numberLength cs) cs := by
  have hreal : ∀ n ∈ [digitRun Char.isDigit cs, intLength cs, decimalFloatLength cs,
      hexFloatLength cs], Numeral n cs := by
    intro n hn
    simp only [List.mem_cons, List.not_mem_nil, or_false] at hn
    rcases hn with rfl | rfl | rfl | rfl
    · exact numeral_digitRun isNumeral_of_isDigit cs
    · exact numeral_intLength cs
    · exact numeral_decimalFloatLength cs
    · exact numeral_hexFloatLength cs
  unfold numberLength
  dsimp only
  apply Numeral.of_mem_of_foldl_max .zero
  intro n hn
  rcases List.mem_append.mp hn with hn | hn
  · exact hreal n (List.mem_of_mem_drop hn)
  · obtain ⟨m, hm, rfl⟩ := List.mem_map.mp hn
    split
    case isTrue himaginary =>
      rw [Bool.and_eq_true, beq_iff_eq] at himaginary
      exact (hreal m hm).snoc himaginary.2 (by decide)
    case isFalse => exact .zero

/-! ## Marks that close a lexeme -/

def EndsWith (q : Char) (n : Nat) (cs : List Char) : Prop := ∃ inner, cs.take n = inner ++ [q]

namespace EndsWith

variable {q c : Char} {n : Nat} {cs : List Char}

theorem one : EndsWith q 1 (q :: cs) := ⟨[], rfl⟩

theorem cons (h : EndsWith q n cs) : EndsWith q (n + 1) (c :: cs) := by
  obtain ⟨inner, hinner⟩ := h
  exact ⟨c :: inner, by rw [List.take_succ_cons, hinner, List.cons_append]⟩

theorem of_head? (h : (cs.drop n).head? = some q) : EndsWith q (n + 1) cs := by
  obtain ⟨rest, hrest⟩ := List.head?_eq_some_iff.mp h
  exact ⟨cs.take n, by rw [List.take_add, hrest]; rfl⟩

end EndsWith

theorem endsWith_rawStringLength {cs : List Char} {n : Nat} (h : rawStringLength cs = some n) :
    EndsWith '\x60' n cs := by
  fun_induction rawStringLength cs generalizing n with
  | case1 => cases h
  | case2 rest =>
    cases h
    exact .one
  | case3 c rest hc ih =>
    obtain ⟨m, hm, rfl⟩ := Option.map_eq_some_iff.mp h
    exact (ih hm).cons

theorem endsWith_stringLength {skip : Nat} {cs : List Char} {n : Nat}
    (h : stringLength skip cs = some n) : EndsWith '"' n cs := by
  fun_induction stringLength skip cs generalizing n with
  | case1 => cases h
  | case2 skip c rest ih =>
    obtain ⟨m, hm, rfl⟩ := Option.map_eq_some_iff.mp h
    exact (ih hm).cons
  | case3 rest =>
    cases h
    exact .one
  | case4 => cases h
  | case5 rest ih =>
    obtain ⟨escape, -, h⟩ := Option.bind_eq_some_iff.mp h
    obtain ⟨m, hm, rfl⟩ := Option.map_eq_some_iff.mp h
    exact (ih escape hm).cons
  | case6 c rest hquote hfeed hslash ih =>
    obtain ⟨m, hm, rfl⟩ := Option.map_eq_some_iff.mp h
    exact (ih hm).cons

theorem endsWith_runeLength {cs : List Char} {n : Nat} (h : runeLength cs = some n) :
    EndsWith '\x27' n cs := by
  have hdigits : ∀ {p : Char → Bool} {k m : Nat} {ds : List Char},
      (if ((ds.take k).length = k && (ds.take k).all p && (ds.drop k).head? == some '\x27') = true
        then some (k + 1) else none) = some m → EndsWith '\x27' m ds := by
    intro p k m ds hm
    split at hm
    case isTrue hquote =>
      cases hm
      rw [Bool.and_eq_true, beq_iff_eq] at hquote
      exact .of_head? hquote.2
    case isFalse => cases hm
  unfold runeLength at h
  split at h
  case h_1 c rest =>
    dsimp only at h
    split at h
    · obtain ⟨m, hm, rfl⟩ := Option.map_eq_some_iff.mp h
      exact (hdigits hm).cons.cons
    · obtain ⟨m, hm, rfl⟩ := Option.map_eq_some_iff.mp h
      exact (hdigits hm).cons.cons
    · obtain ⟨m, hm, rfl⟩ := Option.map_eq_some_iff.mp h
      exact (hdigits hm).cons.cons
    · split at h
      · obtain ⟨m, hm, rfl⟩ := Option.map_eq_some_iff.mp h
        exact (hdigits hm).cons
      · split at h
        case isTrue hquote =>
          cases h
          rw [Bool.and_eq_true, beq_iff_eq] at hquote
          obtain ⟨tail, rfl⟩ := List.head?_eq_some_iff.mp hquote.2
          exact EndsWith.one.cons.cons
        case isFalse => cases h
  case h_2 c rest =>
    split at h
    · cases h
    · cases h
      exact EndsWith.one.cons
  case h_3 => cases h

theorem exists_append_of_blockCommentLength {cs : List Char} {n : Nat}
    (h : blockCommentLength cs = some n) :
    ∃ inner post, cs = inner ++ '*' :: '/' :: post ∧ n = inner.length + 2 ∧
      ¬ ['*', '/'] <:+: inner ++ ['*'] := by
  fun_induction blockCommentLength cs generalizing n with
  | case1 => cases h
  | case2 post =>
    cases h
    exact ⟨[], post, rfl, rfl, by decide⟩
  | case3 c rest hmark ih =>
    obtain ⟨m, hm, rfl⟩ := Option.map_eq_some_iff.mp h
    obtain ⟨inner, post, rfl, rfl, hfirst⟩ := ih hm
    refine ⟨c :: inner, post, rfl, rfl, ?_⟩
    rw [List.cons_append, List.infix_cons_iff]
    rintro (hhead | hinfix)
    · cases inner with
      | nil => simp at hhead
      | cons d inner =>
        simp only [List.cons_append, List.cons_prefix_cons] at hhead
        obtain ⟨rfl, rfl, -⟩ := hhead
        exact hmark _ rfl rfl
    · exact hfirst hinfix

/-! ## All kinds -/

def quotes : List Char := ['"', '\x60', '\x27']

theorem eq_of_mem_quotes {q : Char} (h : q ∈ quotes) : q = '"' ∨ q = '\x60' ∨ q = '\x27' := by
  simpa [quotes] using h

def LexemeKind.IsLiteral (kind : LexemeKind) : Prop := kind = .string ∨ kind = .literal

instance (kind : LexemeKind) : Decidable kind.IsLiteral := inferInstanceAs (Decidable (_ ∨ _))

/-- How a lexeme of each kind is written, with what follows it. -/
inductive Written : LexemeKind → List Char → List Char → Prop where

  | newline {rest : List Char} : Written .newline ['\n'] rest

  | blank {cs rest : List Char} : (∀ c ∈ cs, isSpace c = true) → Written .blank cs rest

  | lineComment {cs rest : List Char} :
      '\n' ∉ cs → (∀ c, rest.head? = some c → c = '\n') → Written .comment ('/' :: '/' :: cs) rest

  | blockComment {inner rest : List Char} : ¬ ['*', '/'] <:+: inner ++ ['*'] →
      Written .comment ('/' :: '*' :: (inner ++ ['*', '/'])) rest

  | quoted {kind : LexemeKind} {q : Char} {inner rest : List Char} : kind.IsLiteral →
      q ∈ quotes → Written kind (q :: (inner ++ [q])) rest

  | number {cs rest : List Char} : (∀ c ∈ cs, isNumeral c = true) → Written .literal cs rest

  | word {kind : LexemeKind} {cs rest : List Char} : kind = .word ∨ kind = .keyword →
      (∀ c ∈ cs, Text.isIdentContinue c = true) → Written kind cs rest

  /-- A slash stands alone where it starts no comment. -/
  | operator {op : String} {rest : List Char} : op ∈ operators →
      (op = "/" → rest.head? ≠ some '/' ∧
        ∀ tail, rest = '*' :: tail → blockCommentLength tail = none) →
      Written .operator op.toList rest

  | unknown {c : Char} {rest : List Char} : c ≠ '/' → Written .unknown [c] rest

section

variable {c : Char} {cs : List Char} {kind : LexemeKind} {n : Nat}

theorem take_length_takeWhile (p : Char → Bool) (cs : List Char) :
    cs.take (cs.takeWhile p).length = cs.takeWhile p :=
  (List.prefix_iff_eq_take.mp (List.takeWhile_prefix p)).symm

theorem drop_length_takeWhile (p : Char → Bool) (cs : List Char) :
    cs.drop (cs.takeWhile p).length = cs.dropWhile p := by
  have h : (cs.takeWhile p ++ cs.dropWhile p).drop (cs.takeWhile p).length = cs.dropWhile p :=
    List.drop_left
  rwa [List.takeWhile_append_dropWhile] at h

theorem toList_of_operatorAt? {op : String} (h : operatorAt? (c :: cs) = some op) :
    op ∈ operators ∧ c :: cs.take (op.toList.length - 1) = op.toList := by
  have hne : ∀ op ∈ operators, op.toList ≠ [] := by decide
  unfold operatorAt? at h
  have hmem := List.mem_of_find?_eq_some h
  have hhead : op.toList <+: c :: cs := by
    have hfound := List.find?_some h
    exact List.isPrefixOf_iff_prefix.mp hfound
  obtain ⟨d, ds, hop⟩ := List.exists_cons_of_ne_nil (hne op hmem)
  rw [hop] at hhead ⊢
  obtain ⟨rfl, hrest⟩ := List.cons_prefix_cons.mp hhead
  rw [List.length_cons, Nat.add_sub_cancel, ← List.prefix_iff_eq_take.mp hrest]
  exact ⟨hmem, rfl⟩

theorem written_operator
    (h : (match operatorAt? (c :: cs) with
      | some op => (LexemeKind.operator, op.toList.length - 1)
      | none => (.unknown, 0)) = (kind, n))
    (hslash : c = '/' → cs.head? ≠ some '/' ∧
      ∀ tail, cs = '*' :: tail → blockCommentLength tail = none) :
    Written kind (c :: cs.take n) (cs.drop n) := by
  cases hop : operatorAt? (c :: cs) with
  | some op =>
    rw [hop] at h
    cases h
    obtain ⟨hmem, hchars⟩ := toList_of_operatorAt? hop
    rw [hchars]
    apply Written.operator hmem
    rintro rfl
    obtain ⟨rfl, -⟩ := List.cons.inj hchars
    exact hslash rfl
  | none =>
    rw [hop] at h
    cases h
    apply Written.unknown
    rintro rfl
    have hnone := List.find?_eq_none.mp hop "/" (by decide)
    simp at hnone

theorem written_quoted {length : Option Nat} {kind' : LexemeKind}
    (h : (match length with
      | some m => (kind', m)
      | none => (.unknown, 0)) = (kind, n))
    (hkind : kind'.IsLiteral) (hc : c ∈ quotes)
    (hends : ∀ m, length = some m → EndsWith c m cs) :
    Written kind (c :: cs.take n) (cs.drop n) := by
  cases length with
  | none =>
    cases h
    apply Written.unknown
    rintro rfl
    exact absurd hc (by decide)
  | some m =>
    cases h
    obtain ⟨inner, hinner⟩ := hends n rfl
    rw [hinner]
    exact .quoted hkind hc

theorem written_number (hc : isNumeral c = true) :
    Written .literal (c :: cs.take (numberLength (c :: cs) - 1))
      (cs.drop (numberLength (c :: cs) - 1)) := by
  apply Written.number
  intro d hd
  rcases List.mem_cons.mp hd with rfl | hd
  · exact hc
  · apply numeral_numberLength (c :: cs) d
    cases hlength : numberLength (c :: cs) with
    | zero => simp [hlength] at hd
    | succ m =>
      rw [hlength, Nat.add_sub_cancel] at hd
      exact List.mem_cons_of_mem c hd

theorem written_slash {operator : LexemeKind × Nat}
    (h : (match cs with
      | '/' :: _ => (LexemeKind.comment, (cs.takeWhile (· ≠ '\n')).length)
      | '*' :: rest => match blockCommentLength rest with
        | some m => (.comment, m + 1)
        | none => operator
      | _ => operator) = (kind, n))
    (hoperator : operator = match operatorAt? ('/' :: cs) with
      | some op => (LexemeKind.operator, op.toList.length - 1)
      | none => (.unknown, 0)) :
    Written kind ('/' :: cs.take n) (cs.drop n) := by
  split at h
  case h_1 rest =>
    cases h
    rw [take_length_takeWhile, drop_length_takeWhile, List.takeWhile_cons_of_pos (by decide)]
    apply Written.lineComment
    · intro hmem
      simpa using List.mem_takeWhile_imp hmem
    · intro c hc
      rw [← List.find?_not_eq_head?_dropWhile] at hc
      simpa using List.find?_some hc
  case h_2 rest =>
    split at h
    case h_1 m hm =>
      cases h
      obtain ⟨inner, post, rfl, rfl, hfirst⟩ := exists_append_of_blockCommentLength hm
      have htake : (inner ++ '*' :: '/' :: post).take (inner.length + 2) = inner ++ ['*', '/'] := by
        rw [List.take_length_add_append]
        rfl
      rw [List.take_succ_cons, htake]
      exact .blockComment hfirst
    case h_2 hnone =>
      apply written_operator (hoperator.symm.trans h)
      intro _
      constructor
      · simp
      · rintro tail htail
        cases htail
        exact hnone
  case h_3 hline hblock =>
    apply written_operator (hoperator.symm.trans h)
    intro _
    constructor
    · intro hhead
      obtain ⟨rest, rfl⟩ := List.head?_eq_some_iff.mp hhead
      exact hline rest rfl
    · intro tail htail
      exact absurd htail (hblock tail)

theorem of_mem_cons_takeWhile {p : Char → Bool} {d : Char} (hc : p c = true)
    (hd : d ∈ c :: cs.takeWhile p) : p d = true := by
  rcases List.mem_cons.mp hd with rfl | hd
  · exact hc
  · exact List.mem_takeWhile_imp hd

/-- The lexeme at the head of a text is written like its kind. -/
theorem written_of_lexemeAt (h : lexemeAt c cs = (kind, n)) :
    Written kind (c :: cs.take n) (cs.drop n) := by
  unfold lexemeAt at h
  dsimp only at h
  split at h
  case isTrue hc =>
    cases h
    rw [hc]
    exact .newline
  split at h
  case isTrue hspace =>
    cases h
    rw [take_length_takeWhile]
    exact .blank fun d => of_mem_cons_takeWhile hspace
  split at h
  case isTrue hc =>
    subst hc
    exact written_quoted h (.inl rfl) (by decide) fun m => endsWith_stringLength
  split at h
  case isTrue hc =>
    subst hc
    exact written_quoted h (.inl rfl) (by decide) fun m => endsWith_rawStringLength
  split at h
  case isTrue hc =>
    subst hc
    exact written_quoted h (.inr rfl) (by decide) fun m => endsWith_runeLength
  split at h
  case isTrue hc =>
    subst hc
    exact written_slash h rfl
  case isFalse hslash =>
  split at h
  case isTrue hdigit =>
    cases h
    exact written_number (isNumeral_of_isDigit hdigit)
  split at h
  case isTrue hpoint =>
    cases h
    rw [Bool.and_eq_true, decide_eq_true_eq] at hpoint
    rw [hpoint.1]
    exact written_number (by decide)
  split at h
  case isTrue hident =>
    cases h
    rw [take_length_takeWhile]
    apply Written.word
    · split
      · exact .inr rfl
      · exact .inl rfl
    · have hcontinue : Text.isIdentContinue c = true := by
        rw [Text.isIdentContinue, hident, Bool.true_or]
      exact fun d => of_mem_cons_takeWhile hcontinue
  exact written_operator h (fun hc => absurd hc hslash)

theorem exists_lexemes_cons (start : Nat) (c : Char) (cs : List Char) :
    ∃ l rest, lexemes start (c :: cs) = l :: lexemes (start + Text.byteLength l.chars) rest ∧
      c :: cs = l.chars ++ rest ∧ l.chars.head? = some c ∧ Written l.kind l.chars rest := by
  rw [lexemes]
  refine ⟨_, _, rfl, ?_, rfl, written_of_lexemeAt rfl⟩
  rw [List.cons_append, List.take_append_drop]

theorem written_of_mem_lexemes {start : Nat} {l : Lexeme} (h : l ∈ lexemes start cs) :
    ∃ rest, Written l.kind l.chars rest := by
  fun_induction lexemes start cs with
  | case1 => cases h
  | case2 start c cs kind n hat chars ih =>
    rcases List.mem_cons.mp h with rfl | h
    · exact ⟨_, written_of_lexemeAt hat⟩
    · exact ih h

end

namespace Written

variable {kind : LexemeKind} {chars rest : List Char}

theorem literal_cases (h : Written kind chars rest) (hkind : kind.IsLiteral) :
    (∃ q inner, q ∈ quotes ∧ chars = q :: (inner ++ [q])) ∨ ∀ c ∈ chars, isNumeral c = true := by
  cases h with
  | newline => exact absurd hkind (by decide)
  | blank => exact absurd hkind (by decide)
  | lineComment => exact absurd hkind (by decide)
  | blockComment => exact absurd hkind (by decide)
  | quoted _ hq => exact .inl ⟨_, _, hq, rfl⟩
  | number hnumeral => exact .inr hnumeral
  | word hword => rcases hword with rfl | rfl <;> exact absurd hkind (by decide)
  | operator => exact absurd hkind (by decide)
  | unknown => exact absurd hkind (by decide)

theorem slash_cases (h : Written kind chars rest) (hslash : '/' ∈ chars) :
    kind = .comment ∨
      (kind.IsLiteral ∧ ∃ q inner, q ∈ quotes ∧ chars = q :: (inner ++ [q])) ∨
      ∃ op ∈ operators, chars = op.toList ∧ (op = "/" → rest.head? ≠ some '/') := by
  cases h with
  | newline => exact absurd hslash (by decide)
  | blank hspace => exact absurd (hspace _ hslash) (by decide)
  | lineComment => exact .inl rfl
  | blockComment => exact .inl rfl
  | quoted hkind hq => exact .inr (.inl ⟨hkind, _, _, hq, rfl⟩)
  | number hnumeral => exact absurd (hnumeral _ hslash) (by decide)
  | word _ hident => exact absurd (hident _ hslash) (by decide)
  | operator hop halone => exact .inr (.inr ⟨_, hop, rfl, fun h => (halone h).1⟩)
  | unknown hc => exact absurd (List.mem_singleton.mp hslash).symm hc

end Written

end LayoutLint.Source
