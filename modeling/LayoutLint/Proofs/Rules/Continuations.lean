import LayoutLint.Proofs.Rules.FollowingLines
import LayoutLint.Proofs.Source.Lexemes
import LayoutLint.Proofs.Text.Between

/-! # Code after a closing brace

A brace is exempt if the code after it on its line goes on. The rule looks for the marks of comments
in the characters of the line, the language in its lexemes. The two agree where no literal holds
such a mark.
-/

namespace LayoutLint

namespace Source

/-- The characters of the lexeme on the line on which it starts. -/
def Lexeme.onLine (l : Lexeme) : List Char := l.chars.takeWhile (· ≠ '\n')

/-- The lexemes that start on the first line. -/
def firstLine : List Lexeme → List Lexeme
  | [] => []
  | l :: ls => if '\n' ∈ l.chars then [l] else l :: firstLine ls

/-- The characters outside comments, each with its lexeme. -/
def codeOf (ls : List Lexeme) : List (Lexeme × Char) :=
  (ls.filter (·.kind ≠ .comment)).flatMap fun l => l.onLine.map fun c => (l, c)

/-- The last character outside comments that is not blank. -/
def lastCode? (ls : List Lexeme) : Option (Lexeme × Char) :=
  ((codeOf ls).filter fun x => !Text.isBlank x.2).getLast?

/-- No slash and star stand together but for those that open a comment. -/
def ClosesComments (ls : List Lexeme) : Prop :=
  ls.IsChain fun l m => ¬ (l.chars = ['/'] ∧ m.chars.head? = some '*')

instance (ls : List Lexeme) : Decidable (ClosesComments ls) :=
  inferInstanceAs (Decidable (List.IsChain _ ls))

end Source

namespace ClosingBrace

open Source

def linking : List Char := [',', ')', '\x7d', '\x7b']

def lastVisible? (cs : List Char) : Option Char := (cs.filter fun c => !Text.isBlank c).getLast?

theorem mem_of_lastVisible? {cs : List Char} {c : Char} (h : lastVisible? cs = some c) : c ∈ cs :=
  (List.mem_filter.mp (List.mem_of_getLast? h)).1

theorem lastVisible?_concat {cs : List Char} {c : Char} (hc : Text.isBlank c = false) :
    lastVisible? (cs ++ [c]) = some c := by
  simp [lastVisible?, List.filter_append, hc]

theorem lastVisible?_append {as bs : List Char} {b : Char} (hb : b ∈ bs)
    (hvisible : Text.isBlank b = false) : lastVisible? (as ++ bs) = lastVisible? bs := by
  have hne : (bs.filter fun c => !Text.isBlank c) ≠ [] := by
    apply List.ne_nil_of_mem (a := b)
    simp [hb, hvisible]
  rw [lastVisible?, List.filter_append, List.getLast?_append_of_ne_nil _ hne, lastVisible?]

theorem continues_iff {tail : List Char} :
    continues tail = true ↔ ∃ c ∈ linking, lastVisible? (stripComments tail) = some c := by
  have htrim : ∀ cs, (Text.trimEnd cs).getLast? = lastVisible? cs := by
    intro cs
    rw [Text.trimEnd, List.getLast?_reverse, lastVisible?, List.getLast?_eq_head?_reverse,
      ← List.filter_reverse, List.head?_filter, ← List.find?_not_eq_head?_dropWhile]
  rw [continues, goesOn, htrim, Option.any_eq_true]
  constructor
  · rintro ⟨c, hc, hmem⟩
    exact ⟨c, List.contains_iff_mem.mp hmem, hc⟩
  · rintro ⟨c, hmem, hc⟩
    exact ⟨c, hc, List.contains_iff_mem.mpr hmem⟩

/-- No literal holds the mark of a comment. -/
def Unmarked (ls : List Lexeme) : Prop :=
  ∀ l ∈ ls, l.kind.IsLiteral → ¬ HoldsMark l.onLine

instance (ls : List Lexeme) : Decidable (Unmarked ls) :=
  inferInstanceAs (Decidable (∀ l ∈ ls, _))

/-! ## One lexeme -/

section

variable {kind : LexemeKind} {chars rest : List Char}

theorem eq_slash_of_getLast? (h : Written kind chars rest) (hkind : kind ≠ .comment)
    (hlast : chars.getLast? = some '/') : chars = ['/'] ∧ rest.head? ≠ some '/' := by
  rcases h.slash_cases (List.mem_of_getLast? hlast) with
    hcomment | ⟨-, q, inner, hq, rfl⟩ | ⟨op, hop, rfl, halone⟩
  · exact absurd hcomment hkind
  · rw [← List.cons_append, List.getLast?_concat] at hlast
    cases hlast
    exact absurd hq (by decide)
  · have honly : ∀ op ∈ operators, op.toList.getLast? = some '/' → op = "/" := by decide
    obtain rfl := honly op hop hlast
    exact ⟨rfl, halone rfl⟩

theorem not_holdsMark_of_written (h : Written kind chars rest) (hcomment : kind ≠ .comment)
    (hliteral : ¬ kind.IsLiteral) : ¬ HoldsMark chars := by
  intro hmark
  rcases h.slash_cases hmark.mem with hkind | ⟨hkind, -⟩ | ⟨op, hop, rfl, -⟩
  · exact hcomment hkind
  · exact hliteral hkind
  · have hnone : ∀ op ∈ operators, ¬ HoldsMark op.toList := by decide
    exact hnone op hop hmark

theorem not_mem_linking_of_literal (h : Written kind chars rest) (hkind : kind.IsLiteral)
    {c : Char} (hc : lastVisible? chars = some c) : c ∉ linking := by
  rcases h.literal_cases hkind with ⟨q, inner, hq, rfl⟩ | hnumeral
  · have hquote : Text.isBlank q = false ∧ q ∉ linking := by
      rcases eq_of_mem_quotes hq with rfl | rfl | rfl <;> decide
    obtain ⟨hvisible, hnot⟩ := hquote
    rw [← List.cons_append, lastVisible?_concat hvisible] at hc
    cases hc
    exact hnot
  · have hnone : linking.all (fun c => !isNumeral c) = true := by decide
    intro hmem
    have hnumber := List.all_eq_true.mp hnone c hmem
    rw [hnumeral c (mem_of_lastVisible? hc)] at hnumber
    cases hnumber

/-- What comes before a slash in a literal starts with its quote, which is visible. -/
theorem exists_visible_of_literal (h : Written kind chars rest) (hkind : kind.IsLiteral)
    {as bs : List Char} (hchars : as ++ '/' :: bs <+: chars) :
    ∃ q ∈ as, Text.isBlank q = false := by
  have hslash : '/' ∈ chars := hchars.subset (by simp)
  rcases h.literal_cases hkind with ⟨q, inner, hq, rfl⟩ | hnumeral
  · have hquote : Text.isBlank q = false ∧ '/' ≠ q := by
      rcases eq_of_mem_quotes hq with rfl | rfl | rfl <;> decide
    obtain ⟨hvisible, hne⟩ := hquote
    cases as with
    | nil => exact absurd (List.cons_prefix_cons.mp hchars).1 hne
    | cons a as =>
      obtain rfl := (List.cons_prefix_cons.mp hchars).1
      exact ⟨a, List.mem_cons_self, hvisible⟩
  · exact absurd (hnumeral _ hslash) (by decide)

end

/-! ## The rest of a line -/

def restOfLine (l : Lexeme) (rest : List Char) : List Char :=
  if '\n' ∈ l.chars then [] else rest.takeWhile (· ≠ '\n')

theorem takeWhile_chars_append (l : Lexeme) (rest : List Char) :
    (l.chars ++ rest).takeWhile (· ≠ '\n') = l.onLine ++ restOfLine l rest := by
  unfold restOfLine Lexeme.onLine
  split
  case isTrue hmem =>
    obtain ⟨as, bs, hchars, has⟩ := List.eq_append_cons_of_mem hmem
    rw [hchars, List.append_assoc, List.cons_append, Text.takeWhile_append_lineFeed has,
      Text.takeWhile_append_lineFeed has, List.append_nil]
  case isFalse hmem =>
    rw [Text.takeWhile_append_of_not_mem hmem, Text.takeWhile_of_not_mem hmem]

section

variable {l : Lexeme} {rest : List Char}

theorem stripComments_comment (h : Written .comment l.chars rest) :
    stripComments (l.onLine ++ restOfLine l rest) = stripComments (restOfLine l rest) := by
  obtain ⟨kind, chars, start⟩ := l
  unfold restOfLine Lexeme.onLine
  dsimp only at h ⊢
  cases h with
  | @lineComment cs _ hcs hrest =>
    have hchars : '\n' ∉ '/' :: '/' :: cs := by simpa using hcs
    have hnil : rest.takeWhile (· ≠ '\n') = [] := by
      cases rest with
      | nil => rfl
      | cons c rest => rw [hrest c rfl]; rfl
    rw [if_neg hchars, Text.takeWhile_of_not_mem hchars, hnil, List.append_nil, stripComments_line,
      stripComments_nil]
  | @blockComment inner _ hinner =>
    split
    case isTrue hmem =>
      have hmem' : '\n' ∈ inner := by simpa using hmem
      obtain ⟨as, bs, rfl, has⟩ := List.eq_append_cons_of_mem hmem'
      have hline : '/' :: '*' :: ((as ++ '\n' :: bs) ++ ['*', '/']) =
          ('/' :: '*' :: as) ++ '\n' :: (bs ++ ['*', '/']) := by simp
      have hopen : ¬ ['*', '/'] <:+: as := by
        intro hinfix
        apply hinner
        rw [List.append_assoc]
        exact hinfix.trans (List.prefix_append as _).isInfix
      rw [hline, Text.takeWhile_append_lineFeed (by simpa using has), List.append_nil,
        stripComments_block, indexOf?_eq_none hopen, stripComments_nil]
      rfl
    case isFalse hmem =>
      have hdrop : ∀ ds : List Char, (inner ++ '*' :: '/' :: ds).drop (inner.length + 2) = ds := by
        intro ds
        rw [← List.drop_drop, List.drop_left]
        rfl
      rw [Text.takeWhile_of_not_mem hmem, List.cons_append, List.cons_append, List.append_assoc,
        stripComments_block]
      simp only [List.cons_append, List.nil_append]
      rw [indexOf?_append _ hinner, Option.elim_some, hdrop]
  | quoted hkind => exact absurd hkind (by decide)
  | word hkind => exact absurd hkind (by decide)

theorem stripComments_lexeme (h : Written l.kind l.chars rest)
    (hmark : l.kind.IsLiteral → ¬ HoldsMark l.onLine)
    (hslash : l.chars = ['/'] → rest.head? ≠ some '*') :
    stripComments (l.onLine ++ restOfLine l rest) =
      (if l.kind = .comment then [] else l.onLine) ++ stripComments (restOfLine l rest) := by
  split
  case isTrue hkind =>
    rw [hkind] at h
    exact stripComments_comment h
  case isFalse hkind =>
    apply stripComments_append
    · by_cases hliteral : l.kind.IsLiteral
      · exact hmark hliteral
      · intro hholds
        exact not_holdsMark_of_written h hkind hliteral (hholds.mono (List.takeWhile_prefix _))
    · intro hlast
      unfold restOfLine
      split
      case isTrue => simp
      case isFalse hmem =>
        rw [Lexeme.onLine, Text.takeWhile_of_not_mem hmem] at hlast
        obtain ⟨hchars, hhead⟩ := eq_slash_of_getLast? h hkind hlast
        have hstar := hslash hchars
        simp only [List.head?_takeWhile, ne_eq, Option.filter_eq_some_iff, not_and]
        exact ⟨fun h => absurd h hhead, fun h => absurd h hstar⟩

end

theorem flatMap_onLine_firstLine (start : Nat) (cs : List Char) :
    (firstLine (lexemes start cs)).flatMap Lexeme.onLine = cs.takeWhile (· ≠ '\n') := by
  fun_induction lexemes start cs with
  | case1 => rfl
  | case2 start c cs kind n hat chars ih =>
    have hcs : c :: cs = chars ++ cs.drop n := by
      rw [List.cons_append, List.take_append_drop]
    have hline := takeWhile_chars_append ⟨kind, chars, start⟩ (cs.drop n)
    rw [hcs, hline, firstLine, restOfLine]
    split
    · simp
    · rw [List.flatMap_cons, ih]

theorem map_snd_codeOf (ls : List Lexeme) :
    (codeOf ls).map Prod.snd = (ls.filter (·.kind ≠ .comment)).flatMap Lexeme.onLine := by
  simp [codeOf, List.map_flatMap, List.map_map, Function.comp_def]

theorem map_snd_codeOf_cons (l : Lexeme) (ls : List Lexeme) :
    (codeOf (l :: ls)).map Prod.snd =
      (if l.kind = .comment then [] else l.onLine) ++ (codeOf ls).map Prod.snd := by
  rw [map_snd_codeOf, map_snd_codeOf]
  by_cases hkind : l.kind = .comment <;> simp [hkind]

theorem head?_ne_star {l : Lexeme} {start : Nat} {rest : List Char}
    (hclosed : ClosesComments (l :: firstLine (lexemes start rest))) (hl : l.chars = ['/']) :
    rest.head? ≠ some '*' := by
  intro hhead
  obtain ⟨tail, rfl⟩ := List.head?_eq_some_iff.mp hhead
  obtain ⟨m, rest, hlexemes, -, hm, -⟩ := exists_lexemes_cons start '*' tail
  rw [hlexemes, firstLine] at hclosed
  split at hclosed
  · exact (List.isChain_cons_cons.mp hclosed).1 ⟨hl, hm⟩
  · exact (List.isChain_cons_cons.mp hclosed).1 ⟨hl, hm⟩

/-- As long as no literal holds a mark, a line is stripped of its comments lexeme by lexeme. -/
theorem stripComments_firstLine {start : Nat} {cs : List Char} {before after : List Lexeme}
    (hsplit : firstLine (lexemes start cs) = before ++ after)
    (hclosed : ClosesComments (firstLine (lexemes start cs))) (hmarks : Unmarked before) :
    stripComments (cs.takeWhile (· ≠ '\n')) =
      (codeOf before).map Prod.snd ++ stripComments (after.flatMap Lexeme.onLine) := by
  induction before generalizing start cs with
  | nil =>
    rw [List.nil_append] at hsplit
    rw [← hsplit, flatMap_onLine_firstLine]
    rfl
  | cons b before ih =>
    cases cs with
    | nil =>
      rw [lexemes, firstLine] at hsplit
      cases hsplit
    | cons c cs =>
      obtain ⟨l, rest, hlexemes, hcs, -, hwritten⟩ := exists_lexemes_cons start c cs
      rw [hlexemes, firstLine] at hsplit hclosed
      rw [hcs, takeWhile_chars_append, map_snd_codeOf_cons, List.append_assoc]
      by_cases hfeed : '\n' ∈ l.chars
      · -- The lexeme goes on below, so nothing follows it on the line.
        rw [if_pos hfeed] at hsplit
        obtain ⟨rfl, hnil⟩ := List.cons.inj hsplit
        obtain ⟨rfl, rfl⟩ := List.append_eq_nil_iff.mp hnil.symm
        have hslash : l.chars ≠ ['/'] := by
          intro hchars
          rw [hchars] at hfeed
          exact absurd hfeed (by decide)
        rw [stripComments_lexeme hwritten (hmarks l List.mem_cons_self) fun h => absurd h hslash,
          restOfLine, if_pos hfeed]
        rfl
      · rw [if_neg hfeed] at hsplit hclosed
        obtain ⟨rfl, hrest⟩ := List.cons.inj hsplit
        rw [stripComments_lexeme hwritten (hmarks l List.mem_cons_self) (head?_ne_star hclosed),
          restOfLine, if_neg hfeed, ih hrest hclosed.of_cons fun m hm =>
            hmarks m (List.mem_cons_of_mem _ hm)]

/-! ## The last character -/

/-- The code on the first line ends with a character that lets it go on, outside any literal. -/
def EndsOpen (ls : List Lexeme) : Prop :=
  ∃ l c, lastCode? (firstLine ls) = some (l, c) ∧ c ∈ linking ∧ ¬ l.kind.IsLiteral

/-- The first line ends within a literal, after a character that would let code go on. -/
def EndsInside (ls : List Lexeme) : Prop :=
  ∃ l c, lastCode? (firstLine ls) = some (l, c) ∧ c ∈ linking ∧ l.kind.IsLiteral ∧
    '\n' ∈ l.chars

theorem lastVisible?_codeOf (ls : List Lexeme) :
    lastVisible? ((codeOf ls).map Prod.snd) = (lastCode? ls).map Prod.snd := by
  rw [lastVisible?, List.filter_map, List.getLast?_map]
  rfl

theorem of_lastCode? {ls : List Lexeme} {l : Lexeme} {c : Char} (h : lastCode? ls = some (l, c)) :
    l ∈ ls ∧ lastVisible? l.onLine = some c := by
  rw [lastCode?, codeOf, List.filter_flatMap, List.getLast?_flatMap] at h
  obtain ⟨m, hm, hlast⟩ := List.exists_of_findSome?_eq_some h
  rw [List.filter_map, List.getLast?_map] at hlast
  obtain ⟨d, hd, heq⟩ := Option.map_eq_some_iff.mp hlast
  obtain ⟨rfl, rfl⟩ := Prod.mk.inj heq
  exact ⟨(List.mem_filter.mp (List.mem_reverse.mp hm)).1, hd⟩

theorem mem_of_mem_firstLine {ls : List Lexeme} {l : Lexeme} (h : l ∈ firstLine ls) : l ∈ ls := by
  induction ls with
  | nil => cases h
  | cons m ls ih =>
    rw [firstLine] at h
    split at h
    · exact List.mem_cons.mpr (.inl (List.mem_singleton.mp h))
    · rcases List.mem_cons.mp h with rfl | h
      · exact List.mem_cons_self
      · exact List.mem_cons_of_mem m (ih h)

theorem continues_iff_of_unmarked {start : Nat} {cs : List Char}
    (hclosed : ClosesComments (firstLine (lexemes start cs)))
    (hmarks : Unmarked (firstLine (lexemes start cs))) :
    continues (cs.takeWhile (· ≠ '\n')) = true ↔
      EndsOpen (lexemes start cs) ∨ EndsInside (lexemes start cs) := by
  have hstrip := stripComments_firstLine (List.append_nil _).symm hclosed hmarks
  rw [List.flatMap_nil, stripComments_nil, List.append_nil] at hstrip
  rw [continues_iff, hstrip, lastVisible?_codeOf]
  constructor
  · rintro ⟨c, hc, hlast⟩
    obtain ⟨⟨l, d⟩, hcode, rfl⟩ := Option.map_eq_some_iff.mp hlast
    by_cases hliteral : l.kind.IsLiteral
    · right
      refine ⟨l, d, hcode, hc, hliteral, ?_⟩
      by_contra hfeed
      obtain ⟨hmem, hvisible⟩ := of_lastCode? hcode
      obtain ⟨rest, hwritten⟩ := written_of_mem_lexemes (mem_of_mem_firstLine hmem)
      rw [Lexeme.onLine, Text.takeWhile_of_not_mem hfeed] at hvisible
      exact not_mem_linking_of_literal hwritten hliteral hvisible hc
    · left
      exact ⟨l, d, hcode, hc, hliteral⟩
  · rintro (⟨l, c, hcode, hc, -⟩ | ⟨l, c, hcode, hc, -⟩)
    · exact ⟨c, hc, by rw [hcode]; rfl⟩
    · exact ⟨c, hc, by rw [hcode]; rfl⟩

theorem continues_iff_of_mark {start : Nat} {cs : List Char} {before after : List Lexeme}
    {l : Lexeme} {as bs : List Char}
    (hclosed : ClosesComments (firstLine (lexemes start cs)))
    (hsplit : firstLine (lexemes start cs) = before ++ l :: after) (hmarks : Unmarked before)
    (hliteral : l.kind.IsLiteral) (hline : l.onLine = as ++ '/' :: bs)
    (has : ¬ HoldsMark (as ++ ['/']))
    (hmark : StartsComment ('/' :: bs ++ after.flatMap Lexeme.onLine)) :
    continues (cs.takeWhile (· ≠ '\n')) = true ↔ ∃ c ∈ linking, lastVisible? as = some c := by
  have hmem : l ∈ firstLine (lexemes start cs) := by
    rw [hsplit]
    exact List.mem_append_right before List.mem_cons_self
  obtain ⟨rest, hwritten⟩ := written_of_mem_lexemes (mem_of_mem_firstLine hmem)
  have hsub : l.onLine <+: l.chars := List.takeWhile_prefix _
  rw [hline] at hsub
  obtain ⟨q, hq, hvisible⟩ := exists_visible_of_literal hwritten hliteral hsub
  have hstrip := stripComments_firstLine hsplit hclosed hmarks
  rw [List.flatMap_cons, hline, List.append_assoc, stripComments_append_comment has hmark] at hstrip
  rw [continues_iff, hstrip, lastVisible?_append hq hvisible]

/-! ## The brace of a block -/

theorem tailAfter_eq {t : SourceText} {pre post : List Char}
    (h : t.chars = pre ++ '\x7d' :: post) :
    tailAfter t (Text.byteLength pre) = post.takeWhile (· ≠ '\n') := by
  obtain ⟨ahead, hline, hcolumn⟩ := SourceText.exists_line_around h (by decide)
  have hbytes : Text.byteLength ahead + 1 = Text.byteLength (ahead ++ ['\x7d']) := by
    rw [Text.byteLength_append]
    rfl
  have hdrop := Text.dropBytes_byteLength (ahead ++ ['\x7d']) (post.takeWhile (· ≠ '\n'))
  rw [List.append_assoc] at hdrop
  rw [tailAfter, hline, hcolumn, Option.bind_some, hbytes]
  exact congrArg (·.getD []) hdrop

/-- The rule agrees with the language on whether the code after a brace goes on, if no literal on
the rest of the line holds the mark of a comment and the line does not end within a literal. Past
the first mark of a comment in a literal it sees nothing, unless the line has a mark that ends it. A
brace that is not exempt is reported once for each block that closes there. -/
theorem continues_iff_endsOpen (t : SourceText) (severity : Severity) (file : String) (o : Outline)
    (pre post : List Char) (ht : t.chars = pre ++ '\x7d' :: post)
    (hclosed : ClosesComments (firstLine (lexemes (Text.byteLength pre + 1) post))) :
    (Unmarked (firstLine (lexemes (Text.byteLength pre + 1) post)) →
      (continues (tailAfter t (Text.byteLength pre)) = true ↔
        EndsOpen (lexemes (Text.byteLength pre + 1) post) ∨
          EndsInside (lexemes (Text.byteLength pre + 1) post))) ∧
    (∀ before l after as bs,
      firstLine (lexemes (Text.byteLength pre + 1) post) = before ++ l :: after →
      Unmarked before → l.kind.IsLiteral → l.onLine = as ++ '/' :: bs → ¬ HoldsMark (as ++ ['/']) →
      StartsComment ('/' :: bs ++ after.flatMap Lexeme.onLine) →
      (continues (tailAfter t (Text.byteLength pre)) = true ↔
        ∃ c ∈ linking, lastVisible? as = some c)) ∧
    (∀ line, t.trimmedLine? (t.lineAt (Text.byteLength pre) + 1) = some line →
      mayFollow line = false →
      reportsAt severity t file o (Text.byteLength pre) =
        if continues (tailAfter t (Text.byteLength pre)) then 0
        else (o.blocks.map Block.rbrace).count (Text.byteLength pre)) := by
  rw [tailAfter_eq ht]
  refine ⟨continues_iff_of_unmarked hclosed, ?_, ?_⟩
  · intro before l after as bs hsplit hmarks hliteral hline has hmark
    exact continues_iff_of_mark hclosed hsplit hmarks hliteral hline has hmark
  · intro line hline hfollow
    let b : Block := ⟨0, Text.byteLength pre, .functionBody⟩
    have hlacks : lacksBlankAfter t b = !continues (post.takeWhile (· ≠ '\n')) := by
      simp only [lacksBlankAfter, b, hline, hfollow, tailAfter_eq ht, Bool.not_false, Bool.true_and]
    rw [reportsAt_eq (b := b), hlacks]
    cases continues (post.takeWhile (· ≠ '\n')) <;> rfl

def callHead : List Char := "package a\n\nfunc f() \x7b\n\tg(func() \x7b\n\t".toList

def callAround (tail : List Char) : SourceText :=
  { chars := callHead ++ '\x7d' :: tail }

def plainTail : List Char := ", \"b\") // c\n\th()\n\x7d\n".toList

/-- The call ends with a string that holds two slashes. -/
def slashedTail : List Char := ", \"b//c\")\n\th()\n\x7d\n".toList

theorem byteLength_callHead : Text.byteLength callHead = 35 := by decide

theorem mem_blocks_slashedTail :
    ⟨32, 35, .functionBody⟩ ∈ (Outline.ofText (callAround slashedTail).chars).blocks := by
  rw [Outline.mem_blocks_ofText_iff]
  decide +kernel

theorem firstLine_slashedTail : firstLine (lexemes (Text.byteLength callHead + 1) slashedTail) =
    [⟨.operator, [','], 36⟩, ⟨.blank, [' '], 37⟩] ++ ⟨.string, "\"b//c\"".toList, 38⟩ ::
      [⟨.operator, [')'], 44⟩, ⟨.newline, ['\n'], 45⟩] := by
  decide +kernel

theorem not_linking_before_slashes : ¬ ∃ c ∈ linking, lastVisible? "\"b".toList = some c := by
  rintro ⟨c, hc, hlast⟩
  have hletter : lastVisible? "\"b".toList = some 'b' := by decide
  rw [hletter] at hlast
  cases hlast
  exact absurd hc (by decide)

theorem continues_iff_endsOpen_calls :
    continues (tailAfter (callAround plainTail) 35) = true ∧
      reportsAt .error (callAround plainTail) "a.go"
        (Outline.ofText (callAround plainTail).chars) 35 = 0 ∧
      continues (tailAfter (callAround slashedTail) 35) = false ∧
      reportsAt .error (callAround slashedTail) "a.go"
        (Outline.ofText (callAround slashedTail).chars) 35 = 1 := by
  have hfirst : firstLine (lexemes (Text.byteLength callHead + 1) plainTail) =
      [⟨.operator, [','], 36⟩, ⟨.blank, [' '], 37⟩, ⟨.string, "\"b\"".toList, 38⟩,
        ⟨.operator, [')'], 41⟩, ⟨.blank, [' '], 42⟩, ⟨.comment, "// c".toList, 43⟩,
        ⟨.newline, ['\n'], 47⟩] := by decide +kernel
  obtain ⟨hopen, -, hreports⟩ := continues_iff_endsOpen (callAround plainTail) .error "a.go"
    (Outline.ofText (callAround plainTail).chars) callHead plainTail rfl (by rw [hfirst]; decide)
  obtain ⟨-, hmark, hreports'⟩ := continues_iff_endsOpen (callAround slashedTail) .error "a.go"
    (Outline.ofText (callAround slashedTail).chars) callHead slashedTail rfl
    (by rw [firstLine_slashedTail]; decide)
  rw [byteLength_callHead] at hreports hreports'
  have hcontinues : continues (tailAfter (callAround plainTail) 35) = true := by
    rw [← byteLength_callHead]
    apply (hopen (by rw [hfirst]; decide)).mpr
    left
    refine ⟨⟨.operator, [')'], 41⟩, ')', ?_, by decide, by decide⟩
    rw [hfirst]
    decide +kernel
  have hnone := hreports "h()".toList (by decide +kernel) (by decide +kernel)
  have hhidden : continues (tailAfter (callAround slashedTail) 35) = false := by
    rw [← Bool.not_eq_true, ← byteLength_callHead, hmark _ _ _ "\"b".toList "/c\"".toList
      firstLine_slashedTail (by decide) (by decide) (by decide) (by decide) (.inl (by decide))]
    exact not_linking_before_slashes
  have hone := hreports' "h()".toList (by decide +kernel) (by decide +kernel)
  have hcount := count_rbrace_eq_one
    (Outline.wellFormed_of_ne (Outline.ne_of_mem_blocks mem_blocks_slashedTail))
    mem_blocks_slashedTail
  rw [hcontinues, if_pos rfl] at hnone
  rw [hhidden, if_neg Bool.false_ne_true, hcount] at hone
  exact ⟨hcontinues, hnone, hhidden, hone⟩

/-- A string with two slashes hides the end of the call. -/
theorem not_forall_continues_iff_endsOpen :
    ¬ ∀ (t : SourceText) (pre post : List Char), t.chars = pre ++ '\x7d' :: post →
      (∃ b ∈ (Outline.ofText t.chars).blocks, b.rbrace = Text.byteLength pre) →
      ClosesComments (firstLine (lexemes (Text.byteLength pre + 1) post)) →
        (continues (tailAfter t (Text.byteLength pre)) = true ↔
          EndsOpen (lexemes (Text.byteLength pre + 1) post)) := by
  intro h
  have hcontinues : continues (tailAfter (callAround slashedTail) 35) = true := by
    rw [← byteLength_callHead]
    apply (h (callAround slashedTail) callHead slashedTail rfl
      ⟨_, mem_blocks_slashedTail, byteLength_callHead.symm⟩
      (by rw [firstLine_slashedTail]; decide)).mpr
    refine ⟨⟨.operator, [')'], 44⟩, ')', ?_, by decide, by decide⟩
    rw [firstLine_slashedTail]
    decide +kernel
  have htail : tailAfter (callAround slashedTail) 35 =
      (", ".toList ++ "\"b".toList) ++ "//c\")".toList := by
    decide +kernel
  have hstrip : stripComments ((", ".toList ++ "\"b".toList) ++ "//c\")".toList) =
      ", ".toList ++ "\"b".toList :=
    stripComments_append_comment (by decide) (.inl (by decide))
  have hquote : '"' ∈ "\"b".toList := by decide
  rw [htail, continues_iff, hstrip, lastVisible?_append hquote (by decide)] at hcontinues
  exact not_linking_before_slashes hcontinues

end ClosingBrace

end LayoutLint
