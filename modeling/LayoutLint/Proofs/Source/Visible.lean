import LayoutLint.Proofs.Source.Lexemes
import LayoutLint.Proofs.Source.Pieces
import LayoutLint.Proofs.Source.Shape
import LayoutLint.Proofs.Text.Shown
import LayoutLint.Source.Parse

/-! # Tokens can be seen

The grammar has a place for every token but the unknown ones, so a text that can be read has none of
those. Each token and each comment of such a text starts with a character that is no blank, and
between them there are only blanks.
-/

namespace LayoutLint

namespace Source

/-! ## Tokens that are read -/

namespace Grammar

variable {ρ : Type} {body : ρ → Grammar ρ}

/-- The grammar has no place for an unknown token, except in phrases. -/
def knows : Grammar ρ → Bool
  | .literal token _ => token ≠ .unknown
  | .seq a b | .alt a b => a.knows && b.knows
  | .many a | .scope a | .label _ a | .inMode _ a => a.knows
  | _ => true

theorem kind_ne_unknown_of_isMark {text : String} {t : Token} (h : isMark text t = true) :
    t.kind ≠ .unknown := by
  intro hkind
  simp [isMark, hkind] at h

theorem Reads.exists_known (hbody : ∀ name, (body name).knows = true) {g : Grammar ρ}
    {acc acc' : List Tree} {ts ts' : List Token} (h : Reads body g acc ts acc' ts')
    (hg : g.knows = true) : ∃ used, ts = used ++ ts' ∧ ∀ t ∈ used, t.kind ≠ .unknown := by
  have hone : ∀ (t : Token) (ts : List Token), t.kind ≠ .unknown →
      ∃ used, t :: ts = used ++ ts ∧ ∀ t ∈ used, t.kind ≠ .unknown :=
    fun t ts ht => ⟨[t], rfl, by simpa using ht⟩
  have htwo : ∀ {ts ts' ts'' : List Token},
      (∃ used, ts = used ++ ts' ∧ ∀ t ∈ used, t.kind ≠ .unknown) →
      (∃ used, ts' = used ++ ts'' ∧ ∀ t ∈ used, t.kind ≠ .unknown) →
      ∃ used, ts = used ++ ts'' ∧ ∀ t ∈ used, t.kind ≠ .unknown := by
    rintro _ _ _ ⟨as, rfl, has⟩ ⟨bs, rfl, hbs⟩
    refine ⟨as ++ bs, (List.append_assoc ..).symm, ?_⟩
    intro t ht
    rcases List.mem_append.mp ht with ht | ht
    · exact has t ht
    · exact hbs t ht
  induction h with
  | empty | sameLine | noBlock | ahead | lineEnd | manyStop | wrap => exact ⟨[], rfl, by simp⟩
  | mark ht | semicolon ht => exact hone _ _ (kind_ne_unknown_of_isMark ht)
  | word ht | wordAmong ht | endOfText ht => exact hone _ _ (by simp [ht])
  | literal => exact hone _ _ (of_decide_eq_true hg)
  | seq _ _ iha ihb =>
    obtain ⟨hga, hgb⟩ := Bool.and_eq_true_iff.mp hg
    exact htwo (iha hga) (ihb hgb)
  | altLeft _ ih => exact ih (Bool.and_eq_true_iff.mp hg).1
  | altRight _ ih => exact ih (Bool.and_eq_true_iff.mp hg).2
  | manyStep _ _ iha ihb => exact htwo (iha hg) (ihb hg)
  | scope _ ih | label _ ih | inMode _ ih => exact ih hg
  | phrase _ ih => exact ih (hbody _)

end Grammar

open Grammar in
theorem kind_ne_unknown_of_parse? {ts : List Token} {root : Tree} (h : parse? ts = some root) :
    ∀ t ∈ ts, t.kind ≠ .unknown := by
  obtain ⟨⟨acc, ts'⟩, hread, -⟩ := Option.map_eq_some_iff.mp h
  have hreads : Reads Phrase.body Productions.sourceFile [] ts acc ts' := reads_of_read hread
  have hbody : ∀ name, (Phrase.body name).knows = true := by
    intro name
    cases name <;> decide
  obtain ⟨used, rfl, hused⟩ := hreads.exists_known hbody (by decide)
  cases hreads with
  | seq _ hend =>
    cases hend
    rwa [List.append_nil]

theorem kind_ne_unknown_of_tokensOf {stop : Nat} {newline : Bool} {comments : List Comment}
    {ls : List Lexeme} (h : ∀ t ∈ tokensOf stop newline comments ls, t.kind ≠ .unknown) :
    ∀ l ∈ ls, l.kind ≠ .unknown := by
  induction ls generalizing newline comments with
  | nil => simp
  | cons l ls ih =>
    rw [tokensOf] at h
    intro m hm
    split at h
    case h_1 kind hkind =>
      obtain ⟨hl, hls⟩ := List.forall_mem_cons.mp h
      rcases List.mem_cons.mp hm with rfl | hm
      · intro hunknown
        simp only [Lexeme.tokenKind?, hunknown, Option.some.injEq] at hkind
        exact hl hkind.symm
      · exact ih hls m hm
    case h_2 hkind =>
      rcases List.mem_cons.mp hm with rfl | hm
      · intro hunknown
        simp [Lexeme.tokenKind?, hunknown] at hkind
      · split at h
        · exact ih h m hm
        · exact ih h m hm

/-! ## The first character of a lexeme -/

theorem isBlank_eq_false_of_isNumeral_or_isIdentContinue {c : Char}
    (h : isNumeral c = true ∨ Text.isIdentContinue c = true) : Text.isBlank c = false := by
  have hnone : ∀ r ∈ Text.blankRuns, ∀ n ∈ List.range' r.1 (r.2 + 1 - r.1),
      isNumeral (Char.ofNat n) = false ∧ Text.isIdentContinue (Char.ofNat n) = false := by
    decide +kernel
  by_contra hblank
  obtain ⟨r, hr, hc⟩ := List.any_eq_true.mp ((Bool.not_eq_false _).mp hblank)
  simp only [Bool.and_eq_true, decide_eq_true_eq] at hc
  have hrange : c.toNat ∈ List.range' r.1 (r.2 + 1 - r.1) := by
    apply List.mem_range'_1.mpr
    omega
  have hlone := hnone r hr c.toNat hrange
  rw [Char.ofNat_toNat] at hlone
  simp [hlone] at h

/-- A lexeme that is shown and has a place in the grammar does not start with a blank. -/
theorem Written.isBlank_head {kind : LexemeKind} {c : Char} {chars rest : List Char}
    (h : Written kind (c :: chars) rest) (hblank : kind ≠ .blank) (hnewline : kind ≠ .newline)
    (hunknown : kind ≠ .unknown) : Text.isBlank c = false := by
  have hoperators : operators.all (fun op => op.toList.head?.all (!Text.isBlank ·)) = true := by
    decide +kernel
  have hquotes : quotes.all (!Text.isBlank ·) = true := by decide
  generalize hcs : c :: chars = cs at h
  cases h with
  | newline => exact absurd rfl hnewline
  | blank => exact absurd rfl hblank
  | lineComment | blockComment =>
    cases hcs
    decide
  | quoted _ hq =>
    cases hcs
    simpa using List.all_eq_true.mp hquotes c hq
  | number hnumeral =>
    exact isBlank_eq_false_of_isNumeral_or_isIdentContinue (.inl (hnumeral c (hcs ▸ .head _)))
  | word _ hword =>
    exact isBlank_eq_false_of_isNumeral_or_isIdentContinue (.inr (hword c (hcs ▸ .head _)))
  | operator hop =>
    have hhead := List.all_eq_true.mp hoperators _ hop
    rw [← hcs] at hhead
    simpa using hhead
  | unknown => exact absurd rfl hunknown

/-- Each token and each comment of a text that can be read starts with a character that is no
blank. -/
theorem exists_isBlank_eq_false {cs : List Char} {root : Tree}
    (hparse : parse? (tokens cs) = some root) {l : Lexeme}
    (hl : l ∈ lexemes (withoutMark cs).1 (withoutMark cs).2) (hshown : l.isShown = true) :
    ∃ c chars, l.chars = c :: chars ∧ Text.isBlank c = false := by
  have hunknown := kind_ne_unknown_of_tokensOf (kind_ne_unknown_of_parse? hparse) l hl
  obtain ⟨rest, hwritten⟩ := written_of_mem_lexemes hl
  obtain ⟨-, -, -, -, -, -, -, hpos⟩ := exists_append_of_mem_lexemes hl
  obtain ⟨hblank, hnewline⟩ := Bool.and_eq_true_iff.mp hshown
  cases hchars : l.chars with
  | nil =>
    rw [hchars] at hpos
    exact absurd hpos (by decide)
  | cons c chars =>
    rw [hchars] at hwritten
    exact ⟨c, chars, rfl, hwritten.isBlank_head (of_decide_eq_true hblank)
      (of_decide_eq_true hnewline) hunknown⟩

/-! ## What a text shows -/

theorem allBlank_of_mem_lexemes {start : Nat} {cs : List Char} {l : Lexeme}
    (hl : l ∈ lexemes start cs) (hshown : ¬ l.isShown = true) : Text.allBlank l.chars = true := by
  obtain ⟨rest, hwritten⟩ := written_of_mem_lexemes hl
  have hspaces : ∀ c, isSpace c = true → Text.isBlank c = true := by
    intro c hc
    simp only [isSpace, Bool.or_eq_true, beq_iff_eq] at hc
    rcases hc with (((rfl | rfl) | rfl) | rfl) | rfl <;> decide
  rw [Lexeme.isShown, Bool.and_eq_true_iff, decide_eq_true_eq, decide_eq_true_eq] at hshown
  generalize hkind : l.kind = kind at hwritten hshown
  generalize l.chars = chars at hwritten ⊢
  cases hwritten with
  | newline => decide
  | blank h => exact Text.allBlank_iff.mpr fun c hc => hspaces c (h c hc)
  | quoted hliteral =>
    rcases hliteral with rfl | rfl
    all_goals exact absurd ⟨by decide, by decide⟩ hshown
  | word hword =>
    rcases hword with rfl | rfl
    all_goals exact absurd ⟨by decide, by decide⟩ hshown
  | _ => exact absurd ⟨by decide, by decide⟩ hshown

theorem exists_shown_of_append (start : Nat) {cs pre post : List Char} {c : Char}
    (hcs : cs = pre ++ c :: post) (hc : Text.isBlank c = false) :
    ∃ l ∈ lexemes start cs, l.isShown = true ∧ l.span.start ≤ start + Text.byteLength pre ∧
      start + Text.byteLength pre < l.span.stop := by
  have hblank : ∀ l ∈ lexemes start cs, ¬ l.isShown = true → Text.allBlank l.chars = true :=
    fun l => allBlank_of_mem_lexemes
  fun_induction lexemes start cs generalizing pre
  case case1 => simp at hcs
  case case2 start c' cs kind n hat chars ih =>
    have hsplit : chars ++ cs.drop n = pre ++ c :: post := by
      rw [← hcs, List.cons_append, List.take_append_drop]
    by_cases hlt : Text.byteLength pre < Text.byteLength chars
    · refine ⟨⟨kind, chars, start⟩, .head _, ?_, Nat.le_add_right _ _,
        Nat.add_lt_add_left hlt start⟩
      obtain ⟨mid, hmid⟩ := Text.exists_append_of_byteLength_le hsplit.symm (Nat.le_of_lt hlt)
      have hmem : c ∈ chars := by
        cases mid with
        | nil =>
          rw [hmid, List.append_nil] at hlt
          exact absurd hlt (Nat.lt_irrefl _)
        | cons d mid =>
          rw [hmid, List.append_assoc, List.append_cancel_left_eq] at hsplit
          rw [hmid, ← (List.cons.inj hsplit).1]
          simp
      by_contra hshown
      have hall := Text.allBlank_iff.mp (hblank _ (.head _) hshown) c hmem
      rw [hc] at hall
      cases hall
    · obtain ⟨mid, rfl⟩ := Text.exists_append_of_byteLength_le hsplit (Nat.le_of_not_lt hlt)
      rw [List.append_assoc, List.append_cancel_left_eq] at hsplit
      obtain ⟨l, hl, hshown, hstart, hstop⟩ := ih hsplit fun l hl => hblank l (.tail _ hl)
      rw [Nat.add_assoc, ← Text.byteLength_append] at hstart hstop
      exact ⟨l, .tail _ hl, hshown, hstart, hstop⟩

end Source

/-- Each piece starts with a character that is not blank, and so does nothing else between two of
them. -/
structure Shown (cs : List Char) (ps : List Piece) : Prop where
  starts : ∀ p ∈ ps, Text.ShowsAt cs p.span.start
  between : ∀ p ∈ ps, ∀ q ∈ ps, ∀ i, p.span.stop ≤ i → i < q.span.start → Text.ShowsAt cs i →
    ∃ r ∈ ps, r.span.start ≤ i ∧ i < r.span.stop

namespace Source

variable {cs : List Char} {root : Tree}

theorem showsAt_of_mem_lexemes (hparse : parse? (tokens cs) = some root) {l : Lexeme}
    (hl : l ∈ lexemes (withoutMark cs).1 (withoutMark cs).2) (hshown : l.isShown = true) :
    Text.ShowsAt cs l.start := by
  obtain ⟨c, chars, hchars, hc⟩ := exists_isBlank_eq_false hparse hl hshown
  obtain ⟨mark, hcs, hmark⟩ := exists_withoutMark cs
  obtain ⟨-, pre, post, hpre, hstart, -⟩ := exists_append_of_mem_lexemes hl
  refine ⟨mark ++ pre, c, chars ++ post, ?_, ?_, hc⟩
  · nth_rewrite 1 [hcs]
    rw [hpre, hchars, List.append_assoc, List.cons_append]
  · rw [Text.byteLength_append, hmark, hstart]

/-- A text that can be read shows what its tree holds, from the first token to the last. -/
theorem shown_of_parse? (hparse : parse? (tokens cs) = some root) : Shown cs root.pieces := by
  obtain ⟨trees, rfl, -, rest, hrest⟩ := shaped_of_parse? hparse
  have hordered := (laidOut_tokens cs).ordered
  have hstands := (laidOut_tokens cs).stands
  have hmem : ∀ p, p ∈ (tokens cs).flatMap Token.pieces ↔
      ∃ l ∈ lexemes (withoutMark cs).1 (withoutMark cs).2, l.isShown = true ∧ l.piece = p := by
    intro p
    rw [tokens, flatMap_pieces_tokensOf, List.reverse_nil, List.map_nil, List.nil_append]
    simp only [List.mem_map, List.mem_filter, and_assoc]
  rw [← hrest] at hordered hstands hmem
  have hps : ∀ p ∈ Tree.piecesOf trees, p ∈ Tree.piecesOf trees ++ rest :=
    fun p hp => List.mem_append_left rest hp
  constructor
  · intro p hp
    obtain ⟨l, hl, hshown, rfl⟩ := (hmem p).mp (hps p hp)
    exact showsAt_of_mem_lexemes hparse hl hshown
  · rintro p hp q hq i hpi hiq ⟨pre, c, post, hcs, rfl, hc⟩
    obtain ⟨mark, hmark, hbytes⟩ := exists_withoutMark cs
    have hle : Text.byteLength mark ≤ Text.byteLength pre := by
      obtain ⟨l, hl, -, rfl⟩ := (hmem p).mp (hps p hp)
      have hstart : (withoutMark cs).1 ≤ l.start := le_start_of_mem_lexemes hl
      have hlt := (hstands _ (hps _ hp)).start_lt_stop
      rw [hbytes]
      exact Nat.le_trans hstart (Nat.le_trans (Nat.le_of_lt hlt) hpi)
    obtain ⟨inner, rfl⟩ := Text.exists_append_of_byteLength_le (hmark.symm.trans hcs) hle
    have hinner : (withoutMark cs).2 = inner ++ c :: post := by
      apply List.append_cancel_left
      rw [← hmark, hcs, List.append_assoc]
    obtain ⟨l, hl, hshown, hstart, hstop⟩ :=
      exists_shown_of_append (withoutMark cs).1 hinner hc
    rw [← hbytes, ← Text.byteLength_append] at hstart hstop
    refine ⟨l.piece, ?_, hstart, hstop⟩
    rcases List.mem_append.mp ((hmem l.piece).mpr ⟨l, hl, hshown, rfl⟩) with hl | hl
    · exact hl
    · have hle : q.span.stop ≤ l.span.start := (List.pairwise_append.mp hordered).2.2 q hq _ hl
      have hlt := (hstands q (hps q hq)).start_lt_stop
      omega

end Source

end LayoutLint
