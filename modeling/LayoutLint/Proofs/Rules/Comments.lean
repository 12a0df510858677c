import LayoutLint.Rules.ClosingBrace

/-! # Comments after a closing brace

Comments are found by their marks alone. The characters of a line are kept one by one until a mark
stands at the head of what is left: after a line comment comes nothing more, after a block comment
what follows its end.
-/

namespace LayoutLint.ClosingBrace

/-! ## Where a pattern stands -/

theorem exists_append_of_indexOf? {p cs : List Char} {i : Nat} (h : indexOf? p cs = some i) :
    ∃ pre post, cs = pre ++ (p ++ post) ∧ pre.length = i := by
  induction cs generalizing i with
  | nil =>
    rw [indexOf?] at h
    split at h
    case isTrue hp =>
      cases h
      exact ⟨[], [], by simpa using hp, rfl⟩
    case isFalse => cases h
  | cons c cs ih =>
    rw [indexOf?] at h
    split at h
    case isTrue hp =>
      cases h
      obtain ⟨post, hpost⟩ := List.isPrefixOf_iff_prefix.mp hp
      exact ⟨[], post, hpost.symm, rfl⟩
    case isFalse =>
      obtain ⟨j, hj, rfl⟩ := Option.map_eq_some_iff.mp h
      obtain ⟨pre, post, rfl, rfl⟩ := ih hj
      exact ⟨c :: pre, post, rfl, rfl⟩

theorem indexOf?_le_length {p cs : List Char} {i : Nat} (h : indexOf? p cs = some i) :
    i ≤ cs.length := by
  obtain ⟨pre, post, rfl, rfl⟩ := exists_append_of_indexOf? h
  rw [List.length_append]
  omega

theorem indexOf?_add_two_le {a b : Char} {cs : List Char} {i : Nat}
    (h : indexOf? [a, b] cs = some i) : i + 2 ≤ cs.length := by
  obtain ⟨pre, post, rfl, rfl⟩ := exists_append_of_indexOf? h
  simp only [List.length_append, List.length_cons]
  omega

theorem indexOf?_cons_of_not_prefix {p cs : List Char} {c : Char} (h : ¬ p <+: c :: cs) :
    indexOf? p (c :: cs) = (indexOf? p cs).map (· + 1) := by
  rw [indexOf?, if_neg (mt List.isPrefixOf_iff_prefix.mp h)]

theorem indexOf?_eq_none {p cs : List Char} (h : ¬ p <:+: cs) : indexOf? p cs = none := by
  cases hi : indexOf? p cs with
  | none => rfl
  | some i =>
    obtain ⟨pre, post, rfl, -⟩ := exists_append_of_indexOf? hi
    exact absurd ⟨pre, post, List.append_assoc _ _ _⟩ h

theorem indexOf?_append {a b : Char} {cs : List Char} (post : List Char)
    (h : ¬ [a, b] <:+: cs ++ [a]) : indexOf? [a, b] (cs ++ a :: b :: post) = some cs.length := by
  induction cs with
  | nil => simp [indexOf?]
  | cons c cs ih =>
    rw [List.cons_append, List.infix_cons_iff, not_or] at h
    have hhead : ¬ [a, b] <+: c :: (cs ++ a :: b :: post) := by
      cases cs with
      | nil => simpa using h.1
      | cons d cs => simpa using h.1
    rw [List.cons_append, indexOf?_cons_of_not_prefix hhead, ih h.2]
    rfl

/-! ## What is left without comments -/

/-- What is left of a text in which a block comment opens at `block`, before any line comment. -/
theorem stripComments_eq (cs : List Char) : stripComments cs =
    match indexOf? ['/', '*'] cs with
    | none => cs.take ((indexOf? ['/', '/'] cs).getD cs.length)
    | some block =>
      if (indexOf? ['/', '/'] cs).all (block < ·) then
        cs.take block ++
          match indexOf? ['*', '/'] (cs.drop (block + 2)) with
          | none => []
          | some stop => stripComments (cs.drop (block + 2 + stop + 2))
      else cs.take ((indexOf? ['/', '/'] cs).getD cs.length) := by
  rw [stripComments]
  cases indexOf? ['/', '*'] cs <;> rfl

theorem stripComments_nil : stripComments [] = [] := by
  rw [stripComments_eq]
  rfl

theorem continues_nil : continues [] = false := by
  rw [continues, stripComments_nil]
  rfl

/-- The text starts with the mark of a comment. -/
def AtMark (cs : List Char) : Prop := ['/', '/'] <+: cs ∨ ['/', '*'] <+: cs

instance (cs : List Char) : Decidable (AtMark cs) := inferInstanceAs (Decidable (_ ∨ _))

theorem stripComments_line (cs : List Char) : stripComments ('/' :: '/' :: cs) = [] := by
  have hline : indexOf? ['/', '/'] ('/' :: '/' :: cs) = some 0 := rfl
  rw [stripComments_eq, hline]
  split <;> rfl

theorem stripComments_block (cs : List Char) :
    stripComments ('/' :: '*' :: cs) =
      (indexOf? ['*', '/'] cs).elim [] fun stop => stripComments (cs.drop (stop + 2)) := by
  have hblock : indexOf? ['/', '*'] ('/' :: '*' :: cs) = some 0 := rfl
  have hline : (indexOf? ['/', '/'] ('/' :: '*' :: cs)).all (0 < ·) = true := by
    have hnot : ['/', '/'].isPrefixOf ('/' :: '*' :: cs) = false := rfl
    rw [indexOf?, hnot]
    cases indexOf? ['/', '/'] ('*' :: cs) <;> simp
  rw [stripComments_eq, hblock]
  simp only [hline, if_true, List.take_zero, List.nil_append, Nat.zero_add, List.drop_succ_cons,
    List.drop_zero]
  cases indexOf? ['*', '/'] cs with
  | none => rfl
  | some stop => simp only [Nat.add_comm 2 stop, Option.elim_some]

theorem stripComments_cons {c : Char} {cs : List Char} (h : ¬ AtMark (c :: cs)) :
    stripComments (c :: cs) = c :: stripComments cs := by
  obtain ⟨hline, hblock⟩ := not_or.mp h
  rw [stripComments_eq, stripComments_eq cs, indexOf?_cons_of_not_prefix hline,
    indexOf?_cons_of_not_prefix hblock]
  have htake : ∀ i? : Option Nat, (c :: cs).take ((i?.map (· + 1)).getD (c :: cs).length) =
      c :: cs.take (i?.getD cs.length) := by
    intro i?
    cases i? <;> rfl
  cases indexOf? ['/', '*'] cs with
  | none => exact htake _
  | some block =>
    have hall : ((indexOf? ['/', '/'] cs).map (· + 1)).all (block + 1 < ·) =
        (indexOf? ['/', '/'] cs).all (block < ·) := by
      cases indexOf? ['/', '/'] cs <;> simp
    simp only [Option.map_some, hall, htake]
    split
    case isTrue =>
      rw [List.take_succ_cons, List.cons_append, show block + 1 + 2 = block + 2 + 1 by omega,
        List.drop_succ_cons]
      cases indexOf? ['*', '/'] (cs.drop (block + 2)) with
      | none => rfl
      | some stop =>
        simp only [show block + 2 + 1 + stop + 2 = block + 2 + stop + 2 + 1 by omega,
          List.drop_succ_cons]
    case isFalse => rfl

/-- A mark of a comment stands somewhere in the text. -/
def HoldsMark (cs : List Char) : Prop := ['/', '/'] <:+: cs ∨ ['/', '*'] <:+: cs

instance (cs : List Char) : Decidable (HoldsMark cs) := inferInstanceAs (Decidable (_ ∨ _))

theorem holdsMark_cons_iff {c : Char} {cs : List Char} :
    HoldsMark (c :: cs) ↔ AtMark (c :: cs) ∨ HoldsMark cs := by
  unfold HoldsMark AtMark
  rw [List.infix_cons_iff, List.infix_cons_iff]
  exact or_or_or_comm

theorem HoldsMark.mono {cs ds : List Char} (h : HoldsMark cs) (hsub : cs <+: ds) :
    HoldsMark ds :=
  h.imp (·.trans hsub.isInfix) (·.trans hsub.isInfix)

theorem HoldsMark.mem {cs : List Char} (h : HoldsMark cs) : '/' ∈ cs := by
  rcases h with h | h
  · exact h.subset List.mem_cons_self
  · exact h.subset List.mem_cons_self

/-- Text without a mark is kept, if no mark is completed by what follows it. -/
theorem stripComments_append {as bs : List Char} (has : ¬ HoldsMark as)
    (hlast : as.getLast? = some '/' → bs.head? ≠ some '/' ∧ bs.head? ≠ some '*') :
    stripComments (as ++ bs) = as ++ stripComments bs := by
  induction as with
  | nil => rfl
  | cons a as ih =>
    rw [holdsMark_cons_iff, not_or] at has
    have hmark : ¬ AtMark (a :: (as ++ bs)) := by
      cases as with
      | nil =>
        rintro (⟨rest, hrest⟩ | ⟨rest, hrest⟩)
        · obtain ⟨rfl, rfl⟩ := List.cons.inj hrest
          exact (hlast rfl).1 rfl
        · obtain ⟨rfl, rfl⟩ := List.cons.inj hrest
          exact (hlast rfl).2 rfl
      | cons d as => simpa [AtMark] using has.1
    rw [List.cons_append, stripComments_cons hmark, ih has.2, List.cons_append]
    intro hrest
    apply hlast
    rw [List.getLast?_cons, hrest]
    rfl

/-- The text starts with the mark of a comment that does not end in it. -/
def StartsComment (cs : List Char) : Prop :=
  ['/', '/'] <+: cs ∨ ∃ ds, cs = '/' :: '*' :: ds ∧ ¬ ['*', '/'] <:+: ds

theorem stripComments_append_comment {as bs : List Char} (has : ¬ HoldsMark (as ++ ['/']))
    (hbs : StartsComment bs) : stripComments (as ++ bs) = as := by
  have hmark : ¬ HoldsMark as := fun hmark => has (hmark.mono (List.prefix_append as _))
  have hlast : as.getLast? ≠ some '/' := by
    intro hlast
    obtain ⟨init, rfl⟩ := List.getLast?_eq_some_iff.mp hlast
    apply has
    exact .inl ⟨init, [], by simp⟩
  have hnil : stripComments bs = [] := by
    rcases hbs with ⟨ds, rfl⟩ | ⟨ds, rfl, hds⟩
    · exact stripComments_line ds
    · rw [stripComments_block, indexOf?_eq_none hds, Option.elim_none]
  rw [stripComments_append hmark fun h => absurd h hlast, hnil, List.append_nil]

end LayoutLint.ClosingBrace
