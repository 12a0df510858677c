import LayoutLint.Proofs.Source.Reads
import LayoutLint.Source.Parse
import Mathlib.Data.List.Basic
import Mathlib.Data.List.TakeWhile

/-! # The shape of trees

What a grammar makes one node of depends on little: how the trees in the scope begin and end, and
how many of them are bodies of functions. This takes few values, and following the grammar with
these values alone shows that each node it makes holds what its kind asks for.
-/

namespace LayoutLint.Source

/-! ## Looks and profiles -/

inductive Look where
  | comment
  /-- The mark that opens a block. -/
  | opening
  /-- The mark that closes a block. -/
  | closing
  | block
  | other
  deriving DecidableEq, Repr

def Look.of (kind : NodeKind) (text : String) : Look :=
  match kind with
  | .comment => comment
  | .block => block
  | .mark => if text = "\x7b" then opening else if text = "\x7d" then closing else other
  | _ => other

def Tree.look (t : Tree) : Look := .of t.kind t.text

/-- What shows of a row of trees. -/
structure Profile where
  /-- The first tree that is no comment. -/
  first : Option Look
  last : Option Look
  /-- How many of the trees are bodies. -/
  bodies : Nat
  deriving DecidableEq, Repr

namespace Profile

def of (ts : List Tree) : Profile where
  first := (ts.map Tree.look).find? (· ≠ .comment)
  last := (ts.map Tree.look).getLast?
  bodies := ts.countP (·.field? = some .body)

def empty : Profile := ⟨none, none, 0⟩

def single (look : Look) : Profile := ⟨some look, some look, 0⟩

def append (p q : Profile) : Profile := ⟨p.first.or q.first, q.last.or p.last, p.bodies + q.bodies⟩

/-- The profile with its last tree in the part `field`, if it has no body before. -/
def label? (field : Field) (p : Profile) : Option Profile :=
  if p.bodies = 0 && p.last.isSome && p.last ≠ some .comment &&
      (field ≠ .body || p.last = some .block) then
    some { p with bodies := if field = .body then 1 else 0 }
  else none

end Profile

def NodeKind.isBraced (kind : NodeKind) : Bool :=
  kind = .block || kind = .expressionSwitchStatement || kind = .typeSwitchStatement ||
    kind = .selectStatement

/-- A node of the given kind may have children of this profile. -/
def Profile.fits (p : Profile) (kind : NodeKind) : Bool :=
  kind ≠ .mark && kind ≠ .comment && kind ≠ .error && p.first.isSome && p.bodies ≤ 1 &&
    (!kind.isBraced || p.last = some .closing) && (kind ≠ .block || p.first = some .opening)

/-- The tree has no syntax errors, each node has what its kind asks for, and only blocks are
bodies. -/
inductive Tree.Shaped : Tree → Prop where

  | leaf {field kind t} : kind ≠ .comment → kind ≠ .block → t.kind ≠ .endOfText →
      field ≠ some .body → kind ≠ .error → Shaped (.leaf field kind t)

  | comment {c} : Shaped (.comment c)

  | node {field kind children} : (Profile.of children).fits kind = true →
      (field = some .body → kind = .block) → (∀ c ∈ children, Shaped c) →
      Shaped (.node field kind children)

/-! ## Following a grammar -/

section

variable {ρ : Type} (shape : ρ → List Profile)

def NodeKind.isPlain (kind : NodeKind) : Bool :=
  kind ≠ .mark && kind ≠ .error && Look.of kind "" = .other

/-- Reading along the grammar leads from the profile `p` to one of `ps`, if each phrase leads from
nothing to its shape. Where the scope is not the reader's own, it is not wrapped. -/
def Leads : Bool → Grammar ρ → Profile → List Profile → Prop
  | _, .empty, p, ps | _, .sameLine, p, ps | _, .noBlock, p, ps | _, .ahead _, p, ps => p ∈ ps
  | _, .fail, _, _ => True
  | _, .mark text, p, ps => p.append (.single (.of .mark text)) ∈ ps
  | _, .word kind _, p, ps | _, .wordAmong kind _, p, ps =>
    kind.isPlain = true ∧ p.append (.single .other) ∈ ps
  | _, .literal token kind, p, ps =>
    token ≠ .endOfText ∧ kind.isPlain = true ∧ p.append (.single .other) ∈ ps
  | _, .terminator, p, ps => p ∈ ps ∧ p.append (.single .other) ∈ ps
  | _, .endOfText, p, ps => p ∈ ps ∧ p.append ⟨none, some .comment, 0⟩ ∈ ps
  | own, .seq a b, p, ps => ∃ qs, Leads own a p qs ∧ ∀ q ∈ qs, Leads own b q ps
  | own, .alt a b, p, ps => Leads own a p ps ∧ Leads own b p ps
  | own, .many a, p, ps => ∃ qs, p ∈ qs ∧ qs ⊆ ps ∧ ∀ q ∈ qs, Leads own a q qs
  | _, .scope a, p, ps => ∃ qs, Leads true a .empty qs ∧ ∀ q ∈ qs, p.append q ∈ ps
  | own, .wrap kind field, p, ps =>
    own = true ∧ field ≠ some .body ∧ p.fits kind = true ∧ .single (.of kind "") ∈ ps
  | _, .label field a, p, ps =>
    ∃ qs, Leads true a .empty qs ∧ ∀ q ∈ qs, ∃ r, q.label? field = some r ∧ p.append r ∈ ps
  | own, .inMode _ a, p, ps => Leads own a p ps
  | _, .phrase name, p, ps => ∀ q ∈ shape name, p.append q ∈ ps

def followAll (f : Profile → Option (List Profile)) : List Profile → Option (List Profile)
  | [] => some []
  | p :: ps => do return (← f p) ∪ (← followAll f ps)

/-- All profiles to which repetition leads, if no more than `n` rounds find them. -/
def saturate (f : Profile → Option (List Profile)) : Nat → List Profile → Option (List Profile)
  | 0, _ => none
  | n + 1, ps => do
    let qs ← followAll f ps
    if qs.all (· ∈ ps) then return ps else saturate f n (ps ∪ qs)

/-- The profiles to which the grammar leads, or none where it does not fit. -/
def follow : Bool → Grammar ρ → Profile → Option (List Profile)
  | _, .empty, p | _, .sameLine, p | _, .noBlock, p | _, .ahead _, p => some [p]
  | _, .fail, _ => some []
  | _, .mark text, p => some [p.append (.single (.of .mark text))]
  | _, .word kind _, p | _, .wordAmong kind _, p =>
    if kind.isPlain then some [p.append (.single .other)] else none
  | _, .literal token kind, p =>
    if token ≠ .endOfText && kind.isPlain then some [p.append (.single .other)] else none
  | _, .terminator, p => some [p, p.append (.single .other)]
  | _, .endOfText, p => some [p, p.append ⟨none, some .comment, 0⟩]
  | own, .seq a b, p => (follow own a p).bind (followAll (follow own b))
  | own, .alt a b, p => do return (← follow own a p) ∪ (← follow own b p)
  | own, .many a, p => saturate (follow own a) 4 [p]
  | _, .scope a, p => (follow true a .empty).map (·.map p.append)
  | own, .wrap kind field, p =>
    if own && field ≠ some .body && p.fits kind then some [.single (.of kind "")] else none
  | _, .label field a, p =>
    (follow true a .empty).bind (followAll fun q => (q.label? field).map ([p.append ·]))
  | own, .inMode _ a, p => follow own a p
  | _, .phrase name, p => some ((shape name).map p.append)

variable {shape}

theorem followAll_spec {f : Profile → Option (List Profile)} {ps qs : List Profile}
    (h : followAll f ps = some qs) : ∀ p ∈ ps, ∃ rs, f p = some rs ∧ rs ⊆ qs := by
  induction ps generalizing qs with
  | nil => simp
  | cons p ps ih =>
    obtain ⟨rs, hp, h⟩ := Option.bind_eq_some_iff.mp h
    obtain ⟨rest, hps, h⟩ := Option.bind_eq_some_iff.mp h
    cases h
    intro q hq
    rcases List.mem_cons.mp hq with rfl | hq
    · exact ⟨rs, hp, fun r hr => List.mem_union_iff.mpr (.inl hr)⟩
    · obtain ⟨ss, hf, hsub⟩ := ih hps q hq
      exact ⟨ss, hf, fun r hr => List.mem_union_iff.mpr (.inr (hsub hr))⟩

theorem saturate_spec {f : Profile → Option (List Profile)} {n : Nat} {ps qs : List Profile}
    (h : saturate f n ps = some qs) : ps ⊆ qs ∧ ∀ q ∈ qs, ∃ rs, f q = some rs ∧ rs ⊆ qs := by
  induction n generalizing ps with
  | zero => cases h
  | succ n ih =>
    obtain ⟨rs, hall, h⟩ := Option.bind_eq_some_iff.mp h
    split at h
    case isTrue hsub =>
      cases h
      refine ⟨List.Subset.refl _, fun q hq => ?_⟩
      obtain ⟨ss, hf, hss⟩ := followAll_spec hall q hq
      exact ⟨ss, hf, fun s hs => by simpa using List.all_eq_true.mp hsub s (hss hs)⟩
    case isFalse =>
      obtain ⟨hps, hclosed⟩ := ih h
      exact ⟨fun p hp => hps (List.mem_union_iff.mpr (.inl hp)), hclosed⟩

section

variable {own : Bool} {a b : Grammar ρ} {p : Profile} {ps : List Profile}

theorem plain_of_follow_word {kind : NodeKind}
    (h : (if kind.isPlain then some [p.append (.single .other)] else none) = some ps) :
    kind.isPlain = true ∧ ps = [p.append (.single .other)] := by
  split at h
  · exact ⟨‹_›, (Option.some.inj h).symm⟩
  · cases h

theorem plain_of_follow_literal {token : TokenKind} {kind : NodeKind}
    (h : follow shape own (.literal token kind) p = some ps) :
    token ≠ .endOfText ∧ kind.isPlain = true ∧ ps = [p.append (.single .other)] := by
  rw [follow] at h
  split at h
  case isTrue hkind =>
    obtain ⟨htoken, hkind⟩ := Bool.and_eq_true_iff.mp hkind
    exact ⟨by simpa using htoken, hkind, (Option.some.inj h).symm⟩
  case isFalse => cases h

theorem exists_of_follow_seq (h : follow shape own (.seq a b) p = some ps) :
    ∃ rs, follow shape own a p = some rs ∧
      ∀ r ∈ rs, ∃ ss, follow shape own b r = some ss ∧ ss ⊆ ps := by
  obtain ⟨rs, ha, h⟩ := Option.bind_eq_some_iff.mp h
  exact ⟨rs, ha, followAll_spec h⟩

theorem exists_of_follow_alt (h : follow shape own (.alt a b) p = some ps) :
    ∃ rs ss, follow shape own a p = some rs ∧ follow shape own b p = some ss ∧
      rs ⊆ ps ∧ ss ⊆ ps := by
  obtain ⟨rs, ha, h⟩ := Option.bind_eq_some_iff.mp h
  obtain ⟨ss, hb, h⟩ := Option.bind_eq_some_iff.mp h
  cases h
  exact ⟨rs, ss, ha, hb, fun r hr => List.mem_union_iff.mpr (.inl hr),
    fun s hs => List.mem_union_iff.mpr (.inr hs)⟩

theorem fits_of_follow_wrap {kind : NodeKind} {field : Option Field}
    (h : follow shape own (.wrap kind field) p = some ps) :
    own = true ∧ field ≠ some .body ∧ p.fits kind = true ∧ ps = [.single (.of kind "")] := by
  rw [follow] at h
  split at h
  case isTrue hfits =>
    simp only [Bool.and_eq_true, decide_eq_true_eq] at hfits
    exact ⟨hfits.1.1, hfits.1.2, hfits.2, (Option.some.inj h).symm⟩
  case isFalse => cases h

theorem exists_of_follow_label {field : Field} (h : follow shape own (.label field a) p = some ps) :
    ∃ rs, follow shape true a .empty = some rs ∧
      ∀ r ∈ rs, ∃ q, r.label? field = some q ∧ p.append q ∈ ps := by
  obtain ⟨rs, ha, h⟩ := Option.bind_eq_some_iff.mp h
  refine ⟨rs, ha, fun r hr => ?_⟩
  obtain ⟨ss, hf, hss⟩ := followAll_spec h r hr
  obtain ⟨q, hq, rfl⟩ := Option.map_eq_some_iff.mp hf
  exact ⟨q, hq, hss List.mem_cons_self⟩

end

/-- Whatever follows along the grammar is a way that it leads. -/
theorem leads_of_follow {own : Bool} {g : Grammar ρ} {p : Profile} {ps qs : List Profile}
    (h : follow shape own g p = some ps) (hsub : ps ⊆ qs) : Leads shape own g p qs := by
  induction g generalizing own p ps qs with
  | empty | sameLine | noBlock | ahead | mark =>
    cases h
    exact hsub List.mem_cons_self
  | fail => trivial
  | word kind texts | wordAmong kind texts =>
    obtain ⟨hkind, rfl⟩ := plain_of_follow_word h
    exact ⟨hkind, hsub List.mem_cons_self⟩
  | literal token kind =>
    obtain ⟨htoken, hkind, rfl⟩ := plain_of_follow_literal h
    exact ⟨htoken, hkind, hsub List.mem_cons_self⟩
  | terminator | endOfText =>
    cases h
    exact ⟨hsub List.mem_cons_self, hsub (List.mem_cons_of_mem _ List.mem_cons_self)⟩
  | seq a b iha ihb =>
    obtain ⟨rs, ha, hb⟩ := exists_of_follow_seq h
    refine ⟨rs, iha ha (List.Subset.refl _), fun r hr => ?_⟩
    obtain ⟨ss, hb, hss⟩ := hb r hr
    exact ihb hb (List.Subset.trans hss hsub)
  | alt a b iha ihb =>
    obtain ⟨rs, ss, ha, hb, hrs, hss⟩ := exists_of_follow_alt h
    exact ⟨iha ha (List.Subset.trans hrs hsub), ihb hb (List.Subset.trans hss hsub)⟩
  | many a ih =>
    obtain ⟨hps, hclosed⟩ := saturate_spec h
    refine ⟨ps, hps List.mem_cons_self, hsub, fun q hq => ?_⟩
    obtain ⟨rs, hf, hrs⟩ := hclosed q hq
    exact ih hf hrs
  | scope a ih =>
    obtain ⟨rs, ha, rfl⟩ := Option.map_eq_some_iff.mp h
    exact ⟨rs, ih ha (List.Subset.refl _), fun r hr => hsub (List.mem_map_of_mem hr)⟩
  | wrap kind field =>
    obtain ⟨hown, hfield, hfits, rfl⟩ := fits_of_follow_wrap h
    exact ⟨hown, hfield, hfits, hsub List.mem_cons_self⟩
  | label field a ih =>
    obtain ⟨rs, ha, hlabel⟩ := exists_of_follow_label h
    refine ⟨rs, ih ha (List.Subset.refl _), fun r hr => ?_⟩
    obtain ⟨q, hq, hmem⟩ := hlabel r hr
    exact ⟨q, hq, hsub hmem⟩
  | inMode mode a ih => exact ih h hsub
  | phrase name =>
    cases h
    exact fun q hq => hsub (List.mem_map_of_mem hq)

end

/-! ## Profiles of scopes -/

namespace Look

theorem of_eq_comment_iff {kind : NodeKind} {text : String} :
    of kind text = comment ↔ kind = .comment := by
  unfold of
  split <;> grind

theorem of_eq_block_iff {kind : NodeKind} {text : String} :
    of kind text = block ↔ kind = .block := by
  unfold of
  split <;> grind

theorem of_eq_opening_iff {kind : NodeKind} {text : String} :
    of kind text = opening ↔ kind = .mark ∧ text = "\x7b" := by
  unfold of
  split <;> grind

theorem of_eq_closing_iff {kind : NodeKind} {text : String} :
    of kind text = closing ↔ kind = .mark ∧ text = "\x7d" := by
  unfold of
  split <;> grind

theorem of_isPlain {kind : NodeKind} (h : kind.isPlain = true) (text : String) :
    of kind text = other := by
  simp only [NodeKind.isPlain, Bool.and_eq_true_iff, decide_eq_true_eq] at h
  rw [← h.2]
  unfold of
  split <;> grind

end Look

namespace Profile

/-- What a node of the given kind has, if its children have the profile `p`. -/
structure Fits (p : Profile) (kind : NodeKind) : Prop where
  notMark : kind ≠ .mark
  notComment : kind ≠ .comment
  notError : kind ≠ .error
  first : p.first.isSome = true
  bodies : p.bodies ≤ 1
  closing : kind.isBraced = true → p.last = some .closing
  opening : kind = .block → p.first = some .opening

theorem fits_of_eq {p : Profile} {kind : NodeKind} (h : p.fits kind = true) : p.Fits kind := by
  simp only [fits, Bool.and_eq_true, Bool.or_eq_true, decide_eq_true_eq, Bool.not_eq_true',
    ← imp_iff_not_or, ← Bool.not_eq_true, ne_eq] at h
  obtain ⟨⟨⟨⟨⟨⟨hmark, hcomment⟩, herror⟩, hfirst⟩, hbodies⟩, hclosing⟩, hopening⟩ := h
  exact ⟨hmark, hcomment, herror, hfirst, hbodies, hclosing, hopening⟩

end Profile

namespace Tree

theorem look_eq_comment_iff {t : Tree} : t.look = .comment ↔ t.isComment = true := by
  rw [look, Look.of_eq_comment_iff, isComment, decide_eq_true_eq]

@[simp] theorem look_withField (f : Field) (t : Tree) : (t.withField f).look = t.look := by
  cases t <;> rfl

theorem field?_withField {t : Tree} (h : t.look ≠ .comment) (f : Field) :
    (t.withField f).field? = some f := by
  cases t with
  | leaf => rfl
  | comment => exact absurd rfl h
  | missing => rfl
  | node => rfl

theorem Shaped.withField {t : Tree} (h : t.Shaped) {f : Field} (hf : f = .body → t.look = .block) :
    (t.withField f).Shaped := by
  cases h with
  | leaf hcomment hblock ht _ herror =>
    refine .leaf hcomment hblock ht (fun hbody => hblock ?_) herror
    exact Look.of_eq_block_iff.mp (hf (Option.some.inj hbody))
  | comment => exact .comment
  | node hfits _ hchildren =>
    exact .node hfits (fun hbody => Look.of_eq_block_iff.mp (hf (Option.some.inj hbody))) hchildren

theorem Shaped.exists_eq_comment {t : Tree} (h : t.Shaped) (hc : t.isComment = true) :
    ∃ c, t = .comment c := by
  rw [isComment, decide_eq_true_eq] at hc
  cases h with
  | leaf hkind => exact absurd hc hkind
  | comment => exact ⟨_, rfl⟩
  | @node _ kind _ hfits =>
    obtain rfl : kind = .comment := hc
    simp [Profile.fits] at hfits

mutual

theorem Shaped.hasError_eq_false {t : Tree} (h : t.Shaped) : t.hasError = false := by
  cases h with
  | leaf _ _ _ _ herror => exact decide_eq_false herror
  | comment => rfl
  | node hfits _ hchildren =>
    rw [hasError, hasErrorIn_eq_false hchildren, Bool.or_false]
    exact decide_eq_false (Profile.fits_of_eq hfits).notError

theorem hasErrorIn_eq_false {ts : List Tree} (h : ∀ t ∈ ts, t.Shaped) : hasErrorIn ts = false := by
  cases ts with
  | nil => rfl
  | cons t ts =>
    rw [hasErrorIn, (h t List.mem_cons_self).hasError_eq_false,
      hasErrorIn_eq_false fun u hu => h u (List.mem_cons_of_mem t hu), Bool.or_false]

end

theorem Shaped.fits {t : Tree} (h : t.Shaped) (hne : t.children ≠ []) :
    (Profile.of t.children).fits t.kind = true := by
  cases h with
  | leaf => exact absurd rfl hne
  | comment => exact absurd rfl hne
  | node hfits => exact hfits

theorem exists_eq_comment_of_mem_takeWhile {ts : List Tree} (hts : ∀ t ∈ ts, t.Shaped) {t : Tree}
    (ht : t ∈ ts.takeWhile isComment) : ∃ c, t = .comment c :=
  (hts t ((List.takeWhile_prefix _).subset ht)).exists_eq_comment (List.mem_takeWhile_imp ht)

end Tree

namespace Profile

open LayoutLint.Source.Tree

theorem exists_first {ts : List Tree} {look : Look} (h : (of ts).first = some look) :
    ∃ pre t post, ts = pre ++ t :: post ∧ t.look = look ∧ ∀ c ∈ pre, c.look = .comment := by
  rw [of, List.find?_map] at h
  obtain ⟨t, ht, rfl⟩ := Option.map_eq_some_iff.mp h
  obtain ⟨-, pre, post, rfl, hpre⟩ := List.find?_eq_some_iff_append.mp ht
  exact ⟨pre, t, post, rfl, rfl, by simpa using hpre⟩

theorem exists_last {ts : List Tree} {look : Look} (h : (of ts).last = some look) :
    ∃ rest t, ts = rest ++ [t] ∧ t.look = look := by
  rw [of, List.getLast?_map] at h
  obtain ⟨t, ht, rfl⟩ := Option.map_eq_some_iff.mp h
  obtain ⟨rest, rfl⟩ := List.getLast?_eq_some_iff.mp ht
  exact ⟨rest, t, rfl, rfl⟩

theorem of_append (ts us : List Tree) : of (ts ++ us) = (of ts).append (of us) := by
  simp only [of, append, List.map_append, List.find?_append, List.getLast?_append,
    List.countP_append]

theorem of_singleton {t : Tree} (hlook : t.look ≠ .comment) (hbody : t.field? ≠ some .body) :
    of [t] = single t.look := by
  simp [of, single, hlook, hbody]

theorem append_empty (p : Profile) : p.append empty = p := by
  simp [append, empty]

theorem of_labelLast {t : Tree} {rest : List Tree} {f : Field} (hlook : t.look ≠ .comment)
    (hbodies : (of (t :: rest).reverse).bodies = 0) :
    of (Grammar.labelLast f (t :: rest)).reverse =
      { of (t :: rest).reverse with bodies := if f = .body then 1 else 0 } := by
  have hrest : rest.countP (·.field? = some .body) = 0 := by
    simp only [of, List.countP_reverse, List.countP_cons] at hbodies
    omega
  simp only [of, Grammar.labelLast, List.map_reverse, List.map_cons, look_withField,
    List.countP_reverse, List.countP_cons, hrest, field?_withField hlook, Option.some.injEq,
    decide_eq_true_eq, Nat.zero_add]

theorem of_comments {ts : List Tree} (h : ∀ t ∈ ts, ∃ c, t = .comment c) :
    of ts = empty ∨ of ts = ⟨none, some .comment, 0⟩ := by
  induction ts with
  | nil => exact .inl rfl
  | cons t ts ih =>
    obtain ⟨c, rfl⟩ := h t List.mem_cons_self
    refine .inr ?_
    rw [← List.singleton_append, of_append]
    rcases ih fun u hu => h u (List.mem_cons_of_mem _ hu) with hts | hts <;> rw [hts] <;> rfl

theorem of_comments_append {ts : List Tree} (h : ∀ t ∈ ts, ∃ c, t = .comment c) (look : Look) :
    (of ts).append (single look) = single look := by
  rcases of_comments h with hts | hts <;> rw [hts] <;> rfl

theorem of_dropWhile {ts : List Tree} (hts : ∀ t ∈ ts, t.Shaped)
    (h : (of ts).first.isSome = true) : of (ts.dropWhile isComment) = of ts := by
  have hcs := of_comments fun t => exists_eq_comment_of_mem_takeWhile hts (t := t)
  have hsplit := of_append (ts.takeWhile isComment) (ts.dropWhile isComment)
  rw [List.takeWhile_append_dropWhile] at hsplit
  have hlast : (of (ts.dropWhile isComment)).last.isSome = true := by
    cases hrest : ts.dropWhile isComment with
    | nil =>
      rw [hrest] at hsplit
      rcases hcs with hfirst | hfirst <;> rw [hsplit, hfirst] at h <;> cases h
    | cons t rest => simp [of]
  obtain ⟨look, hlook⟩ := Option.isSome_iff_exists.mp hlast
  rcases hcs with hfirst | hfirst <;> rw [hsplit, hfirst] <;>
    simp [append, empty, hlook] <;> rw [← hlook]

end Profile

/-! ## What grows in a scope -/

/-- The scope has shaped trees on top of `base`, and `p` shows of them. -/
def Grows (own : Bool) (base : List Tree) (p : Profile) (acc : List Tree) : Prop :=
  ∃ inner, acc = inner ++ base ∧ (own = true → base = []) ∧ (∀ t ∈ inner, t.Shaped) ∧
    Profile.of inner.reverse = p

namespace Grows

variable {own : Bool} {base acc inner : List Tree} {p q : Profile}

theorem nothing (hown : own = true → base = []) : Grows own base .empty base :=
  ⟨[], rfl, hown, by simp, rfl⟩

theorem append (h : Grows own base p acc) (hinner : ∀ t ∈ inner, t.Shaped)
    (hq : Profile.of inner.reverse = q) : Grows own base (p.append q) (inner ++ acc) := by
  obtain ⟨before, rfl, hown, hbefore, rfl⟩ := h
  refine ⟨inner ++ before, (List.append_assoc _ _ _).symm, hown, fun t ht => ?_, ?_⟩
  · rcases List.mem_append.mp ht with ht | ht
    · exact hinner t ht
    · exact hbefore t ht
  · rw [List.reverse_append, Profile.of_append, hq]

theorem comments (h : Grows own base p acc) (cs : List Comment) :
    ∃ q, (q = .empty ∨ q = ⟨none, some .comment, 0⟩) ∧
      Grows own base (p.append q) (cs.reverse.map Tree.comment ++ acc) := by
  have hcs : ∀ t ∈ (cs.reverse.map Tree.comment).reverse, ∃ c, t = .comment c := by
    intro t ht
    obtain ⟨c, -, rfl⟩ := List.mem_map.mp (List.mem_reverse.mp ht)
    exact ⟨c, rfl⟩
  refine ⟨_, Profile.of_comments hcs, h.append (fun t ht => ?_) rfl⟩
  obtain ⟨c, rfl⟩ := hcs t (List.mem_reverse.mpr ht)
  exact .comment

theorem push (h : Grows own base p acc) {leaf : Tree} (hleaf : leaf.Shaped)
    (hlook : leaf.look ≠ .comment) (hfield : leaf.field? ≠ some .body) (t : Token) :
    Grows own base (p.append (.single leaf.look)) (Grammar.push leaf t acc) := by
  have hcs : ∀ u ∈ t.comments.map Tree.comment, ∃ c, u = .comment c := by simp
  change Grows own base _ ((leaf :: t.comments.reverse.map Tree.comment) ++ acc)
  refine h.append (fun u hu => ?_) ?_
  · rcases List.mem_cons.mp hu with rfl | hu
    · exact hleaf
    · obtain ⟨c, -, rfl⟩ := List.mem_map.mp hu
      exact .comment
  · rw [List.reverse_cons, List.map_reverse, List.reverse_reverse, Profile.of_append,
      Profile.of_singleton hlook hfield, Profile.of_comments_append hcs]

theorem pushLeaf (h : Grows own base p acc) {kind : NodeKind} (hkind : kind.isPlain = true)
    {t : Token} (ht : t.kind ≠ .endOfText) :
    Grows own base (p.append (.single .other)) (Grammar.push (.leaf none kind t) t acc) := by
  have hlook : (Tree.leaf none kind t).look = .other := Look.of_isPlain hkind t.text
  have hshaped : (Tree.leaf none kind t).Shaped := by
    refine .leaf (fun hc => ?_) (fun hb => ?_) ht nofun ?_
    · exact nomatch (Look.of_eq_comment_iff.mpr hc).symm.trans hlook
    · exact nomatch (Look.of_eq_block_iff.mpr hb).symm.trans hlook
    · simp only [NodeKind.isPlain, Bool.and_eq_true_iff, decide_eq_true_eq] at hkind
      exact hkind.1.2
  rw [← hlook]
  exact h.push hshaped (by rw [hlook]; nofun) nofun t

theorem pushMark (h : Grows own base p acc) {text : String} {t : Token}
    (ht : Grammar.isMark text t = true) :
    Grows own base (p.append (.single (.of .mark text)))
      (Grammar.push (.leaf none .mark t) t acc) := by
  rw [Grammar.isMark, Bool.and_eq_true_iff, Bool.or_eq_true_iff, decide_eq_true_eq,
    decide_eq_true_eq, beq_iff_eq] at ht
  obtain ⟨hkind, rfl⟩ := ht
  have hleaf : (Tree.leaf none .mark t).Shaped := by
    refine .leaf nofun nofun (fun hend => ?_) nofun nofun
    rcases hkind with hkind | hkind <;> rw [hkind] at hend <;> cases hend
  exact h.push hleaf (fun hc => absurd (Look.of_eq_comment_iff.mp hc) nofun) nofun t

theorem wrapAll (h : Grows true base p acc) {kind : NodeKind} {field : Option Field}
    (hfield : field ≠ some .body) (hfits : p.fits kind = true) :
    Grows true base (.single (.of kind "")) (Grammar.wrapAll kind field acc) := by
  obtain ⟨inner, rfl, hown, hinner, rfl⟩ := h
  obtain rfl := hown rfl
  rw [List.append_nil, Grammar.wrapAll]
  have hshaped : ∀ t ∈ inner.reverse, t.Shaped := fun t ht => hinner t (List.mem_reverse.mp ht)
  generalize inner.reverse = trees at hfits hshaped
  have hfirst : (Profile.of trees).first.isSome = true := (Profile.fits_of_eq hfits).first
  have hcs : ∀ t ∈ trees.takeWhile Tree.isComment, ∃ c, t = .comment c := fun t =>
    Tree.exists_eq_comment_of_mem_takeWhile hshaped
  have hnode : (Tree.node field kind (trees.dropWhile Tree.isComment)).Shaped := by
    refine .node ?_ (fun hb => absurd hb hfield) fun t ht =>
      hshaped t ((List.dropWhile_suffix _).subset ht)
    rwa [Profile.of_dropWhile hshaped hfirst]
  have hlook : (Tree.node field kind (trees.dropWhile Tree.isComment)).look ≠ .comment := by
    intro hc
    exact (Profile.fits_of_eq hfits).notComment (Look.of_eq_comment_iff.mp hc)
  refine ⟨_, (List.append_nil _).symm, fun _ => rfl, fun t ht => ?_, ?_⟩
  · rcases List.mem_cons.mp ht with rfl | ht
    · exact hnode
    · obtain ⟨c, rfl⟩ := hcs t (List.mem_reverse.mp ht)
      exact .comment
  · rw [List.reverse_cons, List.reverse_reverse, Profile.of_append,
      Profile.of_singleton hlook hfield, Profile.of_comments_append hcs]
    rfl

theorem labelLast (h : Grows own base p acc) (hinner : Grows true [] q inner) {field : Field}
    {r : Profile} (hr : q.label? field = some r) :
    Grows own base (p.append r) (Grammar.labelLast field inner ++ acc) := by
  obtain ⟨trees, rfl, -, hshaped, rfl⟩ := hinner
  rw [List.append_nil]
  rw [Profile.label?] at hr
  split at hr
  case isFalse => cases hr
  case isTrue hlast =>
    simp only [Bool.and_eq_true, Bool.or_eq_true, decide_eq_true_eq] at hlast
    obtain ⟨⟨⟨hbodies, hsome⟩, hcomment⟩, hblock⟩ := hlast
    cases hr
    cases trees with
    | nil => cases hsome
    | cons t rest =>
      have hlook : (Profile.of (t :: rest).reverse).last = some t.look := by
        rw [List.reverse_cons, Profile.of_append]
        simp [Profile.of, Profile.append]
      rw [hlook] at hcomment hblock
      refine h.append (fun u hu => ?_) ?_
      · rcases List.mem_cons.mp hu with rfl | hu
        · refine (hshaped t List.mem_cons_self).withField fun hbody => ?_
          exact Option.some.inj (hblock.resolve_left fun hne => hne hbody)
        · exact hshaped u (List.mem_cons_of_mem _ hu)
      · exact Profile.of_labelLast (fun hc => hcomment (congrArg some hc)) hbodies

end Grows

/-- Reading leads from what shows of a scope to what shows of it afterwards. -/
theorem Grammar.Reads.grows {ρ : Type} {shape : ρ → List Profile} {body : ρ → Grammar ρ}
    (hbody : ∀ name, Leads shape false (body name) .empty (shape name)) {g : Grammar ρ}
    {acc acc' : List Tree} {ts ts' : List Token} (h : Reads body g acc ts acc' ts') {own : Bool}
    {base : List Tree} {p : Profile} {ps : List Profile} (hacc : Grows own base p acc)
    (hg : Leads shape own g p ps) : ∃ q ∈ ps, Grows own base q acc' := by
  induction h generalizing own base p ps with
  | empty | sameLine | noBlock | ahead => exact ⟨p, hg, hacc⟩
  | mark ht => exact ⟨_, hg, hacc.pushMark ht⟩
  | word ht | wordAmong ht => exact ⟨_, hg.2, hacc.pushLeaf hg.1 (by rw [ht]; nofun)⟩
  | literal => exact ⟨_, hg.2.2, hacc.pushLeaf hg.2.1 hg.1⟩
  | lineEnd => exact ⟨p, hg.1, hacc⟩
  | semicolon ht htext =>
    refine ⟨_, hg.2, ?_⟩
    have hmark := hacc.pushMark ht
    rcases htext with rfl | rfl <;> exact hmark
  | @endOfText t =>
    obtain ⟨q, rfl | rfl, hq⟩ := hacc.comments t.comments
    · exact ⟨p, hg.1, by rwa [Profile.append_empty] at hq⟩
    · exact ⟨_, hg.2, hq⟩
  | seq _ _ iha ihb =>
    obtain ⟨qs, ha, hb⟩ := hg
    obtain ⟨q, hq, hacc'⟩ := iha hacc ha
    exact ihb hacc' (hb q hq)
  | altLeft _ ih => exact ih hacc hg.1
  | altRight _ ih => exact ih hacc hg.2
  | manyStop =>
    obtain ⟨qs, hp, hsub, -⟩ := hg
    exact ⟨p, hsub hp, hacc⟩
  | manyStep _ _ iha ihb =>
    obtain ⟨qs, hp, hsub, hclosed⟩ := hg
    obtain ⟨q, hq, hacc'⟩ := iha hacc (hclosed p hp)
    exact ihb hacc' ⟨qs, hq, hsub, hclosed⟩
  | scope _ ih =>
    obtain ⟨qs, ha, hqs⟩ := hg
    obtain ⟨q, hq, inner, rfl, -, hinner, hof⟩ := ih (.nothing fun _ => rfl) ha
    rw [List.append_nil]
    exact ⟨_, hqs q hq, hacc.append hinner hof⟩
  | wrap =>
    obtain ⟨rfl, hfield, hfits, hmem⟩ := hg
    exact ⟨_, hmem, hacc.wrapAll hfield hfits⟩
  | label _ ih =>
    obtain ⟨qs, ha, hqs⟩ := hg
    obtain ⟨q, hq, hinner⟩ := ih (.nothing fun _ => rfl) ha
    obtain ⟨r, hr, hmem⟩ := hqs q hq
    exact ⟨_, hmem, hacc.labelLast hinner hr⟩
  | inMode _ ih => exact ih hacc hg
  | @phrase name acc acc' ts ts' _ ih =>
    obtain ⟨q, hq, inner, rfl, -, hinner, hof⟩ :=
      ih (Grows.nothing nofun : Grows false acc .empty acc) (hbody name)
    exact ⟨_, hg q hq, hacc.append hinner hof⟩

/-! ## Source files -/

def Phrase.shape : Phrase → List Profile
  | block => [.single .block]
  | statement => [.single .other, .single .block]
  | _ => [.single .other]

theorem Phrase.leads_body (name : Phrase) :
    Leads shape false name.body .empty name.shape := by
  have h : (follow shape false name.body .empty).any (·.all (· ∈ name.shape)) = true := by
    cases name <;> decide +kernel
  cases hps : follow shape false name.body .empty with
  | none =>
    rw [hps] at h
    cases h
  | some ps =>
    rw [hps] at h
    exact leads_of_follow hps fun p hp => by simpa using List.all_eq_true.mp h p hp

theorem exists_leads_sourceFile :
    ∃ ps, Leads Phrase.shape true Productions.sourceFile .empty ps := by
  have h : (follow Phrase.shape true Productions.sourceFile .empty).isSome = true := by
    decide +kernel
  obtain ⟨ps, hps⟩ := Option.isSome_iff_exists.mp h
  exact ⟨ps, leads_of_follow hps (List.Subset.refl ps)⟩

theorem shaped_of_parse? {ts : List Token} {root : Tree} (h : parse? ts = some root) :
    ∃ trees, root = .node none .sourceFile trees ∧ (∀ t ∈ trees, t.Shaped) ∧
      Tree.piecesOf trees <+: ts.flatMap Token.pieces := by
  obtain ⟨⟨acc, rest⟩, hread, rfl⟩ := Option.map_eq_some_iff.mp h
  have hreads := Grammar.reads_of_read hread
  obtain ⟨ps, hps⟩ := exists_leads_sourceFile
  obtain ⟨p, -, inner, rfl, -, hshaped, -⟩ :=
    hreads.grows Phrase.leads_body (Grows.nothing fun _ => rfl) hps
  refine ⟨_, rfl, fun t ht => hshaped t ?_, rest.flatMap Token.pieces, hreads.pieces_eq⟩
  rwa [List.append_nil, List.mem_reverse] at ht

end LayoutLint.Source
