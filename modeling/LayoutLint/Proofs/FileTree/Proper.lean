import LayoutLint.FileTree
import LayoutLint.Proofs.Path.Relative
import LayoutLint.Proofs.Steps

/-! # Proper file trees

In a proper tree the entries of a directory have different names, and each name is one segment of
a path. There a path that is joined from names leads to what stands under these names. Other bytes
in one file change nothing about where paths lead.
-/

namespace LayoutLint.FileTree

open LayoutLint.Path

inductive IsProper : FileTree → Prop where
  | file (bytes : ByteArray) : IsProper (file bytes)
  | directory {entries : List (String × FileTree)} (nodup : (entries.map Prod.fst).Nodup)
      (isName : ∀ e ∈ entries, IsName e.1) (proper : ∀ e ∈ entries, IsProper e.2) :
      IsProper (directory entries)

mutual

def isProper : FileTree → Bool
  | file _ => true
  | directory entries => decide (entries.map Prod.fst).Nodup && areProper entries

def areProper : List (String × FileTree) → Bool
  | [] => true
  | (name, t) :: entries => decide (IsName name) && t.isProper && areProper entries

end

mutual

theorem isProper_iff : ∀ t : FileTree, t.isProper ↔ t.IsProper
  | file bytes => by simp [isProper, IsProper.file]
  | directory entries => by
    rw [isProper, Bool.and_eq_true, decide_eq_true_eq, areProper_iff entries]
    constructor
    · exact fun ⟨nodup, h⟩ => .directory nodup (fun e he => (h e he).1) fun e he => (h e he).2
    · intro h
      cases h with
      | directory nodup isName proper => exact ⟨nodup, fun e he => ⟨isName e he, proper e he⟩⟩

theorem areProper_iff : ∀ entries : List (String × FileTree),
    areProper entries ↔ ∀ e ∈ entries, IsName e.1 ∧ e.2.IsProper
  | [] => by simp [areProper]
  | (name, t) :: entries => by
    rw [areProper, Bool.and_eq_true, Bool.and_eq_true, decide_eq_true_eq, isProper_iff t,
      areProper_iff entries, List.forall_mem_cons]

end

instance (t : FileTree) : Decidable t.IsProper := decidable_of_iff _ (isProper_iff t)

def at? : List String → FileTree → Option FileTree
  | [], t => some t
  | name :: names, t => (t.child? name).bind (at? names)

theorem ne_nil_of_at?_directory {entries : List (String × FileTree)} {names : List String}
    {bytes : ByteArray} (h : (directory entries).at? names = some (file bytes)) : names ≠ [] := by
  rintro rfl
  cases h

theorem mem_of_lookup {entries : List (String × FileTree)} {name : String} {t : FileTree}
    (h : entries.lookup name = some t) : (name, t) ∈ entries := by
  induction entries with
  | nil => simp at h
  | cons e entries ih =>
    obtain ⟨n, s⟩ := e
    rw [List.lookup_cons] at h
    split at h
    case h_1 he =>
      obtain rfl := Option.some.inj h
      rw [beq_iff_eq.mp he]
      exact List.mem_cons_self
    case h_2 => exact List.mem_cons_of_mem _ (ih h)

theorem lookup_of_mem {entries : List (String × FileTree)} (nodup : (entries.map Prod.fst).Nodup)
    {e : String × FileTree} (he : e ∈ entries) : entries.lookup e.1 = some e.2 := by
  induction entries with
  | nil => exact absurd he List.not_mem_nil
  | cons d entries ih =>
    obtain ⟨hd, nodup⟩ := List.nodup_cons.mp nodup
    rcases List.mem_cons.mp he with rfl | he
    · exact List.lookup_cons_self
    · have hne : e.1 ≠ d.1 := fun h => hd (h ▸ List.mem_map_of_mem he)
      rw [List.lookup_cons, beq_eq_false_iff_ne.mpr hne]
      exact ih nodup he

theorem IsProper.of_child? {t s : FileTree} {name : String} (ht : t.IsProper)
    (h : t.child? name = some s) : s.IsProper := by
  cases ht with
  | file bytes => simp [child?] at h
  | directory nodup isName proper => exact proper (name, s) (mem_of_lookup h)

/-! ## Following paths -/

namespace Trail

variable {trail trail' : Trail} {segment : String} {s : FileTree}

/-- All that a step can do: stay, go up, or go down to an entry. -/
theorem step_eq_ok_iff :
    trail.step segment = .ok trail' ↔ trail.place.tree.isDirectory ∧
      (isVoid segment ∧ trail' = trail ∨
        isVoid segment = false ∧ segment = ".." ∧ trail' = trail.up ∨
        isVoid segment = false ∧ segment ≠ ".." ∧
          ∃ s, trail.place.tree.child? segment = some s ∧ trail' = trail.down segment s) := by
  cases htree : trail.place.tree with
  | file bytes => simp [step, htree, isDirectory]
  | directory entries =>
    simp only [step, htree, isDirectory, child?, true_and]
    cases hvoid : isVoid segment with
    | true => simp [eq_comm]
    | false =>
      by_cases hparent : segment = ".."
      · simp [hparent, eq_comm]
      · cases hs : entries.lookup segment <;> simp [hparent, eq_comm]

theorem step_name (hn : IsName segment) (hs : trail.place.tree.child? segment = some s) :
    trail.step segment = .ok (trail.down segment s) := by
  refine step_eq_ok_iff.mpr ⟨?_, .inr (.inr ⟨hn.notVoid, hn.notParent, s, hs, rfl⟩)⟩
  cases htree : trail.place.tree with
  | file bytes => simp [htree, child?] at hs
  | directory entries => rfl

theorem step_void (hvoid : isVoid segment) (h : trail.step segment = .ok trail') :
    trail' = trail := by
  obtain ⟨-, ⟨-, rfl⟩ | ⟨hnot, -⟩ | ⟨hnot, -⟩⟩ := step_eq_ok_iff.mp h
  · rfl
  · simp [hvoid] at hnot
  · simp [hvoid] at hnot

theorem foldlM_step_void {voids : List String} (hvoids : ∀ s ∈ voids, isVoid s)
    (h : voids.foldlM step trail = .ok trail') : trail' = trail := by
  induction voids generalizing trail with
  | nil => exact (Except.ok.inj h).symm
  | cons s voids ih =>
    obtain ⟨hs, hvoids⟩ := List.forall_mem_cons.mp hvoids
    obtain ⟨next, hnext, hrest⟩ := foldlM_cons_eq_ok_iff.mp h
    rw [ih hvoids hrest, step_void hs hnext]

section

variable {P : Place → Prop}
  (hchild : ∀ {p : Place} {name : String} {s : FileTree}, P p → p.tree.child? name = some s →
    P ⟨p.names ++ [name], s⟩)
include hchild

/-- What goes over to the entries of a place goes over to all places that a trail leads through. -/
theorem forall_step (ht : ∀ p ∈ trail.place :: trail.above, P p)
    (h : trail.step segment = .ok trail') : ∀ p ∈ trail'.place :: trail'.above, P p := by
  obtain ⟨-, ⟨-, rfl⟩ | ⟨-, -, rfl⟩ | ⟨-, -, s, hs, rfl⟩⟩ := step_eq_ok_iff.mp h
  · exact ht
  · unfold up
    split
    case h_1 => exact ht
    case h_2 parent above habove =>
      exact fun p hp => ht p (List.mem_cons_of_mem _ (habove ▸ hp))
  · intro p hp
    rcases List.mem_cons.mp hp with rfl | hp
    · exact hchild (ht trail.place List.mem_cons_self) hs
    · exact ht p hp

end

end Trail

theorem find_eq_ok_iff {t : FileTree} {path : String} {place : Place} :
    t.find path = .ok place ↔ isAbsolute path ∧ ∃ trail : Trail,
      (segments path).foldlM Trail.step ⟨[], ⟨[], t⟩⟩ = .ok trail ∧ trail.place = place := by
  rw [find]
  split
  case isTrue habs =>
    cases (segments path).foldlM Trail.step ⟨[], ⟨[], t⟩⟩ with
    | error e => simp [Except.map]
    | ok trail => simp [Except.map, habs]
  case isFalse habs => simp [habs]

theorem isAbsolute_of_find {t : FileTree} {path : String} {place : Place}
    (h : t.find path = .ok place) : isAbsolute path :=
  (find_eq_ok_iff.mp h).1

theorem find_keeps {P : Place → Prop} {t : FileTree} {path : String} {place : Place}
    (hchild : ∀ {p : Place} {name : String} {s : FileTree}, P p → p.tree.child? name = some s →
      P ⟨p.names ++ [name], s⟩)
    (ht : P ⟨[], t⟩) (h : t.find path = .ok place) : P place := by
  obtain ⟨-, trail, hf, rfl⟩ := find_eq_ok_iff.mp h
  have hstart : ∀ p ∈ [(⟨[], t⟩ : Place)], P p := by
    intro p hp
    rwa [List.mem_singleton.mp hp]
  exact foldlM_keeps (Trail.forall_step hchild) hstart hf trail.place List.mem_cons_self

theorem IsProper.of_find {t : FileTree} {path : String} {place : Place} (ht : t.IsProper)
    (h : t.find path = .ok place) : place.tree.IsProper :=
  find_keeps (P := fun p => p.tree.IsProper) IsProper.of_child? ht h

theorem at?_append (names names' : List String) (t : FileTree) :
    t.at? (names ++ names') = (t.at? names).bind (at? names') := by
  induction names generalizing t with
  | nil => rfl
  | cons name names ih =>
    rw [List.cons_append, at?, at?, Option.bind_assoc]
    exact congrArg _ (funext ih)

theorem at?_of_find {t : FileTree} {path : String} {place : Place}
    (h : t.find path = .ok place) : t.at? place.names = some place.tree := by
  refine find_keeps (P := fun p => t.at? p.names = some p.tree) (fun hp hs => ?_) rfl h
  rw [at?_append, hp, Option.bind_some, at?, hs]
  rfl

theorem find_join {t s : FileTree} {root name : String} {place : Place}
    (h : t.find root = .ok place) (hn : IsName name) (hs : place.tree.child? name = some s) :
    t.find (join root name) = .ok ⟨place.names ++ [name], s⟩ := by
  obtain ⟨hroot, trail, hf, rfl⟩ := find_eq_ok_iff.mp h
  obtain ⟨ss, hss, hjoin⟩ := segments_join (ne_empty_of_isAbsolute hroot) hn
  have hf' : ss.foldlM Trail.step ⟨[], ⟨[], t⟩⟩ = .ok trail := by
    rcases hss with he | he
    · rwa [he] at hf
    · rw [he] at hf
      obtain ⟨mid, hmid, hlast⟩ := foldlM_append_eq_ok_iff.mp hf
      rw [hmid, Trail.foldlM_step_void (by simp [isVoid]) hlast]
  refine find_eq_ok_iff.mpr ⟨isAbsolute_join hroot name, trail.down name s, ?_, rfl⟩
  rw [hjoin]
  refine foldlM_append_eq_ok_iff.mpr ⟨trail, hf', ?_⟩
  rw [foldlM_singleton, Trail.step_name hn hs]

theorem find_foldl_join {t s : FileTree} {root : String} {names : List String} {place : Place}
    (h : t.find root = .ok place) (hn : ∀ name ∈ names, IsName name)
    (hs : place.tree.at? names = some s) :
    t.find (names.foldl join root) = .ok ⟨place.names ++ names, s⟩ := by
  induction names generalizing root place with
  | nil =>
    obtain rfl : place.tree = s := Option.some.inj hs
    rw [List.append_nil]
    exact h
  | cons name names ih =>
    obtain ⟨child, hchild, hs⟩ := Option.bind_eq_some_iff.mp hs
    have hname : IsName name := hn name List.mem_cons_self
    have hnext := ih (find_join h hname hchild)
      (fun n hm => hn n (List.mem_cons_of_mem name hm)) hs
    rwa [List.append_assoc, List.singleton_append] at hnext

/-! ## Other bytes in one file -/

/-- The second tree is the first with the given bytes in the file under some names. -/
inductive Rewritten (bytes : ByteArray) : List String → FileTree → FileTree → Prop where
  | file (old : ByteArray) : Rewritten bytes [] (file old) (file bytes)
  | entry {name : String} {names : List String} {s s' : FileTree}
      (before after : List (String × FileTree)) (first : name ∉ before.map Prod.fst)
      (inner : Rewritten bytes names s s') :
      Rewritten bytes (name :: names) (directory (before ++ (name, s) :: after))
        (directory (before ++ (name, s') :: after))

theorem exists_append_of_lookup {entries : List (String × FileTree)} {name : String}
    {s : FileTree} (h : entries.lookup name = some s) :
    ∃ before after, name ∉ before.map Prod.fst ∧ entries = before ++ (name, s) :: after ∧
      ∀ s', setEntry name s' entries = before ++ (name, s') :: after := by
  induction entries with
  | nil => simp at h
  | cons e entries ih =>
    obtain ⟨n, u⟩ := e
    by_cases hn : n = name
    · subst hn
      obtain rfl : u = s := by simpa [List.lookup_cons] using h
      exact ⟨[], entries, List.not_mem_nil, rfl, fun s' => by simp [setEntry]⟩
    · have hrest : entries.lookup name = some s := by
        rwa [List.lookup_cons, beq_eq_false_iff_ne.mpr (Ne.symm hn)] at h
      obtain ⟨before, after, hnot, rfl, hset⟩ := ih hrest
      refine ⟨(n, u) :: before, after, ?_, rfl, fun s' => ?_⟩
      · rw [List.map_cons, List.mem_cons, not_or]
        exact ⟨Ne.symm hn, hnot⟩
      · rw [setEntry, if_neg hn, hset, List.cons_append]

/-- Writing to a file that is there changes its bytes only. -/
theorem rewritten_insert {t : FileTree} {names : List String} {old : ByteArray}
    (h : t.at? names = some (file old)) (bytes : ByteArray) :
    Rewritten bytes names t (t.insert bytes names) := by
  induction names generalizing t with
  | nil =>
    obtain rfl : t = file old := Option.some.inj h
    exact .file old
  | cons name names ih =>
    obtain ⟨s, hs, hsub⟩ := Option.bind_eq_some_iff.mp h
    cases t with
    | file bytes => simp [child?] at hs
    | directory entries =>
      rw [child?] at hs
      obtain ⟨before, after, hnot, he, hset⟩ := exists_append_of_lookup hs
      rw [insert, hs, Option.getD_some, hset, he]
      exact .entry before after hnot (ih hsub)

namespace Rewritten

variable {bytes : ByteArray} {name : String} {names target : List String} {t t' : FileTree}

theorem isDirectory_eq (h : Rewritten bytes names t t') : t'.isDirectory = t.isDirectory := by
  cases h with
  | file => rfl
  | entry => rfl

theorem isDirectory_eq_false (h : Rewritten bytes [] t t') : t.isDirectory = false := by
  cases h with
  | file => rfl

theorem child?_eq_none (h : Rewritten bytes [] t t') (n : String) :
    t.child? n = none ∧ t'.child? n = none := by
  cases h with
  | file => exact ⟨rfl, rfl⟩

theorem child?_eq (h : Rewritten bytes (name :: names) t t') :
    (∃ s s', t.child? name = some s ∧ t'.child? name = some s' ∧ Rewritten bytes names s s') ∧
      ∀ n, n ≠ name → t'.child? n = t.child? n := by
  cases h with
  | @entry _ _ s s' before after first inner =>
    have hnone : before.lookup name = none := by
      rw [List.lookup_eq_none_iff]
      intro e he
      rw [bne_iff_ne]
      rintro rfl
      exact first (List.mem_map_of_mem he)
    refine ⟨⟨s, s', ?_, ?_, inner⟩, fun n hn => ?_⟩
    · simp [child?, List.lookup_append, hnone]
    · simp [child?, List.lookup_append, hnone]
    · simp [child?, List.lookup_append, List.lookup_cons, beq_eq_false_iff_ne.mpr hn]

end Rewritten

def Place.RewrittenAt (bytes : ByteArray) (target : List String) (p p' : Place) : Prop :=
  p'.names = p.names ∧
    ((∃ rest, target = p.names ++ rest ∧ Rewritten bytes rest p.tree p'.tree) ∨
      ¬ p.names <+: target ∧ p'.tree = p.tree)

section

variable {bytes : ByteArray} {target : List String} {p p' : Place} {segment : String}
  {s : FileTree}

theorem Place.RewrittenAt.isDirectory_eq (h : p.RewrittenAt bytes target p') :
    p'.tree.isDirectory = p.tree.isDirectory := by
  obtain ⟨-, ⟨rest, -, hr⟩ | ⟨-, he⟩⟩ := h
  · exact hr.isDirectory_eq
  · rw [he]

theorem Place.RewrittenAt.child? (h : p.RewrittenAt bytes target p')
    (hs : p.tree.child? segment = some s) :
    ∃ s', p'.tree.child? segment = some s' ∧
      Place.RewrittenAt bytes target ⟨p.names ++ [segment], s⟩ ⟨p'.names ++ [segment], s'⟩ := by
  obtain ⟨hnames, ⟨rest, htarget, hr⟩ | ⟨hoff, he⟩⟩ := h
  · cases rest with
    | nil => simp [(hr.child?_eq_none segment).1] at hs
    | cons name rest =>
      obtain ⟨⟨u, u', hu, hu', hin⟩, hother⟩ := hr.child?_eq
      by_cases hseg : segment = name
      · subst hseg
        obtain rfl : u = s := Option.some.inj (hu.symm.trans hs)
        refine ⟨u', hu', by rw [hnames], .inl ⟨rest, ?_, hin⟩⟩
        rw [htarget, List.append_assoc, List.singleton_append]
      · refine ⟨s, (hother segment hseg).trans hs, by rw [hnames], .inr ⟨?_, rfl⟩⟩
        rw [htarget, List.prefix_append_right_inj]
        simpa using hseg
  · refine ⟨s, by rw [he, hs], by rw [hnames], .inr ⟨fun hpre => hoff ?_, rfl⟩⟩
    exact (List.prefix_append _ _).trans hpre

namespace Trail

variable {trail trail' next : Trail}

def RewrittenAt (bytes : ByteArray) (target : List String) (trail trail' : Trail) : Prop :=
  List.Forall₂ (Place.RewrittenAt bytes target) (trail.place :: trail.above)
    (trail'.place :: trail'.above)

theorem RewrittenAt.place (h : trail.RewrittenAt bytes target trail') :
    trail.place.RewrittenAt bytes target trail'.place :=
  (List.forall₂_cons.mp h).1

theorem RewrittenAt.up (h : trail.RewrittenAt bytes target trail') :
    trail.up.RewrittenAt bytes target trail'.up := by
  obtain ⟨above, place⟩ := trail
  obtain ⟨above', place'⟩ := trail'
  have habove := (List.forall₂_cons.mp h).2
  cases habove with
  | nil => exact h
  | cons hp hrest => exact .cons hp hrest

theorem RewrittenAt.step (h : trail.RewrittenAt bytes target trail')
    (hstep : trail.step segment = .ok next) :
    ∃ next', trail'.step segment = .ok next' ∧ next.RewrittenAt bytes target next' := by
  simp only [step_eq_ok_iff, h.place.isDirectory_eq] at hstep ⊢
  obtain ⟨hdir, ⟨hv, rfl⟩ | ⟨hv, hp, rfl⟩ | ⟨hv, hp, s, hs, rfl⟩⟩ := hstep
  · exact ⟨trail', ⟨hdir, .inl ⟨hv, rfl⟩⟩, h⟩
  · exact ⟨trail'.up, ⟨hdir, .inr (.inl ⟨hv, hp, rfl⟩)⟩, h.up⟩
  · obtain ⟨s', hs', hr⟩ := h.place.child? hs
    exact ⟨trail'.down segment s', ⟨hdir, .inr (.inr ⟨hv, hp, s', hs', rfl⟩)⟩, .cons hr h⟩

end Trail

theorem Rewritten.find {t t' : FileTree} {path : String} {place : Place} {rest : List String}
    (h : Rewritten bytes (place.names ++ rest) t t') (hf : t.find path = .ok place) :
    ∃ tree, t'.find path = .ok ⟨place.names, tree⟩ ∧ Rewritten bytes rest place.tree tree := by
  obtain ⟨habs, trail, hrun, rfl⟩ := find_eq_ok_iff.mp hf
  have hstart : Trail.RewrittenAt bytes (trail.place.names ++ rest) ⟨[], ⟨[], t⟩⟩ ⟨[], ⟨[], t'⟩⟩ :=
    .cons ⟨rfl, .inl ⟨_, rfl, h⟩⟩ .nil
  obtain ⟨trail', hrun', hr⟩ := foldlM_follows Trail.RewrittenAt.step hstart hrun
  refine ⟨trail'.place.tree, ?_, ?_⟩
  · refine find_eq_ok_iff.mpr ⟨habs, trail', hrun', ?_⟩
    rw [← hr.place.1]
  · obtain ⟨-, ⟨rest', he, hr'⟩ | ⟨hoff, -⟩⟩ := hr.place
    · rwa [List.append_cancel_left he]
    · exact absurd (List.prefix_append _ _) hoff

end

end LayoutLint.FileTree
