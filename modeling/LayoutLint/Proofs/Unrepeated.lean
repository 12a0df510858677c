import LayoutLint.Finding
import Mathlib.Data.List.Nodup

/-! # Findings without repetitions

Two findings of a rule differ if they start at different offsets or say different things. Checks
that speak of different matters open their messages differently, so that their findings can be put
together.
-/

namespace LayoutLint

def Finding.mark (f : Finding) : Nat × String := (f.span.start, f.message)

def Opens (a b : String) : Prop := a.toUTF8.data.toList <+: b.toUTF8.data.toList

instance (a b : String) : Decidable (Opens a b) :=
  inferInstanceAs (Decidable (a.toUTF8.data.toList <+: b.toUTF8.data.toList))

theorem Opens.refl (a : String) : Opens a a := List.prefix_rfl

theorem opens_append (a b : String) : Opens a (a ++ b) := by
  refine ⟨b.toUTF8.data.toList, ?_⟩
  simp [String.toUTF8]

theorem Opens.append_right {a b : String} (h : Opens a b) (c : String) : Opens a (b ++ c) :=
  h.trans (opens_append b c)

/-- Neither text begins with the other. -/
def Diverge (a b : String) : Prop := ¬ Opens a b ∧ ¬ Opens b a

instance (a b : String) : Decidable (Diverge a b) := inferInstanceAs (Decidable (_ ∧ _))

theorem Diverge.excludes {a b c : String} (h : Diverge a b) (ha : Opens a c) : ¬ Opens b c := by
  intro hb
  rcases List.prefix_or_prefix_of_prefix ha hb with hab | hba
  · exact h.1 hab
  · exact h.2 hba

/-- Each finding opens with one of the texts, and no two have the same mark. -/
structure Unrepeated (openings : List String) (fs : List Finding) : Prop where
  opens : ∀ f ∈ fs, ∃ s ∈ openings, Opens s f.message
  nodup : (fs.map Finding.mark).Nodup

namespace Unrepeated

variable {openings openings' : List String} {fs fs' : List Finding}

theorem nil : Unrepeated openings [] := ⟨fun _ h => absurd h List.not_mem_nil, .nil⟩

theorem singleton {f : Finding} (h : f.message ∈ openings) : Unrepeated openings [f] := by
  refine ⟨fun f' hf' => ?_, List.nodup_singleton _⟩
  rw [List.mem_singleton.mp hf']
  exact ⟨f.message, h, .refl _⟩

theorem mono (h : Unrepeated openings fs) (hsub : openings ⊆ openings') :
    Unrepeated openings' fs := by
  refine ⟨fun f hf => ?_, h.nodup⟩
  obtain ⟨s, hs, hopens⟩ := h.opens f hf
  exact ⟨s, hsub hs, hopens⟩

theorem of_starts (hopens : ∀ f ∈ fs, ∃ s ∈ openings, Opens s f.message)
    (hstarts : (fs.map (·.span.start)).Nodup) : Unrepeated openings fs := by
  refine ⟨hopens, List.Nodup.of_map Prod.fst ?_⟩
  rwa [List.map_map]

theorem append (h : Unrepeated openings fs) (h' : Unrepeated openings' fs')
    (hdiverge : ∀ a ∈ openings, ∀ b ∈ openings', Diverge a b) :
    Unrepeated (openings ++ openings') (fs ++ fs') := by
  refine ⟨fun f hf => ?_, ?_⟩
  · rcases List.mem_append.mp hf with hf | hf
    · obtain ⟨s, hs, hopens⟩ := h.opens f hf
      exact ⟨s, List.mem_append_left _ hs, hopens⟩
    · obtain ⟨s, hs, hopens⟩ := h'.opens f hf
      exact ⟨s, List.mem_append_right _ hs, hopens⟩
  · rw [List.map_append]
    refine h.nodup.append h'.nodup fun m hm hm' => ?_
    obtain ⟨f, hf, rfl⟩ := List.mem_map.mp hm
    obtain ⟨f', hf', hmark⟩ := List.mem_map.mp hm'
    obtain ⟨a, ha, hopens⟩ := h.opens f hf
    obtain ⟨b, hb, hopens'⟩ := h'.opens f' hf'
    have hmessage : f'.message = f.message := congrArg Prod.snd hmark
    exact (hdiverge a ha b hb).excludes hopens (hmessage ▸ hopens')

theorem flatMap {α : Type} {xs : List α} {g : α → List Finding}
    (h : ∀ x ∈ xs, Unrepeated openings (g x))
    (hapart : xs.Pairwise fun x y =>
      ∀ f ∈ g x, ∀ f' ∈ g y, f.span.start ≠ f'.span.start) :
    Unrepeated openings (xs.flatMap g) := by
  refine ⟨fun f hf => ?_, ?_⟩
  · obtain ⟨x, hx, hf⟩ := List.mem_flatMap.mp hf
    exact (h x hx).opens f hf
  · rw [List.map_flatMap, List.nodup_flatMap]
    refine ⟨fun x hx => (h x hx).nodup, hapart.imp fun hxy m hm hm' => ?_⟩
    obtain ⟨f, hf, rfl⟩ := List.mem_map.mp hm
    obtain ⟨f', hf', hmark⟩ := List.mem_map.mp hm'
    exact hxy f hf f' hf' (congrArg Prod.fst hmark).symm

end Unrepeated

/-- Findings, at most one for each element, whose starts tell the elements apart. -/
theorem nodup_starts_filterMap {α β : Type} {xs : List α} {g : α → Option Finding} (key : α → β)
    (read : Nat → β) (hxs : (xs.map key).Nodup)
    (hread : ∀ x ∈ xs, ∀ f, g x = some f → read f.span.start = key x) :
    ((xs.filterMap g).map (·.span.start)).Nodup := by
  refine List.pairwise_map.mpr (List.pairwise_filterMap.mpr ?_)
  refine (List.pairwise_map.mp hxs).imp_of_mem fun {x y} hx hy hne f hf f' hf' heq => hne ?_
  rw [← hread x hx f hf, ← hread y hy f' hf', heq]

end LayoutLint
