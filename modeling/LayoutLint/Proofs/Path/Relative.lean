import LayoutLint.Proofs.Path.Order
import Mathlib.Data.List.DropRight
import Mathlib.Data.List.TakeWhile

/-! # Paths inside a directory

A name joined to a path adds one component. The other way round, a path inside a directory, seen
from there, has the components that it has besides those of the directory.
-/

namespace LayoutLint.Path

/-- A text that can name an entry of a directory. -/
structure IsName (name : String) : Prop where
  noSlash : '/' ∉ name.toList
  notVoid : isVoid name = false
  notParent : name ≠ ".."

instance (name : String) : Decidable (IsName name) :=
  decidable_of_iff ('/' ∉ name.toList ∧ isVoid name = false ∧ name ≠ "..")
    ⟨fun ⟨h₁, h₂, h₃⟩ => ⟨h₁, h₂, h₃⟩, fun ⟨h₁, h₂, h₃⟩ => ⟨h₁, h₂, h₃⟩⟩

theorem IsName.isAbsolute_append {name : String} (hn : IsName name) (rest : String) :
    isAbsolute (name ++ rest) = false := by
  cases hcs : name.toList with
  | nil =>
    obtain rfl : name = "" := String.toList_inj.mp hcs
    exact absurd hn.notVoid (by decide)
  | cons c cs =>
    have hc : c ≠ '/' := by
      rintro rfl
      exact hn.noSlash (by simp [hcs])
    simpa [isAbsolute, String.toList_append, hcs] using hc

theorem IsName.isAbsolute {name : String} (hn : IsName name) : Path.isAbsolute name = false := by
  have happend := hn.isAbsolute_append ""
  rwa [String.append_empty] at happend

/-! ## Segments -/

theorem slash_not_mem_of_mem_splitOn {cs s : List Char} (h : s ∈ cs.splitOn '/') : '/' ∉ s := by
  induction cs generalizing s with
  | nil => simp_all
  | cons c cs ih =>
    rw [List.splitOn_cons_eq_if_modifyHead] at h
    split at h
    case isTrue =>
      rcases List.mem_cons.mp h with rfl | h
      · exact List.not_mem_nil
      · exact ih h
    case isFalse hc =>
      obtain ⟨t, ts, ht⟩ := List.exists_cons_of_ne_nil (List.splitOn_ne_nil '/' cs)
      rw [ht] at h ih
      rcases List.mem_cons.mp h with rfl | h
      · rw [List.mem_cons, not_or]
        exact ⟨fun he => hc (beq_iff_eq.mpr he.symm), ih List.mem_cons_self⟩
      · exact ih (List.mem_cons_of_mem t h)

theorem slash_not_mem_of_mem_segments {path s : String} (h : s ∈ segments path) :
    '/' ∉ s.toList := by
  obtain ⟨cs, hcs, rfl⟩ := List.mem_map.mp h
  rw [String.toList_ofList]
  exact slash_not_mem_of_mem_splitOn hcs

theorem segments_of_slash_not_mem {name : String} (h : '/' ∉ name.toList) :
    segments name = [name] := by
  rw [segments, List.splitOn_eq_singleton h, List.map_singleton, String.ofList_toList]

theorem segments_append_slash (a b : String) :
    segments (a ++ "/" ++ b) = segments a ++ segments b := by
  have hlist : (a ++ "/" ++ b).toList = a.toList ++ '/' :: b.toList := by
    simp [String.toList_append]
  rw [segments, hlist, List.splitOn_append_cons_self, List.map_append, segments, segments]

theorem segments_intercalate {ss : List String} (hne : ss ≠ [])
    (h : ∀ s ∈ ss, '/' ∉ s.toList) : segments ("/".intercalate ss) = ss := by
  have hlist : ("/".intercalate ss).toList = ['/'].intercalate (ss.map String.toList) :=
    String.toList_intercalate
  rw [segments, hlist, List.splitOn_intercalate, List.map_map]
  · simp [Function.comp_def]
  · simpa using h
  · simpa using hne

/-! ## Components -/

theorem bodyComponents_append (ss ss' : List String) :
    bodyComponents (ss ++ ss') = bodyComponents ss ++ bodyComponents ss' := by
  rw [bodyComponents, List.filter_append, List.map_append, bodyComponents, bodyComponents]

theorem bodyComponents_of_isVoid {ss : List String} (h : ∀ s ∈ ss, isVoid s) :
    bodyComponents ss = [] := by
  rw [bodyComponents, List.filter_eq_nil_iff.mpr, List.map_nil]
  intro s hs
  simp [h s hs]

theorem bodyComponents_name {name : String} (h : IsName name) :
    bodyComponents [name] = [.normal name] := by
  simp [bodyComponents, bodyComponent, h.notVoid, h.notParent]

theorem segments_of_isAbsolute {path : String} (h : isAbsolute path) :
    ∃ rest, segments path = "" :: rest := by
  simp only [isAbsolute, beq_iff_eq, List.head?_eq_some_iff] at h
  obtain ⟨cs, hcs⟩ := h
  rw [segments, hcs, List.splitOn_cons_eq_if_modifyHead, beq_self_eq_true, if_pos rfl]
  exact ⟨(cs.splitOn '/').map String.ofList, rfl⟩

theorem components_of_isAbsolute {path : String} (h : isAbsolute path) :
    components path = .root :: bodyComponents (segments path) := by
  obtain ⟨rest, hs⟩ := segments_of_isAbsolute h
  have hbody : bodyComponents ("" :: rest) = bodyComponents rest := rfl
  rw [components, hs, hbody]
  simp only [h, if_true]

theorem length_components {path : String} (h : isAbsolute path) :
    (components path).length = (bodyComponents (segments path)).length + 1 := by
  rw [components_of_isAbsolute h, List.length_cons]

theorem components_intercalate {ss : List String} (h : ∀ s ∈ ss, '/' ∉ s.toList)
    (hfirst : ∀ s, ss.head? = some s → isVoid s = false) :
    components ("/".intercalate ss) = bodyComponents ss := by
  cases ss with
  | nil => rfl
  | cons s ss =>
    have hs : isVoid s = false := hfirst s rfl
    simp only [isVoid, Bool.or_eq_false_iff, beq_eq_false_iff_ne] at hs
    have habs : isAbsolute ("/".intercalate (s :: ss)) = false := by
      by_contra habs
      obtain ⟨rest, hrest⟩ := segments_of_isAbsolute (eq_true_of_ne_false habs)
      rw [segments_intercalate (List.cons_ne_nil s ss) h] at hrest
      exact hs.1 (List.cons.inj hrest).1
    rw [components, segments_intercalate (List.cons_ne_nil s ss) h]
    simp [habs, hs.2]

/-! ## Joining -/

theorem segments_join_of_relative {directory path : String} (hd : directory ≠ "")
    (hp : isAbsolute path = false) :
    ∃ ss, (segments directory = ss ∨ segments directory = ss ++ [""]) ∧
      segments (join directory path) = ss ++ segments path := by
  simp only [join, hp, beq_eq_false_iff_ne.mpr hd, Bool.or_self, Bool.false_eq_true, if_false]
  split
  case isTrue hlast =>
    rw [beq_iff_eq, List.getLast?_eq_some_iff] at hlast
    obtain ⟨cs, hcs⟩ := hlast
    have hdir : directory = String.ofList cs ++ "/" := by
      rw [← String.toList_inj, hcs]
      simp [String.toList_append]
    refine ⟨segments (String.ofList cs), .inr ?_, ?_⟩
    · have h := segments_append_slash (String.ofList cs) ""
      rwa [String.append_empty, ← hdir] at h
    · rw [hdir, segments_append_slash]
  case isFalse => exact ⟨segments directory, .inl rfl, segments_append_slash directory path⟩

theorem segments_join {directory name : String} (hd : directory ≠ "") (hn : IsName name) :
    ∃ ss, (segments directory = ss ∨ segments directory = ss ++ [""]) ∧
      segments (join directory name) = ss ++ [name] := by
  have hjoin := segments_join_of_relative hd hn.isAbsolute
  rwa [segments_of_slash_not_mem hn.noSlash] at hjoin

theorem ne_empty_of_isAbsolute {path : String} (h : isAbsolute path) : path ≠ "" := by
  rintro rfl
  exact absurd h (by decide)

theorem isAbsolute_join {directory : String} (hd : isAbsolute directory) (name : String) :
    isAbsolute (join directory name) := by
  rw [join]
  split
  case isTrue h => simpa [ne_empty_of_isAbsolute hd] using h
  case isFalse =>
    simp only [isAbsolute, beq_iff_eq, List.head?_eq_some_iff] at hd ⊢
    obtain ⟨cs, hcs⟩ := hd
    split
    · exact ⟨cs ++ name.toList, by simp [String.toList_append, hcs]⟩
    · exact ⟨cs ++ '/' :: name.toList, by simp [String.toList_append, hcs]⟩

theorem bodyComponents_directory {directory : String} {ss : List String}
    (h : segments directory = ss ∨ segments directory = ss ++ [""]) :
    bodyComponents (segments directory) = bodyComponents ss := by
  rcases h with h | h
  · rw [h]
  · have hvoid : bodyComponents [""] = [] := rfl
    rw [h, bodyComponents_append, hvoid, List.append_nil]

theorem components_join_of_relative {directory path : String} (hd : isAbsolute directory)
    (hp : isAbsolute path = false) :
    components (join directory path) =
      components directory ++ bodyComponents (segments path) := by
  obtain ⟨ss, hss, hjoin⟩ := segments_join_of_relative (ne_empty_of_isAbsolute hd) hp
  rw [components_of_isAbsolute (isAbsolute_join hd path), hjoin, bodyComponents_append,
    components_of_isAbsolute hd, bodyComponents_directory hss, List.cons_append]

theorem components_join {directory name : String} (hd : isAbsolute directory) (hn : IsName name) :
    components (join directory name) = components directory ++ [.normal name] := by
  rw [components_join_of_relative hd hn.isAbsolute, segments_of_slash_not_mem hn.noSlash,
    bodyComponents_name hn]

theorem components_foldl_join {directory : String} {names : List String}
    (hd : isAbsolute directory) (hn : ∀ name ∈ names, IsName name) :
    isAbsolute (names.foldl join directory) ∧
      components (names.foldl join directory) =
        components directory ++ names.map Component.normal := by
  induction names generalizing directory with
  | nil => exact ⟨hd, (List.append_nil _).symm⟩
  | cons name names ih =>
    obtain ⟨habs, hcomp⟩ := ih (isAbsolute_join hd name)
      fun n hm => hn n (List.mem_cons_of_mem name hm)
    refine ⟨habs, ?_⟩
    rw [List.foldl_cons, hcomp, components_join hd (hn name List.mem_cons_self),
      List.append_assoc, List.singleton_append, List.map_cons]

/-! ## Dropping components -/

theorem bodyComponents_dropBody (n : Nat) (ss : List String) :
    bodyComponents (dropBody n ss) = (bodyComponents ss).drop n := by
  induction ss generalizing n with
  | nil => cases n <;> rfl
  | cons s ss ih =>
    cases n with
    | zero => rfl
    | succ n =>
      have hcons : bodyComponents (s :: ss) = bodyComponents [s] ++ bodyComponents ss :=
        bodyComponents_append [s] ss
      rw [dropBody, hcons]
      split
      case isTrue hv =>
        have hnone : bodyComponents [s] = [] := bodyComponents_of_isVoid (by simpa)
        rw [ih, hnone, List.nil_append]
      case isFalse hv =>
        have hone : bodyComponents [s] = [bodyComponent s] := by simp [bodyComponents, hv]
        rw [ih, hone, List.singleton_append, List.drop_succ_cons]

theorem mem_of_mem_dropBody {n : Nat} {ss : List String} {s : String} (h : s ∈ dropBody n ss) :
    s ∈ ss := by
  induction ss generalizing n with
  | nil => cases n <;> exact h
  | cons t ss ih =>
    cases n with
    | zero => exact h
    | succ n =>
      rw [dropBody] at h
      split at h <;> exact List.mem_cons_of_mem t (ih h)

theorem bodyComponents_trimVoidStart (ss : List String) :
    bodyComponents (trimVoidStart ss) = bodyComponents ss := by
  have hvoid : bodyComponents (ss.takeWhile isVoid) = [] :=
    bodyComponents_of_isVoid fun _ => List.mem_takeWhile_imp
  calc bodyComponents (trimVoidStart ss)
      = bodyComponents (ss.takeWhile isVoid) ++ bodyComponents (ss.dropWhile isVoid) := by
        rw [hvoid, List.nil_append, trimVoidStart]
    _ = bodyComponents ss := by
        rw [← bodyComponents_append, List.takeWhile_append_dropWhile]

theorem bodyComponents_trimVoidEnd (ss : List String) :
    bodyComponents (trimVoidEnd ss) = bodyComponents ss := by
  have hrev : ∀ ts, bodyComponents ts.reverse = (bodyComponents ts).reverse := by
    simp [bodyComponents, List.filter_reverse]
  rw [trimVoidEnd, hrev, ← trimVoidStart, bodyComponents_trimVoidStart, hrev, List.reverse_reverse]

theorem isPrefix_trimVoidEnd (ss : List String) : trimVoidEnd ss <+: ss :=
  List.rdropWhile_prefix isVoid ss

theorem isVoid_head_trimVoid {ss : List String} {s : String}
    (h : (trimVoidEnd (trimVoidStart ss)).head? = some s) : isVoid s = false := by
  obtain ⟨ts, hts⟩ := isPrefix_trimVoidEnd (trimVoidStart ss)
  have hhead : (ss.dropWhile isVoid).head? = some s := by
    rw [← trimVoidStart, ← hts, List.head?_append, h, Option.some_or]
  have hnot := List.head?_dropWhile_not isVoid ss
  rwa [hhead] at hnot

theorem components_dropComponents {path : String} (h : isAbsolute path) (n : Nat) :
    components (dropComponents path (n + 1)) = (components path).drop (n + 1) := by
  obtain ⟨rest, hs⟩ := segments_of_isAbsolute h
  have hdrop : dropComponents path (n + 1) =
      "/".intercalate (trimVoidEnd (trimVoidStart (dropBody n rest))) := by
    rw [dropComponents, hs]
    simp [h]
  have hbody : bodyComponents (segments path) = bodyComponents rest := by rw [hs]; rfl
  have hslash : ∀ s ∈ trimVoidEnd (trimVoidStart (dropBody n rest)), '/' ∉ s.toList := by
    intro s hm
    have hrest : s ∈ rest := mem_of_mem_dropBody
      ((List.dropWhile_suffix isVoid).subset ((isPrefix_trimVoidEnd _).subset hm))
    have hseg : s ∈ segments path := hs ▸ List.mem_cons_of_mem "" hrest
    exact slash_not_mem_of_mem_segments hseg
  rw [hdrop, components_intercalate hslash fun _ => isVoid_head_trimVoid,
    bodyComponents_trimVoidEnd, bodyComponents_trimVoidStart, bodyComponents_dropBody,
    components_of_isAbsolute h, hbody, List.drop_succ_cons]

theorem relativeTo_of_strip? {path root rest : String} (h : strip? path root = some rest)
    (hne : rest ≠ "") : relativeTo path root = rest := by
  rw [relativeTo, h]
  split
  case h_1 he => simp at he
  case h_2 he => exact absurd (Option.some.inj he) hne
  case h_3 r he => exact (Option.some.inj he).symm

/-- A path inside a directory, seen from there, has the components that follow those of the
directory. -/
theorem components_relativeTo {path root : String} {rest : List Component}
    (hpath : isAbsolute path) (hroot : isAbsolute root) (hne : rest ≠ [])
    (h : components path = components root ++ rest) :
    components (relativeTo path root) = rest := by
  have hdrop : components (dropComponents path (components root).length) = rest := by
    rw [length_components hroot, components_dropComponents hpath, ← length_components hroot, h,
      List.drop_left]
  have hstrip : strip? path root = some (dropComponents path (components root).length) := by
    rw [strip?, if_pos]
    simp [List.isPrefixOf_iff_prefix, h]
  rw [relativeTo_of_strip? hstrip, hdrop]
  intro hempty
  rw [hempty] at hdrop
  exact hne hdrop.symm

end LayoutLint.Path
