import LayoutLint.Proofs.Path.Relative

/-! # There and back

A path that is seen from a root leads back to where it was. Inside the root it is joined to the
root, and the root itself, seen by its name, is joined to its parent. What is made by joining names
to the root comes back letter by letter.
-/

namespace LayoutLint.Path

variable {path root : String}

/-- The path leads to something below the root. -/
def IsInside (path root : String) : Prop :=
  components root <+: components path ∧ ¬ Same path root

instance (path root : String) : Decidable (IsInside path root) :=
  inferInstanceAs (Decidable (_ ∧ _))

theorem exists_of_isInside (h : IsInside path root) :
    ∃ rest, rest ≠ [] ∧ components path = components root ++ rest := by
  obtain ⟨⟨rest, hrest⟩, hne⟩ := h
  refine ⟨rest, ?_, hrest.symm⟩
  rintro rfl
  exact hne (by rw [Same, ← hrest, List.append_nil])

/-! ## Components that do not start a path -/

theorem ne_of_mem_bodyComponents {ss : List String} {c : Component}
    (h : c ∈ bodyComponents ss) : c ≠ .root ∧ c ≠ .current := by
  obtain ⟨s, -, rfl⟩ := List.mem_map.mp h
  rw [bodyComponent]
  split <;> simp

theorem root_mem_components_iff : .root ∈ components path ↔ isAbsolute path := by
  constructor
  · intro h
    by_contra habs
    have hbody : ∀ ss, .root ∉ bodyComponents ss := fun ss h => (ne_of_mem_bodyComponents h).1 rfl
    rw [components] at h
    split at h
    case h_1 => exact List.not_mem_nil h
    case h_2 first rest hs =>
      simp only [habs, Bool.false_eq_true, if_false] at h
      split at h
      · exact (List.mem_cons.mp h).elim Component.noConfusion (hbody _)
      · exact hbody _ h
  · intro h
    rw [components_of_isAbsolute h]
    exact List.mem_cons_self

theorem bodyComponents_segments_of_components {rest : List Component}
    (h : components path = rest) (hrest : ∀ c ∈ rest, c ≠ .root ∧ c ≠ .current) :
    isAbsolute path = false ∧ bodyComponents (segments path) = rest := by
  subst h
  have habs : isAbsolute path = false := by
    rw [← Bool.not_eq_true, ← root_mem_components_iff]
    exact fun h => (hrest .root h).1 rfl
  refine ⟨habs, ?_⟩
  rw [components] at hrest ⊢
  cases hs : segments path with
  | nil => rfl
  | cons first others =>
    simp only [hs, habs, Bool.false_eq_true, if_false] at hrest ⊢
    split at hrest
    case isTrue => exact absurd rfl (hrest .current List.mem_cons_self).2
    case isFalse hfirst => rw [if_neg hfirst]

theorem eq_empty_of_components (h : components path = []) : path = "" := by
  obtain ⟨habs, hbody⟩ := bodyComponents_segments_of_components h (by simp)
  rw [← String.toList_inj, String.toList_empty]
  cases hcs : path.toList with
  | nil => rfl
  | cons c cs =>
    exfalso
    have hc : c ≠ '/' := by
      rintro rfl
      simp [isAbsolute, hcs] at habs
    obtain ⟨s, ss, hss⟩ := List.exists_cons_of_ne_nil (List.splitOn_ne_nil '/' cs)
    have hs : segments path = String.ofList (c :: s) :: ss.map String.ofList := by
      rw [segments, hcs, List.splitOn_cons_eq_if_modifyHead, if_neg (by simpa using hc), hss]
      rfl
    have hvoid : isVoid (String.ofList (c :: s)) := by
      rw [hs, bodyComponents, List.map_eq_nil_iff, List.filter_eq_nil_iff] at hbody
      simpa using hbody _ List.mem_cons_self
    have hdot : String.ofList (c :: s) = "." := by
      rw [isVoid, Bool.or_eq_true, beq_iff_eq, beq_iff_eq] at hvoid
      refine hvoid.resolve_left fun he => ?_
      have := congrArg String.toList he
      simp at this
    rw [components, hs] at h
    simp [habs, hdot] at h

/-! ## Inside the root -/

theorem ne_of_mem_rest {rest : List Component} (hpath : isAbsolute path) (hroot : isAbsolute root)
    (h : components path = components root ++ rest) : ∀ c ∈ rest, c ≠ .root ∧ c ≠ .current := by
  rw [components_of_isAbsolute hpath, components_of_isAbsolute hroot, List.cons_append] at h
  intro c hc
  have hmem : c ∈ bodyComponents (segments path) :=
    (List.cons.inj h).2 ▸ List.mem_append_right _ hc
  exact ne_of_mem_bodyComponents hmem

theorem join_relativeTo_of_isInside (hpath : isAbsolute path) (hroot : isAbsolute root)
    (h : IsInside path root) :
    relativeTo path root ≠ "" ∧ isAbsolute (relativeTo path root) = false ∧
      Same (join root (relativeTo path root)) path := by
  obtain ⟨rest, hne, hrest⟩ := exists_of_isInside h
  have hcomp := components_relativeTo hpath hroot hne hrest
  obtain ⟨hrel, hbody⟩ :=
    bodyComponents_segments_of_components hcomp (ne_of_mem_rest hpath hroot hrest)
  refine ⟨?_, hrel, ?_⟩
  · intro hempty
    rw [hempty] at hcomp
    exact hne hcomp.symm
  · rw [Same, components_join_of_relative hroot hrel, hbody, hrest]

/-! ## Elsewhere -/

theorem relativeTo_eq_self (h : ¬ components root <+: components path) :
    relativeTo path root = path := by
  rw [relativeTo, strip?, if_neg (by rwa [List.isPrefixOf_iff_prefix])]

/-- Paths other than the root stay different when they are seen from it. -/
theorem same_of_same_relativeTo {path' : String} (hroot : isAbsolute root)
    (hpath : isAbsolute path) (hpath' : isAbsolute path') (hne : ¬ Same path root)
    (hne' : ¬ Same path' root) (h : Same (relativeTo path root) (relativeTo path' root)) :
    Same path path' := by
  have habs : isAbsolute (relativeTo path root) ↔ isAbsolute (relativeTo path' root) := by
    rw [← root_mem_components_iff, ← root_mem_components_iff, h]
  by_cases hpre : components root <+: components path
  · have hrel := (join_relativeTo_of_isInside hpath hroot ⟨hpre, hne⟩).2.1
    by_cases hpre' : components root <+: components path'
    · obtain ⟨rest, hrest, hcomp⟩ := exists_of_isInside ⟨hpre, hne⟩
      obtain ⟨rest', hrest', hcomp'⟩ := exists_of_isInside ⟨hpre', hne'⟩
      rw [Same, components_relativeTo hpath hroot hrest hcomp,
        components_relativeTo hpath' hroot hrest' hcomp'] at h
      rw [Same, hcomp, hcomp', h]
    · rw [hrel, relativeTo_eq_self hpre'] at habs
      exact absurd (habs.mpr hpath') Bool.false_ne_true
  · rw [relativeTo_eq_self hpre] at h habs
    by_cases hpre' : components root <+: components path'
    · rw [(join_relativeTo_of_isInside hpath' hroot ⟨hpre', hne'⟩).2.1] at habs
      exact absurd (habs.mp hpath) Bool.false_ne_true
    · rwa [relativeTo_eq_self hpre'] at h

/-! ## The root itself -/

theorem trimVoidEnd_append {ss voids : List String} {s : String} (hs : isVoid s = false)
    (hvoids : ∀ v ∈ voids, isVoid v) : trimVoidEnd (ss ++ s :: voids) = ss ++ [s] := by
  have hreverse : (ss ++ s :: voids).reverse = voids.reverse ++ s :: ss.reverse := by simp
  rw [trimVoidEnd, hreverse, List.dropWhile_append_of_pos (by simpa using hvoids),
    List.dropWhile_cons_of_neg (by simp [hs])]
  simp

theorem forall_isVoid_or_exists (ss : List String) :
    (∀ s ∈ ss, isVoid s) ∨ ∃ before s voids, ss = before ++ s :: voids ∧ isVoid s = false ∧
      ∀ v ∈ voids, isVoid v := by
  induction ss using List.reverseRecOn with
  | nil => exact .inl (by simp)
  | append_singleton ss s ih =>
    cases hs : isVoid s with
    | false => exact .inr ⟨ss, s, [], rfl, hs, by simp⟩
    | true =>
      rcases ih with hvoid | ⟨before, t, voids, rfl, ht, hvoids⟩
      · exact .inl (by simpa [or_imp, forall_and, hs] using hvoid)
      · refine .inr ⟨before, t, voids ++ [s], by simp, ht, ?_⟩
        simpa [or_imp, forall_and, hs] using hvoids

/-- The last segment that is not void is the name of a path, if it has one. -/
theorem exists_segments_of_fileName? {name : String} (habs : isAbsolute path)
    (h : fileName? path = some name) :
    IsName name ∧ ∃ ss voids, segments path = "" :: (ss ++ name :: voids) ∧
      ∀ v ∈ voids, isVoid v := by
  have hlast : (components path).getLast? = some (.normal name) := by
    rw [fileName?] at h
    split at h
    case h_1 last hlast => rw [hlast, Option.some.inj h]
    case h_2 => simp at h
  obtain ⟨rest, hs⟩ := segments_of_isAbsolute habs
  have hbody : bodyComponents (segments path) = bodyComponents rest := by rw [hs]; rfl
  rw [components_of_isAbsolute habs, hbody] at hlast
  rcases forall_isVoid_or_exists rest with hvoid | ⟨ss, s, voids, rfl, hvoid, hvoids⟩
  · simp [bodyComponents_of_isVoid hvoid] at hlast
  · have hone : bodyComponents (s :: voids) = [bodyComponent s] := by
      have hcons := bodyComponents_append [s] voids
      rw [bodyComponents_of_isVoid hvoids] at hcons
      simpa [bodyComponents, hvoid] using hcons
    have hcomponent : bodyComponent s = .normal name := by
      rw [bodyComponents_append, hone, ← List.cons_append, List.getLast?_concat] at hlast
      exact Option.some.inj hlast
    rw [bodyComponent] at hcomponent
    split at hcomponent
    case isTrue => exact Component.noConfusion hcomponent
    case isFalse hparent =>
      obtain rfl := Component.normal.inj hcomponent
      have hmem : s ∈ segments path := by simp [hs]
      exact ⟨⟨slash_not_mem_of_mem_segments hmem, hvoid, by simpa using hparent⟩,
        ss, voids, hs, hvoids⟩

theorem exists_parent? {ss voids : List String} {s : String} (habs : isAbsolute path)
    (hs : segments path = "" :: (ss ++ s :: voids)) (hvoid : isVoid s = false)
    (hvoids : ∀ v ∈ voids, isVoid v) :
    ∃ parent, parent? path = some parent ∧ isAbsolute parent ∧
      (segments parent = "" :: trimVoidEnd ss ∨
        trimVoidEnd ss = [] ∧ segments parent = ["", ""]) := by
  have hparent : parent? path = if (trimVoidEnd ss).isEmpty then some "/"
      else some ("/".intercalate ("" :: trimVoidEnd ss)) := by
    obtain ⟨t, ts, hts⟩ := List.exists_cons_of_ne_nil (List.concat_ne_nil s ss)
    rw [parent?, hs]
    simp only [habs, Bool.true_or, if_true, trimVoidEnd_append hvoid hvoids, hts, Bool.true_and]
    rw [← hts, List.dropLast_concat]
  rw [hparent]
  cases habove : trimVoidEnd ss with
  | nil => exact ⟨"/", rfl, rfl, .inr ⟨rfl, by decide⟩⟩
  | cons t ts =>
    have hslash : ∀ u ∈ "" :: t :: ts, '/' ∉ u.toList := by
      intro u hu
      have hstart : "" :: t :: ts <+: segments path := by
        rw [hs, ← habove, List.prefix_cons_inj]
        exact (isPrefix_trimVoidEnd ss).trans (List.prefix_append ss _)
      exact slash_not_mem_of_mem_segments (hstart.subset hu)
    refine ⟨"/".intercalate ("" :: t :: ts), rfl, ?_, .inl ?_⟩
    · simp [isAbsolute, String.intercalate_cons_cons]
    · exact segments_intercalate (List.cons_ne_nil _ _) hslash

theorem relativeTo_of_same {name : String} (hpath : isAbsolute path) (hroot : isAbsolute root)
    (hsame : Same path root) (hname : fileName? path = some name) :
    relativeTo path root = name := by
  have hdrop : dropComponents path (components root).length = "" := by
    refine eq_empty_of_components ?_
    rw [length_components hroot, components_dropComponents hpath, ← length_components hroot,
      hsame, List.drop_length]
  have hstrip : strip? path root = some "" := by
    rw [strip?, hsame, if_pos (by simp [List.isPrefixOf_iff_prefix]), hdrop]
  rw [relativeTo, hstrip, hname]
  rfl

theorem fileName?_congr (h : Same path root) : fileName? path = fileName? root := by
  rw [fileName?, fileName?, h]

theorem join_parent {name : String} (hroot : isAbsolute root)
    (hname : fileName? root = some name) :
    ∃ parent, parent? root = some parent ∧ Same (join parent name) root := by
  obtain ⟨hisName, ss, voids, hs, hvoids⟩ := exists_segments_of_fileName? hroot hname
  obtain ⟨parent, hparent, habs, hsegments⟩ := exists_parent? hroot hs hisName.notVoid hvoids
  have hbody : bodyComponents (segments parent) = bodyComponents ss := by
    rcases hsegments with h | ⟨hnil, h⟩
    · rw [h, ← bodyComponents_trimVoidEnd ss]
      rfl
    · rw [h, ← bodyComponents_trimVoidEnd ss, hnil]
      rfl
  have hall : bodyComponents (segments root) = bodyComponents ss ++ [.normal name] := by
    have hsplit : segments root = [""] ++ ss ++ [name] ++ voids := by simp [hs]
    have hfirst : bodyComponents [""] = [] := rfl
    rw [hsplit, bodyComponents_append, bodyComponents_append, bodyComponents_append,
      bodyComponents_of_isVoid hvoids, bodyComponents_name hisName, hfirst, List.append_nil,
      List.nil_append]
  refine ⟨parent, hparent, ?_⟩
  rw [Same, components_join habs hisName, components_of_isAbsolute habs, hbody,
    components_of_isAbsolute hroot, hall, List.cons_append]

/-! ## Names joined to the root -/

theorem isAbsolute_intercalate {names : List String} (hn : ∀ name ∈ names, IsName name) :
    isAbsolute ("/".intercalate names) = false := by
  match names with
  | [] => rfl
  | [name] =>
    exact (hn name List.mem_cons_self).isAbsolute
  | name :: next :: names =>
    rw [String.intercalate_cons_cons, String.append_assoc]
    exact (hn name List.mem_cons_self).isAbsolute_append _

/-- To join relative paths to a directory is to put one text before them. -/
theorem exists_join_eq_append {directory : String} (hd : directory ≠ "") :
    ∃ before, ∀ {path}, isAbsolute path = false → join directory path = before ++ path := by
  by_cases hlast : directory.toList.getLast? = some '/'
  · exact ⟨directory, fun hp => by simp [join, hp, hd, hlast]⟩
  · exact ⟨directory ++ "/", fun hp => by simp [join, hp, hd, hlast]⟩

theorem join_append_name {name : String} (before : String) (hn : IsName name)
    (hp : isAbsolute path = false) :
    join (before ++ name) path = before ++ name ++ "/" ++ path := by
  have hname : name ≠ "" := by
    rintro rfl
    exact absurd hn.notVoid (by decide)
  have hlast : name.toList.getLast? ≠ some '/' := fun h => hn.noSlash (List.mem_of_getLast? h)
  have hlast' : (before ++ name).toList.getLast? ≠ some '/' := by
    rwa [String.toList_append, List.getLast?_append_of_ne_nil _ (by simpa using hname)]
  rw [join, if_neg (by simp [hp, hname]), if_neg (by rwa [beq_iff_eq])]

theorem join_join {directory name : String} (hd : directory ≠ "") (hn : IsName name)
    (hp : isAbsolute path = false) :
    join (join directory name) path = join directory (name ++ "/" ++ path) := by
  obtain ⟨before, hbefore⟩ := exists_join_eq_append hd
  have hboth : isAbsolute (name ++ "/" ++ path) = false := by
    rw [String.append_assoc]
    exact hn.isAbsolute_append _
  rw [hbefore hn.isAbsolute, hbefore hboth, join_append_name before hn hp]
  simp only [String.append_assoc]

theorem foldl_join {names : List String} (hroot : isAbsolute root) (hne : names ≠ [])
    (hn : ∀ name ∈ names, IsName name) :
    names.foldl join root = join root ("/".intercalate names) := by
  induction names generalizing root with
  | nil => exact absurd rfl hne
  | cons name names ih =>
    obtain ⟨hname, hnames⟩ := List.forall_mem_cons.mp hn
    cases names with
    | nil => rfl
    | cons next names =>
      rw [List.foldl_cons, ih (isAbsolute_join hroot name) (List.cons_ne_nil _ _) hnames,
        join_join (ne_empty_of_isAbsolute hroot) hname (isAbsolute_intercalate hnames),
        String.intercalate_cons_cons]

theorem trimVoidStart_dropBody_append (ss rest : List String) :
    trimVoidStart (dropBody (bodyComponents ss).length (ss ++ rest)) = trimVoidStart rest := by
  induction ss with
  | nil => simp [bodyComponents, dropBody]
  | cons s ss ih =>
    cases hs : isVoid s with
    | true =>
      have hbody : bodyComponents (s :: ss) = bodyComponents ss := by simp [bodyComponents, hs]
      rw [hbody, List.cons_append]
      cases hlength : (bodyComponents ss).length with
      | zero =>
        rw [hlength] at ih
        rw [dropBody, ← ih, dropBody, trimVoidStart, List.dropWhile_cons_of_pos hs]
        rfl
      | succ n =>
        rw [hlength] at ih
        rw [dropBody, if_pos hs, ih]
    | false =>
      have hbody : (bodyComponents (s :: ss)).length = (bodyComponents ss).length + 1 := by
        simp [bodyComponents, hs]
      rw [hbody, List.cons_append, dropBody, if_neg (by simp [hs]), ih]

theorem trimVoid_names {names : List String} (hn : ∀ name ∈ names, IsName name) :
    trimVoidEnd (trimVoidStart names) = names := by
  have hstart : trimVoidStart names = names := by
    rw [trimVoidStart, List.dropWhile_eq_self_iff]
    intro hlength
    simp [(hn _ (List.getElem_mem hlength)).notVoid]
  have hend : trimVoidEnd names = names := by
    refine List.rdropWhile_eq_self_iff.mpr fun hne => ?_
    simp [(hn _ (List.getLast_mem hne)).notVoid]
  rw [hstart, hend]

theorem relativeTo_foldl_join {names : List String} (hroot : isAbsolute root) (hne : names ≠ [])
    (hn : ∀ name ∈ names, IsName name) :
    relativeTo (names.foldl join root) root = "/".intercalate names := by
  have hempty : "" ∉ names := fun h => absurd (hn "" h).notVoid (by decide)
  have hnames : segments ("/".intercalate names) = names :=
    segments_intercalate hne fun name h => (hn name h).noSlash
  obtain ⟨habs, hcomponents⟩ := components_foldl_join hroot hn
  rw [foldl_join hroot hne hn] at habs hcomponents ⊢
  obtain ⟨ss, hss, hsegments⟩ :=
    segments_join_of_relative (ne_empty_of_isAbsolute hroot) (isAbsolute_intercalate hn)
  rw [hnames] at hsegments
  obtain ⟨rest, hrest⟩ := segments_of_isAbsolute habs
  obtain ⟨ss', rfl⟩ : ∃ ss', ss = "" :: ss' := by
    rw [hsegments] at hrest
    cases ss with
    | nil =>
      rw [List.nil_append] at hrest
      exact absurd (hrest ▸ List.mem_cons_self) hempty
    | cons s ss => exact ⟨ss, by rw [(List.cons.inj hrest).1]⟩
  have hlength : (components root).length = (bodyComponents ss').length + 1 := by
    rw [length_components hroot, bodyComponents_directory hss]
    rfl
  have hstrip : strip? (join root ("/".intercalate names)) root =
      some ("/".intercalate names) := by
    rw [strip?, if_pos (by simp [List.isPrefixOf_iff_prefix, hcomponents]), hlength,
      dropComponents, hsegments]
    simp only [List.cons_append, habs, Bool.true_or, if_true]
    rw [trimVoidStart_dropBody_append, trimVoid_names hn]
  refine relativeTo_of_strip? hstrip fun htext => ?_
  rw [htext] at hnames
  have hmem : "" ∈ segments "" := by decide
  exact hempty (hnames ▸ hmem)

end LayoutLint.Path
