import LayoutLint.Proofs.Separator.Bucket
import LayoutLint.Proofs.Separator.Unrepeated
import Mathlib.Data.List.Induction

/-! # Mixed functions

A bucket of functions is checked for three mixtures: of visibilities, of tests with other code, and
of receivers. Each check has its own way of going through the functions, and its own choice of those
that it reports.
-/

namespace LayoutLint.Separator

/-- The functions are like the first of them up to another one that differs from it. -/
def Turns (r : FuncDecl → Bool) (fs : List FuncDecl) (first other : FuncDecl)
    (rest : List FuncDecl) : Prop :=
  ∃ alike, fs = first :: (alike ++ other :: rest) ∧ (∀ f ∈ alike, r f = r first) ∧
    r other ≠ r first

def distinctReceivers (fs : List FuncDecl) : List (Option String) :=
  (fs.map FuncDecl.receiver).eraseDups

section

variable (testPrefixes : List String) (fs : List FuncDecl)

section Turns

variable {fs} {r : FuncDecl → Bool} {first other : FuncDecl} {rest : List FuncDecl}

theorem turns_of_find? (h : fs.find? (fun f => r f != r first) = some other) :
    ∃ rest, Turns r (first :: fs) first other rest := by
  obtain ⟨hother, alike, rest, rfl, halike⟩ := List.find?_eq_some_iff_append.mp h
  refine ⟨rest, alike, rfl, fun f hf => ?_, by simpa using hother⟩
  simpa using halike f hf

theorem turns_of_dropWhile (h : fs.dropWhile (fun f => r f == r first) = other :: rest) :
    Turns r (first :: fs) first other rest := by
  refine ⟨fs.takeWhile fun f => r f == r first, ?_, fun f hf => ?_, ?_⟩
  · rw [← h, List.takeWhile_append_dropWhile]
  · simpa using List.mem_takeWhile_imp hf
  · have hother := List.head?_dropWhile_not (fun f => r f == r first) fs
    rw [h] at hother
    simpa using hother

end Turns

/-! ## Visibility -/

theorem visibilityFindings_cases :
    (AgreeIn (fun f => (Traits.of testPrefixes f).exported) fs ∧
        visibilityFindings testPrefixes fs = []) ∨
      ∃ first other rest, Turns (fun f => (Traits.of testPrefixes f).exported) fs first other rest ∧
        visibilityFindings testPrefixes fs = (other :: rest).map (blame mixedVisibility) := by
  by_cases h : visibilityFindings testPrefixes fs = []
  · exact .inl ⟨visibilityFindings_eq_nil_iff.mp h, h⟩
  · right
    cases fs with
    | nil => exact absurd rfl h
    | cons first fs =>
      have hcut : visibilityFindings testPrefixes (first :: fs) =
          (fs.dropWhile fun f => (Traits.of testPrefixes f).exported ==
            (Traits.of testPrefixes first).exported).map (blame mixedVisibility) := by
        rw [visibilityFindings]
        dsimp only
        rw [List.dropWhile_cons, if_pos (beq_self_eq_true _)]
        rfl
      cases hrest : fs.dropWhile fun f =>
          (Traits.of testPrefixes f).exported == (Traits.of testPrefixes first).exported with
      | nil => exact absurd (hcut.trans (by rw [hrest, List.map_nil])) h
      | cons other rest =>
        rw [hrest] at hcut
        exact ⟨first, other, rest,
          turns_of_dropWhile (r := fun f => (Traits.of testPrefixes f).exported) hrest, hcut⟩

/-! ## Tests -/

theorem testingFindings_cases :
    (AgreeIn (fun f => (Traits.of testPrefixes f).testing) fs ∧
        testingFindings testPrefixes fs = []) ∨
      ∃ first other rest, Turns (fun f => (Traits.of testPrefixes f).testing) fs first other rest ∧
        testingFindings testPrefixes fs =
          [blame mixedTesting first, blame mixedTesting other] := by
  by_cases h : testingFindings testPrefixes fs = []
  · exact .inl ⟨testingFindings_eq_nil_iff.mp h, h⟩
  · right
    cases fs with
    | nil => exact absurd rfl h
    | cons first fs =>
      rw [testingFindings_cons] at h ⊢
      cases hfind : fs.find? fun f => (Traits.of testPrefixes f).testing !=
          (Traits.of testPrefixes first).testing with
      | none => simp [hfind] at h
      | some other =>
        obtain ⟨rest, hturns⟩ := turns_of_find? (r := fun f => (Traits.of testPrefixes f).testing)
          hfind
        exact ⟨first, other, rest, hturns, rfl⟩

/-! ## Receivers -/

section Distinct

variable {α β : Type} [BEq α] [LawfulBEq α] [BEq β] [LawfulBEq β]

theorem eraseDups_concat (xs : List α) (x : α) :
    (xs ++ [x]).eraseDups = if xs.contains x then xs.eraseDups else xs.eraseDups ++ [x] := by
  by_cases h : x ∈ xs
  · simp [List.eraseDups_append, List.removeAll, h]
  · simp [List.eraseDups_append, List.removeAll, List.eraseDups_cons, h]

theorem appearances_eq_eraseDups (xs : List α) : appearances [] xs = xs.eraseDups := by
  induction xs using List.reverseRecOn with
  | nil => rfl
  | append_singleton xs x ih =>
    have hstep : appearances [] (xs ++ [x]) =
        if (appearances [] xs).contains x then appearances [] xs
        else appearances [] xs ++ [x] := by
      rw [appearances, List.foldl_append]
      rfl
    have hcontains : xs.eraseDups.contains x = xs.contains x := by
      rw [Bool.eq_iff_iff, List.contains_iff_mem, List.contains_iff_mem, List.mem_eraseDups]
    rw [hstep, ih, hcontains, eraseDups_concat]

theorem eraseDups_map {f : α → β} {xs : List α}
    (hf : ∀ x ∈ xs, ∀ y ∈ xs, f x = f y → x = y) : (xs.map f).eraseDups = xs.eraseDups.map f := by
  induction xs using List.reverseRecOn with
  | nil => rfl
  | append_singleton xs x ih =>
    have hcontains : (xs.map f).contains (f x) = xs.contains x := by
      rw [Bool.eq_iff_iff, List.contains_iff_mem, List.contains_iff_mem, List.mem_map]
      constructor
      · rintro ⟨y, hy, hfy⟩
        exact hf y (by simp [hy]) x (by simp) hfy ▸ hy
      · exact fun hx => ⟨x, hx, rfl⟩
    rw [List.map_append, List.map_singleton, eraseDups_concat, eraseDups_concat, hcontains,
      ih fun y hy z hz => hf y (List.mem_append_left _ hy) z (List.mem_append_left _ hz)]
    split
    · rfl
    · rw [List.map_append, List.map_singleton]

end Distinct

variable {testPrefixes fs}

theorem receiverLabels_eq (hr : ∀ f ∈ fs, f.receiver ≠ some "<none>") :
    receiverLabels testPrefixes fs = (distinctReceivers fs).map (·.getD "<none>") := by
  rw [receiverLabels, ← appearances, appearances_eq_eraseDups, distinctReceivers, ← eraseDups_map]
  · rw [List.map_map]
    rfl
  · simp only [List.forall_mem_map]
    have htraits : ∀ f ∈ fs, (Traits.of testPrefixes f).receiver ≠ some "<none>" := hr
    intro f hf g hg
    exact (label_injective (htraits f hf) (htraits g hg)).mp

theorem receiverFindings_cases (hr : ∀ f ∈ fs, f.receiver ≠ some "<none>") :
    (AgreeIn FuncDecl.receiver fs ∧ receiverFindings testPrefixes fs = []) ∨
      (¬ AgreeIn FuncDecl.receiver fs ∧ receiverFindings testPrefixes fs =
        fs.map (blame (mixedReceivers ((distinctReceivers fs).map (·.getD "<none>"))))) := by
  by_cases h : receiverFindings testPrefixes fs = []
  · exact .inl ⟨(receiverFindings_eq_nil_iff hr).mp h, h⟩
  · refine .inr ⟨mt (receiverFindings_eq_nil_iff hr).mpr h, ?_⟩
    rw [receiverFindings, receiverLabels_eq hr] at h ⊢
    split
    case isTrue hlt => exact absurd (if_pos hlt) h
    case isFalse => rfl

/-! ## Kinds of messages -/

/-- What the functions of a bucket may be mixed in. -/
inductive Mixture where
  | visibility
  | testing
  | receivers
  deriving DecidableEq, Repr

namespace Mixture

def About (message : String) : Mixture → Prop
  | visibility => message = mixedVisibility
  | testing => message = mixedTesting
  | receivers => ∃ labels, message = mixedReceivers labels

def opening : Mixture → String
  | visibility => mixedVisibility
  | testing => mixedTesting
  | receivers => receiversOpening

def findings (testPrefixes : List String) (fs : List FuncDecl) : Mixture → List Finding
  | visibility => visibilityFindings testPrefixes fs
  | testing => testingFindings testPrefixes fs
  | receivers => receiverFindings testPrefixes fs

/-- A bucket of these functions has a finding about the mixture. -/
def Reported (m : Mixture) (testPrefixes : List String) (fs : List FuncDecl) : Prop :=
  ∃ x ∈ bucketFindings testPrefixes (fs.map .func), m.About x.message

theorem opens_of_about {m : Mixture} {message : String} (h : m.About message) :
    Opens m.opening message := by
  cases m with
  | visibility =>
    rw [h]
    exact .refl _
  | testing =>
    rw [h]
    exact .refl _
  | receivers =>
    obtain ⟨labels, rfl⟩ := h
    exact opens_append receiversOpening _

theorem eq_of_about {m m' : Mixture} {message : String} (h : m.About message)
    (h' : m'.About message) : m = m' := by
  have hcases : m = m' ∨ Diverge m.opening m'.opening := by
    cases m <;> cases m' <;> decide +kernel
  refine hcases.resolve_right fun hdiverge => ?_
  exact hdiverge.excludes (opens_of_about h) (opens_of_about h')

theorem about_of_mem_findings {m : Mixture} {x : Finding}
    (hx : x ∈ m.findings testPrefixes fs) : m.About x.message := by
  cases m with
  | visibility =>
    rcases visibilityFindings_cases testPrefixes fs with
      ⟨-, h⟩ | ⟨first, other, rest, -, h⟩
    · rw [findings, h] at hx
      cases hx
    · rw [findings, h] at hx
      obtain ⟨f, -, rfl⟩ := List.mem_map.mp hx
      rfl
  | testing =>
    rcases testingFindings_cases testPrefixes fs with
      ⟨-, h⟩ | ⟨first, other, rest, -, h⟩
    · rw [findings, h] at hx
      cases hx
    · rw [findings, h, List.mem_cons, List.mem_singleton] at hx
      rcases hx with rfl | rfl <;> rfl
  | receivers =>
    rw [findings, receiverFindings] at hx
    split at hx
    case isTrue => cases hx
    case isFalse =>
      obtain ⟨f, -, rfl⟩ := List.mem_map.mp hx
      exact ⟨_, rfl⟩

end Mixture

/-! ## Buckets of functions -/

theorem bucketFindings_functions (testPrefixes : List String) (fs : List FuncDecl) :
    bucketFindings testPrefixes (fs.map .func) = functionFindings testPrefixes fs := by
  cases fs with
  | nil => rfl
  | cons first fs =>
    have hall : ∀ d ∈ (first :: fs).map Decl.func, classify d = .ofKind .func := by
      rw [List.forall_mem_map]
      exact fun _ _ => rfl
    have hclass : ((first :: fs).map Decl.func).filterMap classFinding? = [] := by
      rw [List.filterMap_eq_nil_iff]
      intro d hd
      rw [classFinding?, hall d hd]
    have hfs : ((first :: fs).map Decl.func).filterMap Decl.func? = first :: fs := by
      rw [List.filterMap_map]
      exact List.filterMap_some
    rw [bucketFindings, hclass, List.nil_append, kindFindings_functions (by simp) hall, hfs]

theorem mem_functionFindings_iff {x : Finding} :
    x ∈ functionFindings testPrefixes fs ↔ ∃ m : Mixture, x ∈ m.findings testPrefixes fs := by
  rw [functionFindings, List.mem_append, List.mem_append]
  constructor
  · rintro ((hx | hx) | hx)
    · exact ⟨.visibility, hx⟩
    · exact ⟨.testing, hx⟩
    · exact ⟨.receivers, hx⟩
  · rintro ⟨m, hx⟩
    cases m with
    | visibility => exact .inl (.inl hx)
    | testing => exact .inl (.inr hx)
    | receivers => exact .inr hx

theorem Mixture.reported_iff {m : Mixture} :
    m.Reported testPrefixes fs ↔ m.findings testPrefixes fs ≠ [] := by
  unfold Mixture.Reported
  simp only [bucketFindings_functions, mem_functionFindings_iff]
  constructor
  · rintro ⟨x, ⟨m', hx⟩, habout⟩
    obtain rfl := Mixture.eq_of_about habout (Mixture.about_of_mem_findings hx)
    exact List.ne_nil_of_mem hx
  · intro hne
    obtain ⟨x, hx⟩ := List.exists_mem_of_ne_nil _ hne
    exact ⟨x, ⟨m, hx⟩, Mixture.about_of_mem_findings hx⟩

theorem AgreeIn.mono {β : Type} {r : FuncDecl → β} {fs' : List FuncDecl} (h : AgreeIn r fs')
    (hsub : fs ⊆ fs') : AgreeIn r fs := fun f hf g hg => h f (hsub hf) g (hsub hg)

theorem Mixture.Reported.mono {m : Mixture} {fs' : List FuncDecl}
    (h : m.Reported testPrefixes fs) (hsub : fs ⊆ fs') : m.Reported testPrefixes fs' := by
  rw [Mixture.reported_iff] at h ⊢
  refine mt (fun hnil => ?_) h
  cases m with
  | visibility =>
    exact visibilityFindings_eq_nil_iff.mpr ((visibilityFindings_eq_nil_iff.mp hnil).mono hsub)
  | testing =>
    exact testingFindings_eq_nil_iff.mpr ((testingFindings_eq_nil_iff.mp hnil).mono hsub)
  | receivers =>
    exact receiverFindings_eq_nil_iff_label.mpr
      ((receiverFindings_eq_nil_iff_label.mp hnil).mono hsub)

end

/-- A bucket of functions is reported for what its functions are mixed in: from the first function
on that differs in visibility, at the first function and the first that differs from it in being a
test, and at every function for several receivers, with the receivers in order of appearance. More
functions never take a kind of message away. -/
theorem functionFindings_mixtures (testPrefixes : List String) (fs : List FuncDecl)
    (hr : ∀ f ∈ fs, f.receiver ≠ some "<none>") :
    bucketFindings testPrefixes (fs.map .func) = functionFindings testPrefixes fs ∧
    (∃ visibility testing receivers,
      functionFindings testPrefixes fs = visibility ++ testing ++ receivers ∧
      ((AgreeIn (fun f => (Traits.of testPrefixes f).exported) fs ∧ visibility = []) ∨
        ∃ first other rest,
          Turns (fun f => (Traits.of testPrefixes f).exported) fs first other rest ∧
          visibility = (other :: rest).map (blame mixedVisibility)) ∧
      ((AgreeIn (fun f => (Traits.of testPrefixes f).testing) fs ∧ testing = []) ∨
        ∃ first other rest,
          Turns (fun f => (Traits.of testPrefixes f).testing) fs first other rest ∧
          testing = [blame mixedTesting first, blame mixedTesting other]) ∧
      ((AgreeIn FuncDecl.receiver fs ∧ receivers = []) ∨
        (¬ AgreeIn FuncDecl.receiver fs ∧ receivers =
          fs.map (blame (mixedReceivers ((distinctReceivers fs).map (·.getD "<none>"))))))) ∧
    ∀ fs', fs.Sublist fs' → ∀ m : Mixture, m.Reported testPrefixes fs →
      m.Reported testPrefixes fs' := by
  refine ⟨bucketFindings_functions testPrefixes fs, ⟨_, _, _, rfl,
    visibilityFindings_cases testPrefixes fs, testingFindings_cases testPrefixes fs,
    receiverFindings_cases hr⟩, ?_⟩
  intro fs' hsub m hm
  exact hm.mono hsub.subset

theorem functionFindings_mixtures_varied :
    let run : FuncDecl := ⟨⟨0, 20⟩, "Run", none, ⟨8, 10⟩, [], none⟩
    let test : FuncDecl := ⟨⟨30, 60⟩, "TestRun", none, ⟨42, 54⟩, [], none⟩
    let stop : FuncDecl := ⟨⟨70, 90⟩, "stop", some "Server", ⟨88, 90⟩, [], none⟩
    (∀ f ∈ [run, test, stop], f.receiver ≠ some "<none>") ∧
      ∀ fs', [run, test, stop].Sublist fs' → ∀ m : Mixture, m.Reported ["Test"] fs' := by
  intro run test stop
  have hr : ∀ f ∈ [run, test, stop], f.receiver ≠ some "<none>" := by decide
  have hmixed : ∀ m : Mixture, m.Reported ["Test"] [run, test, stop] := by
    intro m
    rw [Mixture.reported_iff]
    cases m <;> decide
  obtain ⟨-, -, hmore⟩ := functionFindings_mixtures ["Test"] [run, test, stop] hr
  exact ⟨hr, fun fs' hsub m => hmore fs' hsub m (hmixed m)⟩

end LayoutLint.Separator
