import ThirdpartyMsvc.CMake.Load
import ThirdpartyMsvc.CMake.Root
import Mathlib.Data.List.Nodup

/-!
# What holds between two requests

A project asks for packages as often as it likes, and sets variables in between.
`Inv` says what holds in every state of such a run: of each package either all
targets are there, each of them once and with the properties that it has below
the root, or none is. Loading a targets file keeps it exactly when the files
exist that the targets files name (`Inv.load`), whether or not the targets were
there before.
-/

namespace CMake

open Store

namespace Package

theorem proper (P : Package) : P.file.Proper := by
  have hplain : (P.file.configurations.all fun C => decide (IsPlain C.fileName) &&
      C.imports.all fun i => decide (i.target ∈ P.file.names) &&
        i.files.all fun f => decide (IsPlain f)) = true := by
    cases P <;> decide +kernel
  have hnames : (P.file.names.all fun t => decide (t ≠ [] ∧ IsPlain t)) = true := by
    cases P <;> decide +kernel
  have helement : ∀ t ∈ P.file.names, IsElement t := by
    intro t ht
    have h := List.all_eq_true.mp hnames t ht
    exact ⟨(of_decide_eq_true h).1, (of_decide_eq_true h).2⟩
  simp only [List.all_eq_true, Bool.and_eq_true, decide_eq_true_eq] at hplain
  constructor
  · cases P <;> decide
  · cases P <;> decide +kernel
  · exact helement
  · cases P <;> decide +kernel
  · exact fun C hC => (hplain C hC).1
  · intro C hC i hi
    have h := (hplain C hC).2 i hi
    exact ⟨h.1, helement _ h.1, h.2⟩

/-- No target belongs to two packages. -/
theorem eq_of_mem {P Q : Package} {t : Text} (hP : t ∈ P.file.names) (hQ : t ∈ Q.file.names) :
    P = Q := by
  have hall : ∀ P Q : Package, P = Q ∨ ∀ t ∈ P.file.names, t ∉ Q.file.names := by
    intro P Q
    cases P <;> cases Q <;> decide +kernel
  exact (hall P Q).resolve_right fun h => h t hP hQ

end Package

/-! ## Variables that somebody relies on -/

/-- The variables that loading the targets relies on. -/
def Guarded (n : Text) : Prop :=
  IsCheck n ∨ n = [] ∨ ∃ P : Package, n = joined P.file.names

/-- The lists of targets begin with one of these characters. -/
theorem head_joined (P : Package) :
    ∃ c ∈ ['s', 'z', 'h', 'T'], ∃ t, joined P.file.names = c :: t := by
  cases P with
  | szip => exact ⟨'s', by decide, _, rfl⟩
  | zlib => exact ⟨'z', by decide, _, rfl⟩
  | hdf5 => exact ⟨'h', by decide, _, rfl⟩
  | oce => exact ⟨'T', by decide, _, rfl⟩

theorem head_of_isCheck {c : Char} {t : Text} (h : IsCheck (c :: t)) : c = '_' := by
  rcases h with h | ⟨u, h⟩
  · exact (List.cons.injEq .. ▸ h :).1
  · exact (List.cons.injEq .. ▸ h :).1

theorem not_isCheck_of_head? {n : Text} {c : Char} (hn : n.head? = some c) (hc : c ≠ '_') :
    ¬ IsCheck n := by
  intro hcheck
  cases n with
  | nil => cases hn
  | cons d t =>
      rw [head_of_isCheck hcheck, List.head?_cons, Option.some.injEq] at hn
      exact hc hn.symm

/-- The variables of the packages begin with other characters. -/
theorem not_guarded_of_head {c : Char} (hc : c ∉ ['_', 's', 'z', 'h', 'T']) (t : Text) :
    ¬ Guarded (c :: t) := by
  rintro (h | h | ⟨P, h⟩)
  · exact hc (by simp [head_of_isCheck h])
  · cases h
  · obtain ⟨d, hd, u, hu⟩ := head_joined P
    rw [hu, List.cons.injEq] at h
    exact hc (List.mem_cons_of_mem _ (h.1 ▸ hd))

theorem joined_not_isCheck (P : Package) : ¬ IsCheck (joined P.file.names) := by
  intro h
  obtain ⟨c, hc, t, ht⟩ := head_joined P
  rw [ht] at h
  rw [head_of_isCheck h] at hc
  revert hc
  decide

theorem joined_notMem_scratch (P : Package) : joined P.file.names ∉ scratch := by
  cases P <;> decide +kernel

theorem nil_not_isCheck : ¬ IsCheck [] := by
  rintro (h | ⟨t, h⟩)
  · cases h
  · cases h

theorem relied_of_guarded {n : Text} (hn : Guarded n) : Relied n := by
  rcases hn with hn | rfl | ⟨P, rfl⟩
  · exact fun h => not_isCheck_scratch n h hn
  · exact nil_notMem_scratch
  · exact joined_notMem_scratch P

/-! ## The invariant -/

/-- Names of targets that the configuration files look for or add. -/
def Reserved (t : Text) : Prop :=
  t = "szip".toList ∨ t = "hdf5".toList ∨ ∃ P : Package, t ∈ P.file.names

/-- In the project `s` the targets of exactly the packages `done` are there, with
the properties that they have below the root `r`. -/
structure Inv (disk : Text → Bool) (r : Root) (policies : List Bool) (done : List Package)
    (s : State) : Prop where
  policies : s.policies = policies
  vars : ∀ n, (n = [] ∨ ∃ P : Package, n = joined P.file.names) → s.vars n = none
  get_check : ∀ n, IsCheck n → s.get n = []
  free : "szip".toList ∉ s.targets ∧ "hdf5".toList ∉ s.targets
  undefined : ∀ P ∉ done, ∀ t ∈ P.file.names, t ∉ s.targets
  defined : ∀ P ∈ done, ∀ t ∈ P.file.names, s.targets.count t = 1
  props : ∀ P ∈ done, ∀ k : Text × Text, k.1 ∈ P.file.names → k.2 ≠ importedConfigurations →
    s.props k = applyAll (P.file.puts r.text) (fun _ => none) k
  files : ∀ P ∈ done, ∀ f ∈ P.file.files r.text, disk f = true

namespace Inv

variable {disk : Text → Bool} {r : Root} {policies : List Bool} {done : List Package} {s s' : State}

theorem quiet (h : Inv disk r policies done s) (hq : Quiet Guarded s s') :
    Inv disk r policies done s' where
  policies := hq.policies.trans h.policies
  vars n hn := (hq.vars n (Or.inr hn)).trans (h.vars n hn)
  get_check n hn := by
    rw [State.get, hq.vars n (Or.inl hn)]
    exact h.get_check n hn
  free := by
    rw [hq.targets]
    exact h.free
  undefined := by
    rw [hq.targets]
    exact h.undefined
  defined := by
    rw [hq.targets]
    exact h.defined
  props := by
    rw [hq.props]
    exact h.props
  files := h.files

theorem loadable (h : Inv disk r policies done s) {P : Package} (hP : P ∉ done) :
    P.file.Loadable s where
  proper := P.proper
  notMem_scratch := joined_notMem_scratch P
  unshadowed := ⟨h.vars _ (Or.inl rfl), h.vars _ (Or.inr ⟨P, rfl⟩)⟩
  undefined := h.undefined P hP
  get_check := h.get_check

/-- Loading the targets of a package that is not there yet. -/
theorem loaded (h : Inv disk r policies done s) {P : Package} (hP : P ∉ done)
    (hfiles : ∀ f ∈ P.file.files r.text, disk f = true) (hl : P.file.Loaded r.text s s') :
    Inv disk r policies (P :: done) s' := by
  have hother : ∀ t, t ∉ P.file.names → s'.targets.count t = s.targets.count t := by
    intro t ht
    rw [hl.targets, List.count_append, List.count_eq_zero.mpr ht, Nat.add_zero]
  constructor
  · exact hl.policies.trans h.policies
  · intro n hn
    rw [hl.vars n, h.vars n hn]
    · rcases hn with rfl | ⟨Q, rfl⟩
      · exact nil_notMem_scratch
      · exact joined_notMem_scratch Q
    · rcases hn with rfl | ⟨Q, rfl⟩
      · exact nil_not_isCheck
      · exact joined_not_isCheck Q
  · exact hl.get_check
  · rw [hl.targets]
    have hnames : "szip".toList ∉ P.file.names ∧ "hdf5".toList ∉ P.file.names := by
      cases P <;> decide +kernel
    simp only [List.mem_append, not_or]
    exact ⟨⟨h.free.1, hnames.1⟩, h.free.2, hnames.2⟩
  · intro Q hQ t ht
    rw [List.mem_cons, not_or] at hQ
    rw [hl.targets, List.mem_append, not_or]
    exact ⟨h.undefined Q hQ.2 t ht, fun hmem => hQ.1 (Package.eq_of_mem ht hmem)⟩
  · intro Q hQ t ht
    by_cases hPQ : t ∈ P.file.names
    · rw [hl.targets, List.count_append, List.count_eq_zero.mpr (h.undefined P hP t hPQ),
        List.count_eq_one_of_mem P.proper.names_nodup hPQ]
    · rw [hother t hPQ]
      refine h.defined Q ((List.mem_cons.mp hQ).resolve_left ?_) t ht
      rintro rfl
      exact hPQ ht
  · intro Q hQ k hk hconf
    by_cases hPQ : k.1 ∈ P.file.names
    · obtain rfl := Package.eq_of_mem hk hPQ
      exact hl.props_new k hk hconf
    · rw [hl.props_old k hPQ]
      refine h.props Q ((List.mem_cons.mp hQ).resolve_left ?_) k hk hconf
      rintro rfl
      exact hPQ hk
  · intro Q hQ
    rcases List.mem_cons.mp hQ with rfl | hQ
    · exact hfiles
    · exact h.files Q hQ

theorem cons_of_mem (h : Inv disk r policies done s) {P : Package} (hP : P ∈ done) :
    Inv disk r policies (P :: done) s where
  policies := h.policies
  vars := h.vars
  get_check := h.get_check
  free := h.free
  undefined Q hQ := h.undefined Q fun hmem => hQ (List.mem_cons_of_mem _ hmem)
  defined Q hQ := h.defined Q ((List.mem_cons.mp hQ).elim (fun h => h ▸ hP) id)
  props Q hQ := h.props Q ((List.mem_cons.mp hQ).elim (fun h => h ▸ hP) id)
  files Q hQ := h.files Q ((List.mem_cons.mp hQ).elim (fun h => h ▸ hP) id)

/-- Loading the targets of a package. -/
theorem load (h : Inv disk r policies done s) (P : Package) {file : Text}
    (hfile : r.Finds P.file file) : Yields (P.file.load disk file s)
      (∀ f ∈ P.file.files r.text, disk f = true) (Inv disk r policies (P :: done)) := by
  by_cases hP : P ∈ done
  · have hdefined : ∀ t ∈ P.file.names, t ∈ s.targets := by
      intro t ht
      rw [← List.count_pos_iff, h.defined P hP t ht]
      exact Nat.one_pos
    obtain ⟨s', hs', hq⟩ := TargetsFile.load_of_defined disk file P.proper hdefined
    have hinv := (h.quiet (hq.mono fun n hn => relied_of_guarded hn)).cons_of_mem hP
    exact ⟨fun _ => ⟨s', hs', hinv⟩, fun hmissing => absurd (h.files P hP) hmissing⟩
  · have hpre : IsElement (P.file.prefixOf file) := hfile.prefixOf ▸ r.isElement_text
    constructor
    · intro hfiles
      obtain ⟨s', hs', hl⟩ := TargetsFile.load_of_exists disk file (h.loadable hP) hpre
        hfile.element (by rwa [hfile.prefixOf])
      exact ⟨s', hs', h.loaded hP hfiles (hfile.prefixOf ▸ hl)⟩
    · intro hmissing
      simp only [not_forall, Bool.not_eq_true] at hmissing
      obtain ⟨f, hf, hdisk⟩ := hmissing
      exact TargetsFile.load_of_missing disk file (h.loadable hP) hpre hfile.element
        (by rwa [hfile.prefixOf]) hdisk

/-- The same behind the test for a target that belongs to the package. -/
theorem loadUnless (h : Inv disk r policies done s) {P : Package} {target file : Text}
    (htarget : target ∈ P.file.names ∨ target ∉ s.targets) (hfile : r.Finds P.file file) :
    Yields (P.file.loadUnless disk target file s)
      (∀ f ∈ P.file.files r.text, disk f = true) (Inv disk r policies (P :: done)) := by
  rw [TargetsFile.loadUnless]
  split
  next hmem =>
    have hP : P ∈ done := by
      by_contra hP
      exact htarget.elim (fun ht => h.undefined P hP target ht hmem) fun ht => ht hmem
    exact (Yields.of_ok (h.cons_of_mem hP)).congr ⟨fun _ => h.files P hP, fun _ => trivial⟩
  next => exact h.load P hfile

end Inv

end CMake
