import ThirdpartyMsvc.CMake.Hdf5Components
import ThirdpartyMsvc.CMake.Invariant

/-!
# The configuration files keep the invariant

Apart from the targets files that it loads, a configuration file sets variables
that nobody relies on: those of its package, and a few with names of their own.
So `Inv.config` needs from it only the order of its loads and its own tests.
-/

namespace CMake

open Store

/-! ## Quiet scripts -/

/-- The name of a variable that nobody relies on, by its first character. -/
def isFree (name : Text) : Bool := name.head?.any fun c => !(['_', 's', 'z', 'h', 'T'].elem c)

theorem not_guarded_of_isFree {name : Text} (hname : isFree name = true) : ¬ Guarded name := by
  cases name with
  | nil => cases hname
  | cons c t =>
      refine not_guarded_of_head (fun hc => ?_) t
      rw [isFree, List.head?_cons, Option.any_some, List.elem_eq_true_of_mem hc] at hname
      cases hname

theorem quiet_set_of_isFree {name : Text} (hname : isFree name = true) (value : Text) (s : State) :
    Quiet Guarded s (s.set name value) := .set (not_guarded_of_isFree hname) value s

theorem quiet_setAll (settings : List (Text × Text))
    (h : ((settings.map Prod.fst).all isFree) = true) (s : State) :
    Quiet Guarded s (setAll settings s) :=
  Quiet.setAll (fun _ => not_guarded_of_isFree) settings h s

/-- A variable of a package is free when the name of the package is. -/
theorem isFree_append {package : Text} (hpackage : isFree package = true) (name : Text) :
    isFree (package ++ name) = true := by
  cases package with
  | nil => cases hpackage
  | cons c t => exact hpackage

theorem quiet_checkRequiredComponents {package : Text} (hpackage : isFree package = true)
    (s : State) : Quiet Guarded s (checkRequiredComponents package s) := by
  refine Quiet.foldl (fun component _ s => ?_) s
  rw [checkComponent]
  split
  · exact quiet_set_of_isFree (isFree_append hpackage _) _ s
  · exact .refl s

theorem quiet_addLibraries {library : Text} (hlibrary : isFree library = true)
    (targets : List Text) (s : State) : Quiet Guarded s (addLibraries library targets s) :=
  (quiet_set_of_isFree (by decide) _ s).trans (quiet_set_of_isFree hlibrary _ _)

theorem quiet_szipComponent (s : State) (component : Text) :
    Quiet Guarded s (szipComponent s component) := by
  have hfound : isFree (componentFound szip component) = true := isFree_append (by decide) _
  have hhave : isFree "HAVE_COMP".toList = true := by decide
  have hlibrary : isFree ((ofPackage szip (component ++ "_LIBRARY".toList)).map Char.toUpper) =
      true := rfl
  rw [szipComponent]
  split
  · exact (quiet_set_of_isFree hhave _ s).trans (quiet_set_of_isFree hfound _ _)
  · exact ((quiet_set_of_isFree hhave _ s).trans (quiet_set_of_isFree hfound _ _)).trans
      (quiet_addLibraries hlibrary _ _)

theorem not_guarded_hdf5Comp : ¬ Guarded hdf5Comp ∧ ¬ Guarded hdf5Comp2 := by
  have hne : ∀ P : Package, hdf5Comp ≠ joined P.file.names ∧ hdf5Comp2 ≠ joined P.file.names := by
    intro P
    cases P <;> decide +kernel
  constructor
  · rintro (h | h | ⟨P, h⟩)
    · exact absurd (head_of_isCheck h) (by decide)
    · cases h
    · exact (hne P).1 h
  · rintro (h | h | ⟨P, h⟩)
    · exact absurd (head_of_isCheck h) (by decide)
    · cases h
    · exact (hne P).2 h

theorem notNoted_guarded : NotNoted Guarded where
  libType := not_guarded_of_isFree (by decide)
  components := not_guarded_of_isFree (by decide)
  required := not_guarded_of_isFree (by decide)
  comp := not_guarded_hdf5Comp.1
  comp2 := not_guarded_hdf5Comp.2
  haveComp := not_guarded_of_isFree (by decide)
  haveComp2 := not_guarded_of_isFree (by decide)
  compLibrary := not_guarded_of_isFree (by decide)
  found _ _ := not_guarded_of_isFree (isFree_append (isFree_append (by decide) _) _)
  library _ := not_guarded_of_isFree rfl

theorem quiet_hdf5Components (s : State) : Quiet Guarded s (hdf5Components s) := by
  obtain ⟨s', hquiet, heq⟩ := notNoted_guarded.hdf5Components s
  rw [heq]
  exact hquiet.trans
    (.foldl (fun kind _ s => quiet_checkRequiredComponents (isFree_append (by decide) _) s) _)

section configs

variable {disk : Text → Bool} {r : Root} {policies : List Bool} {done : List Package} {s : State}

theorem Inv.setAndCheck (h : Inv disk r policies done s) {name : Text} (hname : isFree name = true)
    (file : Text) :
    Yields (CMake.setAndCheck disk name file s) (disk file = true) (Inv disk r policies done) := by
  rw [CMake.setAndCheck]
  split
  next hfile =>
    exact (Yields.of_ok (h.quiet (quiet_set_of_isFree hname _ s))).congr
      (iff_of_true trivial hfile)
  next hfile => exact ⟨fun hp => absurd hp hfile, fun _ => ⟨_, rfl⟩⟩

/-- szip-config.cmake. -/
theorem Inv.szipConfig (h : Inv disk r policies done s) :
    Yields (CMake.szipConfig disk (r.text ++ "/cmake".toList) s)
      (disk r.text = true ∧ ∀ f ∈ szipTargets.files r.text, disk f = true)
      (Inv disk r policies (.szip :: done)) := by
  rw [CMake.szipConfig]
  simp only [r.absolute_cmake]
  refine ((h.quiet (quiet_setAll _ rfl s)).setAndCheck (by decide) r.text).bind fun s₁ h₁ => ?_
  have h₂ := h₁.quiet (quiet_setAll
    [(ofPackage szip "VERSION_STRING".toList, "2.1".toList),
      (ofPackage szip "VERSION_MAJOR".toList, "2.1".toList),
      (ofPackage szip "VERSION_MINOR".toList, "1".toList)] rfl s₁)
  refine Yields.map (h₂.loadUnless (P := .szip) (Or.inr h₂.free.1)
    (r.finds_cmake rfl (by decide))) fun s₃ h₃ => h₃.quiet ?_
  have hcomponents : isFree (findComponents szip) = true := by decide
  have hdefault : Quiet Guarded s₃ (if isOff (s₃.get (findComponents szip)) then
      (s₃.set (findComponents szip) "static".toList).set (findRequired szip "static".toList)
        "true".toList else s₃) := by
    split
    · exact (quiet_set_of_isFree hcomponents _ _).trans (quiet_set_of_isFree (by decide) _ _)
    · exact .refl s₃
  exact ((hdefault.trans (quiet_set_of_isFree hcomponents _ _)).trans
    (.foldl (fun c _ s => quiet_szipComponent s c) _)).trans
      (quiet_checkRequiredComponents (by decide) _)

/-- zlib-config.cmake. -/
theorem Inv.zlibConfig (h : Inv disk r policies done s) :
    Yields (CMake.zlibConfig disk (r.text ++ "/cmake".toList) s)
      (disk r.text = true ∧ ∀ f ∈ zlibTargets.files r.text, disk f = true)
      (Inv disk r policies (.zlib :: done)) := by
  rw [CMake.zlibConfig]
  simp only [r.absolute_cmake]
  refine ((h.quiet (quiet_setAll _ rfl s)).setAndCheck (by decide) r.text).bind fun s₁ h₁ => ?_
  have h₂ := h₁.quiet (quiet_setAll
    [(ofPackage zlib "VERSION_STRING".toList, "1.2".toList),
      (ofPackage zlib "VERSION_MAJOR".toList, "1.2".toList),
      (ofPackage zlib "VERSION_MINOR".toList, "8".toList)] rfl s₁)
  refine Yields.map (h₂.loadUnless (P := .zlib) (Or.inl (by decide))
    (r.finds_cmake rfl (by decide))) fun s₃ h₃ => h₃.quiet ?_
  exact (quiet_checkRequiredComponents (by decide) _).trans (quiet_set_of_isFree (by decide) _ _)

/-- The targets files that hdf5-config.cmake loads. -/
theorem Inv.hdf5Loads (h : Inv disk r policies done s) :
    Yields (CMake.hdf5Loads disk r.text s)
      ((∀ f ∈ zlibTargets.files r.text, disk f = true) ∧
        (∀ f ∈ szipTargets.files r.text, disk f = true) ∧
        ∀ f ∈ hdf5Targets.files r.text, disk f = true)
      (Inv disk r policies (.hdf5 :: .szip :: .zlib :: done)) := by
  rw [CMake.hdf5Loads, if_neg h.free.2]
  refine (h.loadUnless (P := .zlib) (Or.inl (by decide)) (r.finds_cmake rfl (by decide))).bind
    fun s₁ h₁ => ?_
  refine (h₁.loadUnless (P := .szip) (Or.inr h₁.free.1) (r.finds_cmake rfl (by decide))).bind
    fun s₂ h₂ => ?_
  exact h₂.load .hdf5 r.finds_hdf5

/-- hdf5-config.cmake. -/
theorem Inv.hdf5Config (h : Inv disk r policies done s) :
    Yields (CMake.hdf5Config disk (r.text ++ "/cmake/hdf5".toList) s)
      (disk r.text = true ∧ (∀ f ∈ zlibTargets.files r.text, disk f = true) ∧
        (∀ f ∈ szipTargets.files r.text, disk f = true) ∧
        ∀ f ∈ hdf5Targets.files r.text, disk f = true)
      (Inv disk r policies (.hdf5 :: .szip :: .zlib :: done)) := by
  rw [CMake.hdf5Config]
  simp only [r.absolute_hdf5]
  have h₁ := ((h.quiet (quiet_setAll
    [(packagePrefixDir, r.text), ("HDF5_PACKAGE_NAME".toList, hdf5)] rfl s)).quiet
      (quiet_setAll (hdf5Settings.map fun p => (ofPackage hdf5 p.1, p.2)) rfl _))
  refine ((h₁.quiet (quiet_setAll _ rfl _)).setAndCheck (by decide) r.text).bind fun s₂ h₂ => ?_
  have h₃ := h₂.quiet (quiet_setAll
    [(ofPackage hdf5 "INCLUDE_DIR_CPP".toList, r.text ++ "/include".toList),
      (ofPackage hdf5 "INCLUDE_DIR_HL".toList, r.text ++ "/include".toList),
      (ofPackage hdf5 "INCLUDE_DIR_HL_CPP".toList, r.text ++ "/include".toList),
      (ofPackage hdf5 "VERSION_STRING".toList, "1.10.5".toList),
      (ofPackage hdf5 "VERSION_MAJOR".toList, "1.10".toList),
      (ofPackage hdf5 "VERSION_MINOR".toList, "5".toList)] rfl s₂)
  exact Yields.map h₃.hdf5Loads fun s₄ h₄ => h₄.quiet (quiet_hdf5Components s₄)

/-- OCEConfig.cmake ends with an error when a file of OCE is missing. -/
theorem Inv.oceConfig (h : Inv disk r policies done s) {f : Text}
    (hf : f ∈ oceLibraries.files r.text) (hmissing : disk f = false) :
    ∃ e, CMake.oceConfig disk (r.text ++ "/cmake".toList) s = .error e := by
  have hself : directory (r.text ++ "/cmake".toList ++ "/OCEConfig.cmake".toList) =
      r.text ++ "/cmake".toList := r.directory_file "/cmake".toList (n := "OCEConfig.cmake".toList)
    (by decide)
  rw [CMake.oceConfig]
  simp only [hself]
  have h₁ := h.quiet (quiet_setAll
    [("SELF_DIR".toList, r.text ++ "/cmake".toList),
      (ofPackage oce "INCLUDE_DIRS".toList, r.text ++ "/cmake".toList ++ "/../include/oce".toList),
      (ofPackage oce "LIBRARIES".toList, joined (oceToolkits.map Prod.fst))] rfl s)
  have hfinds : r.Finds oceLibraries
      (r.text ++ "/cmake".toList ++ "/OCE-libraries.cmake".toList) := by
    rw [List.append_assoc]
    exact r.finds_cmake (n := "OCE-libraries.cmake".toList) rfl (by decide)
  obtain ⟨e, he⟩ := (h₁.load .oce hfinds).error fun hall => by
    rw [hall f hf] at hmissing
    cases hmissing
  exact ⟨e, by rw [Package.file] at he; rw [he]; rfl⟩

/-- The configuration file of a package. Of OCE a file is missing. -/
theorem Inv.config (h : Inv disk r policies done s) (P : Package)
    (hoce : P = .oce → ∃ f ∈ oceLibraries.files r.text, disk f = false) :
    Yields (P.config disk r.text s)
      (disk r.text = true ∧ ∀ Q ∈ P.loads, ∀ f ∈ Q.file.files r.text, disk f = true)
      (Inv disk r policies (P.loads.reverse ++ done)) := by
  cases P with
  | szip => exact h.szipConfig.congr (by simp [Package.loads, Package.file])
  | zlib => exact h.zlibConfig.congr (by simp [Package.loads, Package.file])
  | hdf5 => exact h.hdf5Config.congr (by simp [Package.loads, Package.file])
  | oce =>
      obtain ⟨f, hf, hmissing⟩ := hoce rfl
      refine ⟨fun hall => ?_, fun _ => h.oceConfig hf hmissing⟩
      have hfile := hall.2 .oce List.mem_cons_self f hf
      rw [hmissing] at hfile
      cases hfile

end configs

end CMake
