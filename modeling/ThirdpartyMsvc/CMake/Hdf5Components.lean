import ThirdpartyMsvc.CMake.Packages

/-!
# What the components of HDF5 are noted in

hdf5-config.cmake goes through the kinds of libraries and through the components
that a project asks for, and notes what it finds in variables whose names it puts
together from them. `NotNoted` says of a predicate that none of these variables
satisfies it, and then everything before the last loop is quiet
(`NotNoted.hdf5Components`).
-/

namespace CMake

/-- None of the variables that components of HDF5 are noted in satisfies `G`. -/
structure NotNoted (G : Text → Prop) : Prop where
  libType : ¬ G libType
  components : ¬ G (findComponents hdf5)
  required : ¬ G (findRequired hdf5 "static_C".toList)
  comp : ¬ G hdf5Comp
  comp2 : ¬ G hdf5Comp2
  haveComp : ¬ G "HAVE_COMP".toList
  haveComp2 : ¬ G "HAVE_COMP2".toList
  compLibrary : ¬ G "COMP_LIBRARY".toList
  found : ∀ t component, ¬ G (componentFound (hdf5 ++ t) component)
  library : ∀ t, ¬ G ((ofPackage hdf5 (t ++ "_LIBRARY".toList)).map Char.toUpper)

/-- The names that are set all pass a test that no name in `G` passes. -/
theorem Quiet.setAll {G : Text → Prop} {test : Text → Bool} (htest : ∀ n, test n = true → ¬ G n)
    (settings : List (Text × Text)) (h : (settings.map Prod.fst).all test = true) (s : State) :
    Quiet G s (setAll settings s) := by
  refine Quiet.foldl (fun p hp s => .set (htest p.1 ?_) p.2 s) s
  exact List.all_eq_true.mp h _ (List.mem_map_of_mem hp)

namespace NotNoted

variable {G : Text → Prop}

theorem addLibraries (h : NotNoted G) (t : Text) (targets : List Text) (s : State) :
    Quiet G s (addLibraries
      ((ofPackage hdf5 (t ++ "_LIBRARY".toList)).map Char.toUpper) targets s) :=
  (Quiet.set h.compLibrary _ s).trans (.set (h.library t) _ _)

theorem setHdf5Comp (h : NotNoted G) (component : Text) (s : State) :
    Quiet G s (setHdf5Comp component s) := by
  have hunset : Quiet G s (s.unset hdf5Comp2) := .unset h.comp2 s
  rw [CMake.setHdf5Comp]
  cases hdf5Component2.lookup component with
  | none =>
      cases hdf5Component.lookup component with
      | none => exact hunset
      | some library => exact hunset.trans (.set h.comp library _)
  | some second =>
      have hsecond := hunset.trans (.set h.comp2 second _)
      cases hdf5Component.lookup component with
      | none => exact hsecond
      | some library => exact hsecond.trans (.set h.comp library _)

theorem hdf5Search (h : NotNoted G) (kind : Text) (s : State) (component : Text) :
    Quiet G s (hdf5Search kind s component) := by
  have hfound : ∀ value (s : State), Quiet G s (s.set (componentFound hdf5 component) value) := by
    intro value s
    have hname := h.found [] component
    rw [List.append_nil] at hname
    exact .set hname value s
  have hkind : ∀ value (s : State),
      Quiet G s (s.set (componentFound (ofPackage hdf5 kind) component) value) :=
    fun value s => .set (h.found ('_' :: kind) component) value s
  have hhave : ∀ value (s : State), Quiet G s (s.set "HAVE_COMP".toList value) :=
    fun value s => .set h.haveComp value s
  have hhave2 : ∀ value (s : State), Quiet G s (s.set "HAVE_COMP2".toList value) :=
    fun value s => .set h.haveComp2 value s
  have hlibrary := h.addLibraries component
  have hlibraries : ∀ targets s, Quiet G s (CMake.addLibraries
      ((ofPackage hdf5 (component ++ '_' :: kind ++ "_LIBRARY".toList)).map Char.toUpper)
        targets s) := h.addLibraries (component ++ '_' :: kind)
  rw [CMake.hdf5Search]
  dsimp only
  refine (h.setHdf5Comp component s).trans ?_
  split
  · split
    · exact (hhave _ _).trans (hfound _ _)
    · exact (hhave _ _).trans ((hfound _ _).trans (hlibrary _ _))
  · split
    · exact (hhave _ _).trans (hkind _ _)
    · split
      · exact (hhave _ _).trans ((hkind _ _).trans (hlibraries _ _))
      · split
        · exact (hhave _ _).trans ((hhave2 _ _).trans (hkind _ _))
        · exact (hhave _ _).trans ((hhave2 _ _).trans ((hkind _ _).trans (hlibraries _ _)))

/-- Everything before the last loop is quiet. -/
theorem hdf5Components (h : NotNoted G) (s : State) : ∃ s', Quiet G s s' ∧
    hdf5Components s = (elements (s'.get CMake.libType)).foldl
      (fun s kind => checkRequiredComponents (ofPackage hdf5 kind) s) s' := by
  have hdefault : Quiet G s (if isOff (s.get (findComponents hdf5)) then
      ((s.unset CMake.libType).set (findComponents hdf5) "C;HL;static".toList).set
        (findRequired hdf5 "static_C".toList) "true".toList else s) := by
    split
    · exact ((Quiet.unset h.libType s).trans (.set h.components _ _)).trans (.set h.required _ _)
    · exact .refl s
  have hkind : ∀ component s, Quiet G s (hdf5Kind s component) := by
    intro component s
    rw [hdf5Kind]
    split
    · exact (Quiet.set h.components _ _).trans (.set h.libType _ _)
    · exact .refl s
  refine ⟨_, ?_, rfl⟩
  exact ((hdefault.trans (.set h.components _ _)).trans (.foldl (fun c _ s => hkind c s) _)).trans
    (.foldl (fun kind _ s => .foldl (fun c _ s => h.hdf5Search kind s c) s) _)

end NotNoted

end CMake
