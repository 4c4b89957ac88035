import ThirdpartyMsvc.CMake.Hdf5Found

/-!
# SZIP_FOUND

szip-config.cmake uses the macro that hdf5-config.cmake uses, but for the list of
components that the project asks for. So it does report required components that
are not there: `szipConfig_found` says that SZIP_FOUND becomes FALSE exactly when
one of them is neither static nor shared.
-/

namespace CMake

/-- The components of szip. -/
def szipKinds : List Text := ["static".toList, "shared".toList]

/-- What is noted for a component. -/
def szipResult (component : Text) : Text :=
  if component ∈ szipKinds then "1".toList else "0".toList

def szipExports : Text := ofPackage szip "EXPORT_LIBRARIES".toList

/-- The variables that the loop writes to at every component that is there. -/
def szipNotes : List Text :=
  ["HAVE_COMP".toList, "COMP_LIBRARY".toList, "SZIP_STATIC_LIBRARY".toList,
    "SZIP_SHARED_LIBRARY".toList]

theorem ofPackage_inj {package t u : Text} : ofPackage package t = ofPackage package u ↔ t = u := by
  rw [ofPackage, ofPackage, List.append_right_inj, List.cons_inj_right]

theorem componentFound_inj {package c d : Text} :
    componentFound package c = componentFound package d ↔ c = d := by
  rw [componentFound, componentFound, ofPackage_inj, List.append_left_inj]

theorem findRequired_inj {package c d : Text} :
    findRequired package c = findRequired package d ↔ c = d := by
  rw [findRequired, findRequired, ofPackage_inj, List.append_right_inj]

theorem componentFound_ne_found (package c : Text) : componentFound package c ≠ found package := by
  rw [componentFound, found, Ne, ofPackage_inj]
  intro h
  have hlength := congrArg List.length h
  simp at hlength

theorem findRequired_ne_found (package c : Text) : findRequired package c ≠ found package := by
  rw [findRequired, found, Ne, ofPackage_inj]
  intro h
  have hlength := congrArg List.length h
  simp at hlength

theorem getLast?_componentFound (package c : Text) :
    (componentFound package c).getLast? = some 'D' :=
  getLast?_ofPackage package c (by decide)

theorem componentFound_ne_findComponents (package c : Text) :
    componentFound package c ≠ findComponents package := by
  intro h
  have hlast := congrArg List.getLast? h
  rw [getLast?_componentFound, getLast?_findComponents] at hlast
  exact absurd hlast (by decide)

theorem componentFound_notMem_szipNotes (c : Text) : componentFound szip c ∉ szipNotes := by
  have hall : ∀ n ∈ szipNotes, n.getLast? ≠ some 'D' := by decide
  exact fun hmem => hall _ hmem (getLast?_componentFound szip c)

theorem szipExports_ne (c : Text) : szipExports ≠ componentFound szip c := by
  intro h
  have hlast := congrArg List.getLast? h
  rw [getLast?_componentFound] at hlast
  exact absurd hlast (by decide)

/-! ## The components that are asked for -/

/-- The components that are looked at when the list of `cs` is asked for. -/
def requested (cs : List Text) : List Text := if isOff (joined cs) then ["static".toList] else cs

theorem isElement_eraseDups {cs : List Text} (hcs : ∀ c ∈ cs, IsElement c) :
    ∀ c ∈ (requested cs).eraseDups, IsElement c := by
  intro c hc
  rw [List.mem_eraseDups, requested] at hc
  split at hc
  · obtain rfl := List.mem_singleton.mp hc
    exact ⟨by decide, by decide⟩
  · exact hcs c hc

theorem requested_names {cs : List Text}
    (hnames : ∀ c ∈ cs, ∀ d ∈ cs, findRequired szip c ≠ componentFound szip d) :
    ∀ c ∈ requested cs, ∀ d ∈ requested cs, findRequired szip c ≠ componentFound szip d := by
  rw [requested]
  split
  · decide
  · exact hnames

/-! ## The loop over the components -/

theorem find_szipExports (component : Text) :
    find (elements "szip-static;szip-shared".toList) ("szip-".toList ++ component) < 0 ↔
      component ∉ szipKinds := by
  have helements : elements "szip-static;szip-shared".toList =
      szipKinds.map ("szip-".toList ++ ·) := by decide
  have hmem : "szip-".toList ++ component ∈ szipKinds.map ("szip-".toList ++ ·) ↔
      component ∈ szipKinds :=
    List.mem_map_of_injective fun _ _ h => List.append_cancel_left h
  rw [helements, find]
  cases h : (szipKinds.map ("szip-".toList ++ ·)).idxOf? ("szip-".toList ++ component) with
  | none =>
      rw [List.idxOf?_eq_none_iff, hmem] at h
      exact iff_of_true (by decide) h
  | some i =>
      refine iff_of_false (by simp) (not_not_intro (hmem.mp ?_))
      by_contra hnot
      rw [List.idxOf?_eq_none_iff.mpr hnot] at h
      cases h

theorem szipComponent_spec {s : State}
    (hexports : s.get szipExports = "szip-static;szip-shared".toList) (component : Text) :
    (szipComponent s component).get (componentFound szip component) = szipResult component ∧
      ∀ n, n ∉ szipNotes → n ≠ componentFound szip component →
        (szipComponent s component).vars n = s.vars n := by
  have hhave : "HAVE_COMP".toList ∈ szipNotes := by simp [szipNotes]
  have hne : ∀ {n m : Text}, n ∉ szipNotes → m ∈ szipNotes → n ≠ m :=
    fun hn hm h => hn (h ▸ hm)
  rw [szipExports] at hexports
  rw [szipComponent]
  simp only [hexports, find_szipExports]
  by_cases hkind : component ∈ szipKinds
  · have hlibrary : (ofPackage szip (component ++ "_LIBRARY".toList)).map Char.toUpper ∈ szipNotes := by
      revert hkind component
      decide
    have hlibraries : ∀ targets s, Quiet (fun n => n ∉ szipNotes) s (addLibraries
        ((ofPackage szip (component ++ "_LIBRARY".toList)).map Char.toUpper) targets s) :=
      fun targets s => (Quiet.set (not_not_intro (by simp [szipNotes])) _ s).trans
        (.set (not_not_intro hlibrary) _ _)
    rw [if_neg (not_not_intro hkind)]
    constructor
    · rw [State.get, (hlibraries _ _).vars _ (componentFound_notMem_szipNotes component),
        State.vars_set_self, szipResult, if_pos hkind]
      rfl
    · intro n hn hother
      rw [(hlibraries _ _).vars n hn, State.vars_set_of_ne hother, State.vars_set_of_ne (hne hn hhave)]
  · rw [if_pos hkind]
    constructor
    · rw [State.get_set_self, szipResult, if_neg hkind]
    · intro n hn hother
      rw [State.vars_set_of_ne hother, State.vars_set_of_ne (hne hn hhave)]

theorem foldl_szipComponent (cs : List Text) {s : State}
    (hexports : s.get szipExports = "szip-static;szip-shared".toList) :
    (∀ c ∈ cs, (cs.foldl szipComponent s).get (componentFound szip c) = szipResult c) ∧
      ∀ n, n ∉ szipNotes → (∀ c ∈ cs, n ≠ componentFound szip c) →
        (cs.foldl szipComponent s).vars n = s.vars n := by
  induction cs generalizing s with
  | nil => exact ⟨by simp, fun _ _ _ => rfl⟩
  | cons c cs ih =>
      obtain ⟨hfirst, hframe⟩ := szipComponent_spec hexports c
      have hnext : (szipComponent s c).get szipExports = "szip-static;szip-shared".toList := by
        rw [State.get, hframe _ (by decide) (szipExports_ne c), ← State.get, hexports]
      obtain ⟨hrest, hkeep⟩ := ih hnext
      rw [List.foldl_cons]
      constructor
      · intro d hd
        by_cases hmem : d ∈ cs
        · exact hrest d hmem
        · obtain rfl := (List.mem_cons.mp hd).resolve_right hmem
          rw [State.get, hkeep _ (componentFound_notMem_szipNotes d)
            (fun e he h => hmem (componentFound_inj.mp h ▸ he)), ← State.get]
          exact hfirst
      · intro n hn hothers
        rw [hkeep n hn fun d hd => hothers d (List.mem_cons_of_mem _ hd)]
        exact hframe n hn (hothers c List.mem_cons_self)

/-! ## The loop over the required components -/

/-- Somebody is missing, or it was so before. -/
theorem foldl_checkComponent (package : Text) (cs : List Text) (s : State) :
    (cs.foldl (checkComponent package) s).get (found package) = "FALSE".toList ↔
      (∃ c ∈ cs, isOff (s.get (componentFound package c)) = true ∧
        isOff (s.get (findRequired package c)) = false) ∨
      s.get (found package) = "FALSE".toList := by
  induction cs generalizing s with
  | nil => simp
  | cons c cs ih =>
      rw [List.foldl_cons, ih, checkComponent]
      by_cases h : (isOff (s.get (componentFound package c)) &&
          !isOff (s.get (findRequired package c))) = true
      · rw [if_pos h]
        refine iff_of_true (Or.inr (State.get_set_self ..)) (Or.inl ⟨c, List.mem_cons_self, ?_⟩)
        simpa using h
      · have hc : ¬ (isOff (s.get (componentFound package c)) = true ∧
            isOff (s.get (findRequired package c)) = false) := by simpa using h
        rw [if_neg h]
        simp only [List.mem_cons, exists_eq_or_imp]
        rw [or_iff_right hc]

/-! ## The configuration file -/

def isRequiredName (n : Text) : Bool := "SZIP_FIND_REQUIRED_".toList.isPrefixOf n

/-- The variables that szip-config.cmake is asked with, and the result. -/
def isAsked (n : Text) : Bool := n == findComponents szip || n == found szip || isRequiredName n

def isKept (n : Text) : Bool := isAsked n || n == szipExports

theorem isRequiredName_findRequired (c : Text) : isRequiredName (findRequired szip c) = true := by
  have hname : "SZIP_FIND_REQUIRED_".toList = szip ++ '_' :: "FIND_REQUIRED_".toList := by decide
  rw [isRequiredName, hname, findRequired, ofPackage, List.isPrefixOf_iff_prefix]
  exact ⟨c, by rw [List.append_assoc, List.cons_append]⟩

theorem findRequired_ne_findComponents (c : Text) : findRequired szip c ≠ findComponents szip := by
  intro h
  have hname := isRequiredName_findRequired c
  rw [h] at hname
  exact absurd hname (by decide)

theorem findRequired_notMem_szipNotes (c : Text) : findRequired szip c ∉ szipNotes := by
  have hall : ∀ n ∈ szipNotes, isRequiredName n ≠ true := by decide
  exact fun hmem => hall _ hmem (isRequiredName_findRequired c)

theorem head?_of_isKept {n : Text} (hn : isKept n = true) : n.head? = some 'S' := by
  rw [isKept, isAsked] at hn
  simp only [Bool.or_eq_true, beq_iff_eq] at hn
  rcases hn with ((rfl | rfl) | hn) | rfl
  · decide
  · decide
  · obtain ⟨t, rfl⟩ := List.isPrefixOf_iff_prefix.mp hn
    rw [List.head?_append]
    rfl
  · decide

theorem relied_of_isKept (n : Text) (hn : isKept n = true) : Relied n := by
  have hall : ∀ m ∈ scratch, m.head? ≠ some 'S' := by decide
  exact fun hmem => hall n hmem (head?_of_isKept hn)

theorem not_isKept_of_isCheck (n : Text) (hn : IsCheck n) : ¬ isKept n = true :=
  fun hkept => not_isCheck_of_head? (head?_of_isKept hkept) (by decide) hn

theorem isOff_szipResult {c : Text} : isOff (szipResult c) = true ↔ c ∉ szipKinds := by
  rw [szipResult]
  split
  next h => exact iff_of_false (by decide) (not_not_intro h)
  next h => exact iff_of_true (by decide) h

theorem quiet_setAll_of (g : Text → Bool) (settings : List (Text × Text))
    (h : ((settings.map Prod.fst).all fun n => !g n) = true) (s : State) :
    Quiet (g · = true) s (setAll settings s) :=
  Quiet.setAll (fun n hn => by simpa using hn) settings h s

/-- What szip-config.cmake leaves of the variables that it is asked with, before it
looks at the components. -/
theorem szipConfig_eq {disk : Text → Bool} {dir : Text} {s s' : State} {cs : List Text}
    (hcs : ∀ c ∈ cs, IsElement c) (hget : s.get (findComponents szip) = joined cs)
    (hs' : szipConfig disk dir s = .ok s') :
    ∃ s₃, s' = checkRequiredComponents szip ((requested cs).eraseDups.foldl szipComponent s₃) ∧
      s₃.get szipExports = "szip-static;szip-shared".toList ∧
      s₃.get (findComponents szip) = joined (requested cs).eraseDups ∧
      ∀ n, isAsked n = true → n ≠ findComponents szip → n ≠ findRequired szip "static".toList →
        s₃.vars n = s.vars n := by
  rw [szipConfig] at hs'
  obtain ⟨s₁, hcheck, hs'⟩ := Keeps.of_bind_eq_ok hs'
  obtain ⟨s₂, hload, hs'⟩ := Keeps.of_bind_eq_ok hs'
  cases hs'
  -- the targets and the second variables leave what is kept alone
  have hkept : ∀ n, isKept n = true → s₂.vars n = s₁.vars n := by
    intro n hn
    rw [keeps_loadUnless relied_of_isKept not_isKept_of_isCheck disk _ .szip _ _ _ hload n hn,
      (quiet_setAll_of isKept _ rfl _).vars n hn]
  have hfirst := keeps_setAndCheck (G := (isKept · = true)) (by decide) disk _ _ _ hcheck
  have hexports : s₂.get szipExports = "szip-static;szip-shared".toList := by
    rw [State.get, hkept _ (by decide), hfirst _ (by decide)]
    rfl
  have hasked : ∀ n, isAsked n = true → s₂.vars n = s.vars n := by
    intro n hn
    have hn' : isKept n = true := by rw [isKept, hn, Bool.true_or]
    rw [hkept n hn', hfirst n hn', (quiet_setAll_of isAsked _ rfl _).vars n hn]
  have hcomponents : s₂.get (findComponents szip) = joined cs := by
    rw [State.get, hasked _ (by decide), ← State.get, hget]
  -- without a list, the component static is asked for and required
  obtain ⟨s₃, hs₃, hlist, hdefault⟩ : ∃ s₃, (if isOff (s₂.get (findComponents szip)) then
        (s₂.set (findComponents szip) "static".toList).set (findRequired szip "static".toList)
          "true".toList else s₂) = s₃ ∧
      elements (s₃.get (findComponents szip)) = requested cs ∧
      ∀ n, n ≠ findComponents szip → n ≠ findRequired szip "static".toList →
        s₃.vars n = s₂.vars n := by
    refine ⟨_, rfl, ?_⟩
    rw [hcomponents, requested]
    by_cases hoff : isOff (joined cs) = true
    · rw [if_pos hoff, if_pos hoff]
      refine ⟨?_, fun n hn hr => ?_⟩
      · rw [State.get_set_of_ne (findRequired_ne_findComponents _).symm, State.get_set_self]
        rfl
      · rw [State.vars_set_of_ne hr, State.vars_set_of_ne hn]
    · rw [if_neg hoff, if_neg hoff, hcomponents]
      exact ⟨elements_joined hcs, fun _ _ _ => rfl⟩
  refine ⟨s₃.set (findComponents szip) (joined (requested cs).eraseDups), ?_, ?_,
    State.get_set_self .., fun n hn hne hr => ?_⟩
  · simp only [hs₃, hlist, State.get_set_self, elements_joined (isElement_eraseDups hcs)]
  · rw [State.get_set_of_ne (by decide), State.get, hdefault _ (by decide) (by decide), ← State.get,
      hexports]
  · rw [State.vars_set_of_ne hne, hdefault n hne hr, hasked n hn]

/-- When szip-config.cmake ends without an error, SZIP_FOUND is FALSE if and only if a
component that is neither static nor shared is required, or if it was FALSE before.
None of the components may be named so that its result is the mark of a required one. -/
theorem szipConfig_found {disk : Text → Bool} {dir : Text} {s s' : State} {cs : List Text}
    (hcs : ∀ c ∈ cs, IsElement c) (hget : s.get (findComponents szip) = joined cs)
    (hnames : ∀ c ∈ cs, ∀ d ∈ cs, findRequired szip c ≠ componentFound szip d)
    (hs' : szipConfig disk dir s = .ok s') :
    s'.get (found szip) = "FALSE".toList ↔
      (∃ c ∈ requested cs, c ∉ szipKinds ∧ isOff (s.get (findRequired szip c)) = false) ∨
        s.get (found szip) = "FALSE".toList := by
  obtain ⟨s₃, rfl, hexports, hcomponents, hasked⟩ := szipConfig_eq hcs hget hs'
  obtain ⟨hresults, hframe⟩ := foldl_szipComponent (requested cs).eraseDups hexports
  have hlist : ((requested cs).eraseDups.foldl szipComponent s₃).get (findComponents szip) =
      joined (requested cs).eraseDups := by
    rw [State.get, hframe _ (by decide) fun c _ => (componentFound_ne_findComponents szip c).symm,
      ← State.get, hcomponents]
  have hfound : ((requested cs).eraseDups.foldl szipComponent s₃).get (found szip) =
      s.get (found szip) := by
    rw [State.get, hframe _ (by decide) fun c _ => (componentFound_ne_found szip c).symm,
      hasked _ (by decide) (by decide) (findRequired_ne_found szip _).symm, ← State.get]
  have hrequired : ∀ c ∈ requested cs, c ∉ szipKinds →
      ((requested cs).eraseDups.foldl szipComponent s₃).get (findRequired szip c) =
        s.get (findRequired szip c) := by
    intro c hc hkind
    have hname : isAsked (findRequired szip c) = true := by
      rw [isAsked, isRequiredName_findRequired, Bool.or_true]
    have hstatic : findRequired szip c ≠ findRequired szip "static".toList := by
      intro h
      rw [findRequired_inj.mp h] at hkind
      exact hkind (by decide)
    rw [State.get, hframe _ (findRequired_notMem_szipNotes c) fun d hd =>
        requested_names hnames c hc d (List.mem_eraseDups.mp hd),
      hasked _ hname (findRequired_ne_findComponents c) hstatic, ← State.get]
  rw [checkRequiredComponents, hlist, elements_joined (isElement_eraseDups hcs),
    foldl_checkComponent, hfound]
  refine or_congr_left (exists_congr fun c => ?_)
  rw [List.mem_eraseDups]
  refine and_congr_right fun hc => ?_
  rw [hresults c (List.mem_eraseDups.mpr hc), isOff_szipResult]
  exact and_congr_right fun hkind => by rw [hrequired c hc hkind]

/-- A project requires the component dynamic. -/
theorem szipConfig_found_dynamic :
    let s := (State.empty.set (findComponents szip) "shared;dynamic".toList).set
      (findRequired szip "dynamic".toList) "1".toList
    ∃ s', szipConfig (fun _ => true) (Root.thirdParty.text ++ "/cmake".toList) s = .ok s' ∧
      s'.get (found szip) = "FALSE".toList := by
  intro s
  have hguarded : Quiet Guarded State.empty s :=
    (quiet_set_of_isFree (by decide) _ _).trans (quiet_set_of_isFree (by decide) _ _)
  have hinv := (fresh_empty.inv (fun _ => true) Root.thirdParty).quiet hguarded
  obtain ⟨s', hs', -⟩ := hinv.szipConfig.ok ⟨rfl, fun _ _ => rfl⟩
  have hcs : ∀ c ∈ ["shared".toList, "dynamic".toList], IsElement c := by
    intro c hc
    rcases List.mem_pair.mp hc with rfl | rfl <;> exact ⟨by decide, by decide⟩
  refine ⟨s', hs', (szipConfig_found hcs (by decide) (by decide) hs').mpr (Or.inl ?_)⟩
  exact ⟨"dynamic".toList, by decide, by decide, by decide⟩

end CMake
