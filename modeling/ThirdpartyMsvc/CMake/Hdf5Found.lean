import ThirdpartyMsvc.CMake.FindAll

/-!
# HDF5_FOUND

The last loop of hdf5-config.cmake looks for required components that were not
found, and would set HDF5_FOUND to FALSE. It asks its macro for the components of
HDF5_static and of HDF5_shared, though, and nobody sets these lists. So the file
leaves HDF5_FOUND as it is, whatever is missing (`hdf5Config_found`).

Up to the last loop this is a matter of the variables that the commands write to.
`Keeps` says of a script that may fail that it leaves variables alone when it does
not.
-/

namespace CMake

/-- If the script ends without an error, the variables in `G` are as in `s`. -/
def Keeps (G : Text → Prop) (s : State) (x : Except Text State) : Prop :=
  ∀ s', x = .ok s' → ∀ n, G n → s'.vars n = s.vars n

namespace Keeps

variable {G : Text → Prop} {s s₁ : State} {x : Except Text State}

theorem ok (h : ∀ n, G n → s₁.vars n = s.vars n) : Keeps G s (.ok s₁) := by
  rintro s' ⟨⟩
  exact h

theorem error (e : Text) : Keeps G s (.error e) := by
  rintro s' ⟨⟩

theorem behind (hx : Keeps G s₁ x) (h : ∀ n, G n → s₁.vars n = s.vars n) : Keeps G s x :=
  fun s' hs' n hn => (hx s' hs' n hn).trans (h n hn)

theorem bind (hx : Keeps G s x) {f : State → Except Text State} (hf : ∀ s, Keeps G s (f s)) :
    Keeps G s (x >>= f) := by
  cases x with
  | error e => exact error e
  | ok s₁ => exact (hf s₁).behind (hx s₁ rfl)

theorem foldlM {α : Type*} {step : State → α → Except Text State}
    (hstep : ∀ a s, Keeps G s (step s a)) (as : List α) (s : State) :
    Keeps G s (as.foldlM step s) := by
  induction as generalizing s with
  | nil => exact ok fun _ _ => rfl
  | cons a as ih =>
      rw [List.foldlM_cons]
      exact (hstep a s).bind ih

theorem of_bind_eq_ok {f : State → Except Text State} {s' : State} (h : x >>= f = .ok s') :
    ∃ s₁, x = .ok s₁ ∧ f s₁ = .ok s' := by
  cases x with
  | error e => cases h
  | ok s₁ => exact ⟨s₁, rfl, h⟩

end Keeps

theorem keeps_setAndCheck {G : Text → Prop} {name : Text} (hname : ¬ G name) (disk : Text → Bool)
    (file : Text) (s : State) : Keeps G s (setAndCheck disk name file s) := by
  rw [setAndCheck]
  split
  · exact .ok (Quiet.set hname _ s).vars
  · exact .error _

/-! ## Targets files -/

section load

open TargetsFile

variable {G : Text → Prop} (hrelied : ∀ n, G n → Relied n) (hcheck : ∀ n, IsCheck n → ¬ G n)

theorem keeps_setProperties (pre target : Text) (properties : Properties) (s : State) :
    Keeps G s (setProperties pre target properties s) := by
  refine Keeps.foldlM (fun p s => ?_) properties s
  rw [State.setProperty]
  split
  · exact .ok fun _ _ => rfl
  · exact .error _

include hcheck in
theorem keeps_import (pre configuration : Text) (s : State) (i : Import) :
    Keeps G s (i.run pre configuration s) := by
  have hfirst : Keeps G s (s.appendProperty i.target importedConfigurations configuration) := by
    rw [State.appendProperty]
    split
    · exact .ok fun _ _ => rfl
    · exact .error _
  refine hfirst.bind fun s => (keeps_setProperties pre i.target i.properties s).bind fun s => .ok ?_
  have htarget : Quiet G s (s.append importCheckTargets [i.target]) :=
    .set (hcheck _ (Or.inl rfl)) _ s
  exact (htarget.trans (.set (hcheck _ (Or.inr ⟨i.target, rfl⟩)) _ _)).vars

include hrelied hcheck in
theorem keeps_configurationFile (pre : Text) (C : ConfigurationFile) (s : State) :
    Keeps G s (C.run pre s) := by
  have hversion : importFileVersion ∈ scratch := by simp [scratch]
  have hset := (quiet_set hversion "1".toList s).mono hrelied
  refine ((Keeps.foldlM (fun i s => keeps_import hcheck pre C.configuration s i) C.imports _).behind
    hset.vars).bind fun s => .ok ?_
  exact ((quiet_unset hversion s).mono hrelied).vars

variable (F : TargetsFile) (disk : Text → Bool) (file : Text)

include hrelied hcheck in
theorem keeps_loadConfigurations (pre : Text) (s : State) :
    Keeps G s (F.loadConfigurations file pre s) := by
  have hdir : "_DIR".toList ∈ scratch := by simp [scratch]
  have hfiles : "CONFIG_FILES".toList ∈ scratch := by simp [scratch]
  refine (Keeps.foldlM (fun f s => ?_) _ _).behind
    (((quiet_set hdir _ s).trans (quiet_set hfiles _ _)).mono hrelied).vars
  rw [TargetsFile.includeFile]
  split
  · exact keeps_configurationFile hrelied hcheck pre _ s
  · exact .error _

include hcheck in
theorem keeps_checkFiles (s : State) : Keeps G s (TargetsFile.checkFiles disk file s) := by
  refine (Keeps.foldlM (fun t s => ?_) _ s).bind fun s => .ok ?_
  · rw [TargetsFile.checkTarget]
    split
    · exact .error _
    · exact .ok (Quiet.unset (hcheck _ (Or.inr ⟨t, rfl⟩)) s).vars
  · exact (Quiet.unset (hcheck _ (Or.inl rfl)) s).vars

include hrelied hcheck in
theorem keeps_importTargets (s : State) : Keeps G s (F.importTargets disk file s) := by
  have hscratch : importPrefix ∈ scratch := by simp [scratch]
  have hadd : ∀ t s, Keeps G s (TargetsFile.addTarget (F.prefixOf file) s t) := by
    intro t s
    refine Keeps.bind ?_ fun s => keeps_setProperties _ _ _ s
    rw [State.addLibrary]
    split
    · exact .error _
    · exact .ok fun _ _ => rfl
  refine ((Keeps.foldlM hadd F.targets _).behind
    ((quiet_set hscratch _ s).mono hrelied).vars).bind fun s => ?_
  refine (keeps_loadConfigurations hrelied hcheck F file (F.prefixOf file) s).bind fun s => ?_
  exact (keeps_checkFiles hcheck disk file _).behind ((quiet_unset hscratch s).mono hrelied).vars

include hrelied hcheck in
/-- A targets file leaves the variables alone that it does not use itself. -/
theorem keeps_load (hF : F.Proper) (s : State) : Keeps G s (F.load disk file s) := by
  have hversion : importFileVersion ∈ scratch := by simp [scratch]
  have hstart : ∀ n, G n → (F.start s).vars n = s.vars n :=
    fun n hn => (start_spec hF s).1.vars n (hrelied n hn)
  have hforget : ∀ s n, G n → (forgetTargets s).vars n = s.vars n :=
    fun s n hn => (quiet_forgetTargets s).vars n (hrelied n hn)
  have hfinish : ∀ s n, G n → (finish s).vars n = s.vars n :=
    fun s n hn => (quiet_unset hversion s).vars n (hrelied n hn)
  rw [load]
  split
  · refine .ok fun n hn => (hfinish _ n hn).trans ?_
    split
    · exact (hforget _ n hn).trans (hstart n hn)
    · exact hstart n hn
  · split
    · exact .error _
    · refine ((keeps_importTargets hrelied hcheck F disk file _).behind fun n hn =>
        (hforget _ n hn).trans (hstart n hn)).bind fun s => .ok (hfinish s)

include hrelied hcheck in
theorem keeps_loadUnless (P : Package) (target : Text) (s : State) :
    Keeps G s (P.file.loadUnless disk target file s) := by
  rw [TargetsFile.loadUnless]
  split
  · exact .ok fun _ _ => rfl
  · exact keeps_load hrelied hcheck _ disk file P.proper s

end load

/-! ## The last loop -/

/-- HDF5_FOUND, and the lists that the last loop reads. -/
def IsReport (n : Text) : Prop :=
  n = found hdf5 ∨ ∃ kind, n = findComponents (ofPackage hdf5 kind)

/-- The last character of the name of a variable. -/
theorem getLast?_ofPackage (package u : Text) {w : Text} (hw : w ≠ []) :
    (ofPackage package (u ++ w)).getLast? = w.getLast? := by
  have hsplit : ofPackage package (u ++ w) = package ++ '_' :: u ++ w := by simp [ofPackage]
  rw [hsplit, List.getLast?_append]
  cases hlast : w.getLast? with
  | none => exact absurd (List.getLast?_eq_none_iff.mp hlast) hw
  | some c => rfl

theorem getLast?_findComponents (package : Text) :
    (findComponents package).getLast? = some 'S' :=
  getLast?_ofPackage package [] (w := "FIND_COMPONENTS".toList) (by decide)

theorem getLast?_of_isReport {n : Text} (hn : IsReport n) :
    n.getLast? = some 'D' ∨ n.getLast? = some 'S' := by
  rcases hn with rfl | ⟨kind, rfl⟩
  · exact Or.inl (by decide)
  · exact Or.inr (getLast?_findComponents _)

theorem not_isReport_of_getLast? {n : Text} {c : Char} (hn : n.getLast? = some c)
    (hc : c ∉ ['D', 'S']) : ¬ IsReport n := by
  intro hreport
  have h := getLast?_of_isReport hreport
  rw [hn, Option.some.injEq, Option.some.injEq] at h
  exact hc (by simpa using h)

theorem notNoted_isReport : NotNoted IsReport where
  libType := not_isReport_of_getLast? (c := 'E') (by decide) (by decide)
  components := by
    rintro (h | ⟨kind, h⟩)
    · exact absurd h (by decide)
    · have hlength := congrArg List.length h
      simp [findComponents, ofPackage] at hlength
  required := not_isReport_of_getLast? (c := 'C') (by decide) (by decide)
  comp := not_isReport_of_getLast? (c := 'p') (by decide) (by decide)
  comp2 := not_isReport_of_getLast? (c := '2') (by decide) (by decide)
  haveComp := not_isReport_of_getLast? (c := 'P') (by decide) (by decide)
  haveComp2 := not_isReport_of_getLast? (c := '2') (by decide) (by decide)
  compLibrary := not_isReport_of_getLast? (c := 'Y') (by decide) (by decide)
  found := by
    rintro t component (h | ⟨kind, h⟩)
    · -- the name of the package, two separators and FOUND are longer than HDF5_FOUND
      have hlength := congrArg List.length h
      simp [componentFound, ofPackage, found, hdf5] at hlength
      omega
    · have hlast := congrArg List.getLast? h
      rw [componentFound, getLast?_ofPackage _ _ (by decide), getLast?_findComponents] at hlast
      exact absurd hlast (by decide)
  library := by
    intro t
    refine not_isReport_of_getLast? (c := 'Y') ?_ (by decide)
    rw [List.getLast?_map, getLast?_ofPackage _ _ (by decide)]
    decide

/-- A variable that is neither HDF5_FOUND nor a list of components. -/
def isOther (n : Text) : Bool := n != found hdf5 && !"_FIND_COMPONENTS".toList.isSuffixOf n

theorem not_isReport_of_isOther {n : Text} (hn : isOther n = true) : ¬ IsReport n := by
  rw [isOther, Bool.and_eq_true, bne_iff_ne, Bool.not_eq_true'] at hn
  rintro (h | ⟨kind, rfl⟩)
  · exact hn.1 h
  · have hsuffix : "_FIND_COMPONENTS".toList <:+ findComponents (ofPackage hdf5 kind) :=
      ⟨ofPackage hdf5 kind, rfl⟩
    rw [List.isSuffixOf_iff_suffix.mpr hsuffix] at hn
    exact Bool.true_eq_false.mp hn.2

theorem head?_of_isReport {n : Text} (hn : IsReport n) : n.head? = some 'H' := by
  have hhead : ∀ t : Text, (hdf5 ++ t).head? = some 'H' := fun _ => rfl
  rcases hn with rfl | ⟨kind, rfl⟩
  · exact hhead _
  · rw [findComponents, ofPackage, ofPackage, List.append_assoc]
    exact hhead _

theorem relied_of_isReport {n : Text} (hn : IsReport n) : Relied n := by
  have hall : ∀ m ∈ scratch, m.head? ≠ some 'H' := by decide
  exact fun hmem => hall n hmem (head?_of_isReport hn)

theorem not_isReport_of_isCheck {n : Text} (hn : IsCheck n) : ¬ IsReport n :=
  fun hreport => not_isCheck_of_head? (head?_of_isReport hreport) (by decide) hn

theorem quiet_setAll_isReport (settings : List (Text × Text))
    (h : ((settings.map Prod.fst).all isOther) = true) (s : State) :
    Quiet IsReport s (setAll settings s) :=
  Quiet.setAll (fun _ => not_isReport_of_isOther) settings h s

/-! ## The configuration file -/

/-- A package without a list of components has none to check. -/
theorem checkRequiredComponents_of_none {package : Text} {s : State}
    (h : s.vars (findComponents package) = none) : checkRequiredComponents package s = s := by
  rw [checkRequiredComponents, State.get, h]
  rfl

theorem hdf5Components_found {s : State}
    (h : ∀ kind, s.vars (findComponents (ofPackage hdf5 kind)) = none) :
    (hdf5Components s).vars (found hdf5) = s.vars (found hdf5) := by
  obtain ⟨s', hquiet, heq⟩ := notNoted_isReport.hdf5Components s
  have hcheck : ∀ kinds : List Text, kinds.foldl
      (fun s kind => checkRequiredComponents (ofPackage hdf5 kind) s) s' = s' := by
    intro kinds
    induction kinds with
    | nil => rfl
    | cons kind kinds ih =>
        have hnone := (hquiet.vars _ (Or.inr ⟨kind, rfl⟩)).trans (h kind)
        rw [List.foldl_cons, checkRequiredComponents_of_none hnone, ih]
  rw [heq, hcheck]
  exact hquiet.vars _ (Or.inl rfl)

theorem keeps_hdf5Loads (disk : Text → Bool) (pre : Text) (s : State) :
    Keeps IsReport s (hdf5Loads disk pre s) := by
  have hrelied : ∀ n, IsReport n → Relied n := fun _ => relied_of_isReport
  have hcheck : ∀ n, IsCheck n → ¬ IsReport n := fun _ => not_isReport_of_isCheck
  rw [hdf5Loads]
  split
  · exact .ok fun _ _ => rfl
  · refine (keeps_loadUnless hrelied hcheck disk _ .zlib _ s).bind fun s => ?_
    refine (keeps_loadUnless hrelied hcheck disk _ .szip _ s).bind fun s => ?_
    exact keeps_load hrelied hcheck _ disk _ (Package.proper .hdf5) s

/-- Whichever components a project asks for and requires, hdf5-config.cmake leaves
HDF5_FOUND as it is. -/
theorem hdf5Config_found {disk : Text → Bool} {dir : Text} {s s' : State}
    (h : ∀ kind, s.vars (findComponents (ofPackage hdf5 kind)) = none)
    (hs' : hdf5Config disk dir s = .ok s') : s'.vars (found hdf5) = s.vars (found hdf5) := by
  rw [hdf5Config] at hs'
  obtain ⟨s₁, hcheck, hs'⟩ := Keeps.of_bind_eq_ok hs'
  obtain ⟨s₂, hloads, hs'⟩ := Keeps.of_bind_eq_ok hs'
  cases hs'
  have hkept : ∀ n, IsReport n → s₂.vars n = s.vars n := by
    intro n hn
    rw [keeps_hdf5Loads _ _ _ _ hloads n hn, (quiet_setAll_isReport _ rfl _).vars n hn,
      keeps_setAndCheck (not_isReport_of_isOther (by decide)) _ _ _ _ hcheck n hn,
      (quiet_setAll_isReport _ rfl _).vars n hn, (quiet_setAll_isReport _ rfl _).vars n hn,
      (quiet_setAll_isReport _ rfl _).vars n hn]
  rw [hdf5Components_found fun kind => (hkept _ (Or.inr ⟨kind, rfl⟩)).trans (h kind)]
  exact hkept _ (Or.inl rfl)

/-- Fortran is required, and no library for it is there. -/
theorem hdf5Config_found_fortran :
    let s := (State.empty.set (findComponents hdf5) "Fortran;shared".toList).set
      (findRequired hdf5 "Fortran".toList) "1".toList
    ∃ s', hdf5Config (fun _ => true) (Root.thirdParty.text ++ "/cmake/hdf5".toList) s = .ok s' ∧
      s'.vars (found hdf5) = none := by
  intro s
  have hguarded : Quiet Guarded State.empty s :=
    (quiet_set_of_isFree (by decide) _ _).trans (quiet_set_of_isFree (by decide) _ _)
  have hreport : Quiet IsReport State.empty s :=
    (Quiet.set notNoted_isReport.components _ _).trans
      (.set (not_isReport_of_isOther (by decide)) _ _)
  have hinv := (fresh_empty.inv (fun _ => true) Root.thirdParty).quiet hguarded
  obtain ⟨s', hs', -⟩ := hinv.hdf5Config.ok ⟨rfl, fun _ _ => rfl, fun _ _ => rfl, fun _ _ => rfl⟩
  refine ⟨s', hs', (hdf5Config_found (fun kind => ?_) hs').trans ?_⟩
  · exact hreport.vars _ (Or.inr ⟨kind, rfl⟩)
  · exact hreport.vars _ (Or.inl rfl)

end CMake
