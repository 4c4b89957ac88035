import ThirdpartyMsvc.CMake.Import

/-!
# Loading a targets file

A targets file whose targets are all defined changes nothing but scratch
variables (`load_of_defined`). If none of them is defined, it adds them with
their properties for its prefix when every file that it names exists
(`load_of_exists`), and ends with an error when one does not
(`load_of_missing`).
-/

namespace CMake

open Store

/-! ## Adding the targets -/

namespace TargetsFile

/-- The writes that give new targets their properties. -/
def interfacePuts (pre : Text) (ts : List (Text × Properties)) : List (Put (Text × Text) Text) :=
  ts.flatMap fun t => putsOf pre t.1 t.2

theorem key_of_mem_interfacePuts {pre : Text} {ts : List (Text × Properties)}
    {p : Put (Text × Text) Text} (hp : p ∈ interfacePuts pre ts) : p.key.1 ∈ ts.map Prod.fst := by
  obtain ⟨t, ht, hp⟩ := List.mem_flatMap.mp hp
  rw [key_of_mem_putsOf hp]
  exact List.mem_map_of_mem ht

/-- From one state to the other the targets `ts` were added, and nothing else. -/
structure Added (pre : Text) (ts : List (Text × Properties)) (s s' : State) : Prop where
  vars : s'.vars = s.vars
  policies : s'.policies = s.policies
  targets : s'.targets = s.targets ++ ts.map Prod.fst
  props_old : ∀ k, k.1 ∉ ts.map Prod.fst → s'.props k = s.props k
  props_new : ∀ k, k.1 ∈ ts.map Prod.fst →
    s'.props k = applyAll (interfacePuts pre ts) (fun _ => none) k

theorem addTarget_of_notMem {pre : Text} {t : Text × Properties} {s : State}
    (h : t.1 ∉ s.targets) : addTarget pre s t = .ok { s with
      targets := s.targets ++ [t.1]
      props := applyAll (putsOf pre t.1 t.2) fun k => if k.1 = t.1 then none else s.props k } := by
  rw [addTarget, State.addLibrary_of_notMem h]
  simp only [bind, Except.bind]
  rw [setProperties_of_mem (by simp)]

theorem foldl_addTarget_spec (pre : Text) {ts : List (Text × Properties)}
    (hnodup : (ts.map Prod.fst).Nodup) {s : State} (h : ∀ t ∈ ts, t.1 ∉ s.targets) :
    ∃ s', ts.foldlM (addTarget pre) s = .ok s' ∧ Added pre ts s s' := by
  induction ts generalizing s with
  | nil => exact ⟨s, rfl, rfl, rfl, (List.append_nil _).symm, fun _ _ => rfl, by simp⟩
  | cons t ts ih =>
      rw [List.map_cons, List.nodup_cons] at hnodup
      have ht := h t (by simp)
      obtain ⟨s', hfold, hs'⟩ := ih hnodup.2 (s := { s with
        targets := s.targets ++ [t.1]
        props := applyAll (putsOf pre t.1 t.2) fun k => if k.1 = t.1 then none else s.props k })
        (fun u hu => by
          have hne : u.1 ≠ t.1 := fun hsame => hnodup.1 (hsame ▸ List.mem_map_of_mem hu)
          simpa [hne] using h u (List.mem_cons_of_mem _ hu))
      refine ⟨s', ?_, hs'.vars, hs'.policies, ?_, fun k hk => ?_, fun k hk => ?_⟩
      · rw [List.foldlM_cons, addTarget_of_notMem ht]
        exact hfold
      · rw [hs'.targets, List.map_cons, List.append_assoc, List.singleton_append]
      · rw [List.map_cons, List.mem_cons, not_or] at hk
        refine (hs'.props_old k hk.2).trans ((applyAll_of_notMem ?_ _).trans (if_neg hk.1))
        exact fun p hp hkey => hk.1 (hkey ▸ key_of_mem_putsOf hp)
      · have hkey : ∀ p ∈ putsOf pre t.1 t.2, p.key = k → k.1 = t.1 := fun p hp hpk =>
          hpk ▸ key_of_mem_putsOf hp
        rw [interfacePuts, List.flatMap_cons, applyAll_append]
        by_cases hmem : k.1 ∈ ts.map Prod.fst
        · rw [hs'.props_new k hmem]
          have hother : applyAll (putsOf pre t.1 t.2) (fun _ => none) k = none :=
            applyAll_of_notMem (fun p hp hpk => hnodup.1 (hkey p hp hpk ▸ hmem)) _
          exact applyAll_congr_apply _ hother.symm
        · have hkt : k.1 = t.1 := (List.mem_cons.mp hk).resolve_right hmem
          have hfirst : applyAll (putsOf pre t.1 t.2)
              (fun k => if k.1 = t.1 then none else s.props k) k =
                applyAll (putsOf pre t.1 t.2) (fun _ => none) k :=
            applyAll_congr_apply _ (if_pos hkt)
          have hrest : applyAll (interfacePuts pre ts)
              (applyAll (putsOf pre t.1 t.2) fun _ => none) k =
                applyAll (putsOf pre t.1 t.2) (fun _ => none) k := by
            refine applyAll_of_notMem (fun p hp hpk => hmem ?_) _
            rw [← hpk]
            exact key_of_mem_interfacePuts hp
          exact (hs'.props_old k hmem).trans (hfirst.trans hrest.symm)

/-! ## The test whether the targets are defined -/

theorem quiet_expectTarget (s : State) (t : Text) : Quiet Relied s (expectTarget s t) := by
  have hfirst : Quiet Relied s (s.append expectedTargets [t]) := quiet_set (by simp [scratch]) _ s
  rw [expectTarget]
  split
  · exact hfirst.trans (quiet_set (by simp [scratch]) _ _)
  · exact hfirst.trans (quiet_set (by simp [scratch]) _ _)

theorem foldl_expectTarget_spec {ts us vs : List Text} (hts : ∀ t ∈ ts, t ≠ [])
    (hus : ∀ t ∈ us, t ≠ []) (hvs : ∀ t ∈ vs, t ≠ []) {s : State}
    (hexpected : s.get expectedTargets = joined us) (hdefined : s.get targetsDefined = joined vs) :
    (ts.foldl expectTarget s).get expectedTargets = joined (us ++ ts) ∧
      (ts.foldl expectTarget s).get targetsDefined =
        joined (vs ++ ts.filter (· ∈ s.targets)) := by
  have hne : targetsDefined ≠ expectedTargets := by decide
  have hne' : expectedTargets ≠ targetsNotDefined := by decide
  have hne'' : targetsDefined ≠ targetsNotDefined := by decide
  have hall : ∀ {us : List Text} {t : Text}, (∀ u ∈ us, u ≠ []) → t ≠ [] →
      ∀ u ∈ us ++ [t], u ≠ [] := by
    intro us t hus ht u hu
    rcases List.mem_append.mp hu with hu | hu
    · exact hus u hu
    · exact List.mem_singleton.mp hu ▸ ht
  induction ts generalizing us vs s with
  | nil => simp [hexpected, hdefined]
  | cons t ts ih =>
      have ht := hts t (by simp)
      have htargets : (expectTarget s t).targets = s.targets := (quiet_expectTarget s t).targets
      have hus' : (expectTarget s t).get expectedTargets = joined (us ++ [t]) := by
        rw [expectTarget]
        split
        · rw [State.append, State.get_set_of_ne hne.symm, State.append, State.get_set_self,
            hexpected, appended_joined hus]
        · rw [State.append, State.get_set_of_ne hne', State.append, State.get_set_self,
            hexpected, appended_joined hus]
      have hrest : ∀ u ∈ ts, u ≠ [] := fun u hu => hts u (List.mem_cons_of_mem _ hu)
      by_cases hmem : t ∈ s.targets
      · have hvs' : (expectTarget s t).get targetsDefined = joined (vs ++ [t]) := by
          rw [expectTarget, if_pos (by exact hmem), State.append, State.get_set_self, State.append,
            State.get_set_of_ne hne, hdefined, appended_joined hvs]
        have hboth := ih hrest (hall hus ht) (hall hvs ht) hus' hvs'
        rw [htargets] at hboth
        simpa [hmem] using hboth
      · have hvs' : (expectTarget s t).get targetsDefined = joined vs := by
          rw [expectTarget, if_neg (by exact hmem), State.append, State.get_set_of_ne hne'',
            State.append, State.get_set_of_ne hne, hdefined]
        have hboth := ih hrest (hall hus ht) hvs hus' hvs'
        rw [htargets] at hboth
        simpa [hmem] using hboth

theorem quiet_forgetTargets (s : State) : Quiet Relied s (forgetTargets s) :=
  ((quiet_unset (by simp [scratch]) s).trans (quiet_unset (by simp [scratch]) _)).trans
    (quiet_unset (by simp [scratch]) _)

/-- The state in which the targets are tested. -/
theorem start_spec {F : TargetsFile} (hF : F.Proper) (s : State) :
    Quiet Relied (s.pushPolicies F.cmp0054) (F.start s) ∧
      (F.start s).get expectedTargets = joined F.names ∧
      (F.start s).get targetsDefined = joined (F.names.filter (· ∈ s.targets)) := by
  let s₁ := forgetTargets ((s.pushPolicies F.cmp0054).set importFileVersion "1".toList)
  have hquiet : Quiet Relied (s.pushPolicies F.cmp0054) s₁ :=
    (quiet_set (by simp [scratch]) _ _).trans (quiet_forgetTargets _)
  have hexpected : s₁.get expectedTargets = joined [] := State.get_unset_self _ _
  have hdefined : s₁.get targetsDefined = joined [] := by
    have hne : targetsDefined ≠ expectedTargets := by decide
    have hne' : targetsDefined ≠ targetsNotDefined := by decide
    exact (State.get_unset_of_ne hne _).trans ((State.get_unset_of_ne hne' _).trans
      (State.get_unset_self _ _))
  have hfold := foldl_expectTarget_spec (fun t ht => (hF.isElement t ht).ne_nil) (by simp) (by simp)
    hexpected hdefined
  exact ⟨hquiet.trans (.foldl (fun t _ s => quiet_expectTarget s t) s₁), hfold⟩

/-! ## The test whether the files exist -/

/-- From one state to the other the files of the targets `ts` were found. -/
structure Found (ts : List Text) (s s' : State) : Prop where
  policies : s'.policies = s.policies
  targets : s'.targets = s.targets
  props : s'.props = s.props
  vars : ∀ n, (∀ t ∈ ts, n ≠ importCheckFilesFor t) → s'.vars n = s.vars n
  vars_unset : ∀ t ∈ ts, s'.vars (importCheckFilesFor t) = none

variable (disk : Text → Bool) (file : Text)

theorem foldl_checkTarget_of_exists {ts : List Text} {s : State}
    (h : ∀ t ∈ ts, ∀ f ∈ elements (s.get (importCheckFilesFor t)), disk f = true) :
    ∃ s', ts.foldlM (checkTarget disk file) s = .ok s' ∧ Found ts s s' := by
  induction ts generalizing s with
  | nil => exact ⟨s, rfl, rfl, rfl, rfl, fun _ _ => rfl, by simp⟩
  | cons t ts ih =>
      have hnone : (elements (s.get (importCheckFilesFor t))).find? (fun f => !disk f) = none := by
        rw [List.find?_eq_none]
        intro f hf
        simp [h t (by simp) f hf]
      have hrest : ∀ u ∈ ts, ∀ f ∈ elements ((s.unset (importCheckFilesFor t)).get
          (importCheckFilesFor u)), disk f = true := by
        intro u hu f hf
        by_cases hut : u = t
        · rw [hut, State.get_unset_self] at hf
          cases hf
        · rw [State.get_unset_of_ne (fun hne => hut (importCheckFilesFor_inj.mp hne))] at hf
          exact h u (List.mem_cons_of_mem _ hu) f hf
      obtain ⟨s', hfold, hs'⟩ := ih hrest
      refine ⟨s', ?_, hs'.policies, hs'.targets, hs'.props, fun n hn => ?_, fun u hu => ?_⟩
      · rw [List.foldlM_cons, checkTarget, hnone]
        exact hfold
      · rw [hs'.vars n fun u hu => hn u (List.mem_cons_of_mem _ hu),
          State.vars_unset_of_ne (hn t (by simp))]
      · by_cases hmem : u ∈ ts
        · exact hs'.vars_unset u hmem
        · obtain rfl := (List.mem_cons.mp hu).resolve_right hmem
          have hne : ∀ v ∈ ts, importCheckFilesFor u ≠ importCheckFilesFor v := by
            rintro v hv hne
            exact hmem (importCheckFilesFor_inj.mp hne ▸ hv)
          rw [hs'.vars _ hne, State.vars_unset_self]

theorem foldl_checkTarget_of_missing {ts : List Text} {s : State} {t f : Text} (ht : t ∈ ts)
    (hf : f ∈ elements (s.get (importCheckFilesFor t))) (hmissing : disk f = false) :
    ∃ e, ts.foldlM (checkTarget disk file) s = .error e := by
  induction ts generalizing s with
  | nil => cases ht
  | cons u ts ih =>
      rw [List.foldlM_cons, checkTarget]
      cases hfind : (elements (s.get (importCheckFilesFor u))).find? fun f => !disk f with
      | some g => exact ⟨_, rfl⟩
      | none =>
          -- the missing file belongs to another target
          have hne : t ≠ u := by
            rintro rfl
            have hall := List.find?_eq_none.mp hfind f hf
            simp [hmissing] at hall
          refine ih ((List.mem_cons.mp ht).resolve_left hne) ?_
          rwa [State.get_unset_of_ne fun h => hne (importCheckFilesFor_inj.mp h)]

/-! ## The whole file -/

/-- The writes that give the targets their properties, but for the list of
their configurations. -/
def puts (F : TargetsFile) (pre : Text) : List (Put (Text × Text) Text) :=
  interfacePuts pre F.targets ++ F.imports.flatMap (Import.puts pre)

/-- The files that a targets file names. -/
def files (F : TargetsFile) (pre : Text) : List Text :=
  F.imports.flatMap fun i => i.files.map (pre ++ ·)

/-- From one state to the other the targets of `F` were added. -/
structure Loaded (F : TargetsFile) (pre : Text) (s s' : State) : Prop where
  policies : s'.policies = s.policies
  targets : s'.targets = s.targets ++ F.names
  vars : ∀ n, Relied n → ¬ IsCheck n → s'.vars n = s.vars n
  get_check : ∀ n, IsCheck n → s'.get n = []
  props_old : ∀ k, k.1 ∉ F.names → s'.props k = s.props k
  props_new : ∀ k, k.1 ∈ F.names → k.2 ≠ importedConfigurations →
    s'.props k = applyAll (F.puts pre) (fun _ => none) k

section

variable {F : TargetsFile} {s : State}

/-- The targets of `F` were added, and the files to look for are noted. -/
structure Noted (F : TargetsFile) (pre : Text) (s s' : State) : Prop where
  policies : s'.policies = s.policies
  targets : s'.targets = s.targets ++ F.names
  vars : ∀ n, Relied n → ¬ IsCheck n → s'.vars n = s.vars n
  check : s'.get importCheckTargets = joined (F.imports.map Import.target)
  files : ∀ t, s'.get (importCheckFilesFor t) = joined (filesOf pre F.imports t)
  props_old : ∀ k, k.1 ∉ F.names → s'.props k = s.props k
  props_new : ∀ k, k.1 ∈ F.names → k.2 ≠ importedConfigurations →
    s'.props k = applyAll (F.puts pre) (fun _ => none) k

theorem mem_imports {i : Import} (hF : F.Proper) (hi : i ∈ F.imports) :
    i.target ∈ F.names ∧ i.Proper := by
  obtain ⟨C, hC, hi⟩ := List.mem_flatMap.mp hi
  exact hF.imports C hC i hi

theorem isElement_filesOf {pre : Text} (hpre : IsElement pre) (hF : F.Proper) {t f : Text}
    (hf : f ∈ filesOf pre F.imports t) : IsElement f := by
  obtain ⟨i, hi, hf⟩ := List.mem_flatMap.mp hf
  split at hf
  · obtain ⟨g, hg, rfl⟩ := List.mem_map.mp hf
    exact hpre.append ((mem_imports hF hi).2.files g hg)
  · cases hf

/-- What the test for the files finds before it. -/
theorem importTargets_spec (hF : F.Proper) (hpre : IsElement (F.prefixOf file))
    (hdir : IsElement (directory file)) (hnone : ∀ t ∈ F.names, t ∉ s.targets)
    (hcheck : ∀ n, IsCheck n → s.get n = []) :
    ∃ s', F.importTargets disk file s = checkFiles disk file s' ∧
      Noted F (F.prefixOf file) s s' := by
  generalize hprefixOf : F.prefixOf file = pre at hpre
  obtain ⟨s₁, hadd, hadded⟩ := foldl_addTarget_spec pre hF.names_nodup
    (s := s.set importPrefix pre) fun t ht => hnone _ (List.mem_map_of_mem ht)
  obtain ⟨s₂, hload, himported⟩ := loadConfigurations_spec hpre.ne_nil hF hdir (s := s₁)
    fun t ht => hadded.targets ▸ List.mem_append_right _ ht
  have hscratch : importPrefix ∈ scratch := by simp [scratch]
  have hset := quiet_set hscratch pre s
  have hunset := quiet_unset hscratch s₂
  -- nothing but the imports writes to the lists of the test
  have hget : ∀ n, IsCheck n → s₁.get n = joined [] ∧
      (s₂.unset importPrefix).get n = s₂.get n := by
    intro n hn
    have hrelied : Relied n := fun h => not_isCheck_scratch n h hn
    rw [State.get, hadded.vars, hset.vars n hrelied, ← State.get, hcheck n hn, State.get,
      hunset.vars n hrelied, ← State.get]
    exact ⟨rfl, rfl⟩
  refine ⟨s₂.unset importPrefix, ?_, ?_⟩
  · rw [importTargets, hprefixOf]
    simp only [hadd, bind, Except.bind, hload]
  · constructor
    · exact himported.policies.trans hadded.policies
    · exact himported.targets.trans hadded.targets
    · intro n hn hcheck
      rw [hunset.vars n hn, himported.vars n hn hcheck, hadded.vars, hset.vars n hn]
    · have hn : IsCheck importCheckTargets := Or.inl rfl
      rw [(hget _ hn).2, himported.check [] (by simp) (hget _ hn).1, List.nil_append]
    · intro t
      have hn : IsCheck (importCheckFilesFor t) := Or.inr ⟨t, rfl⟩
      rw [(hget _ hn).2, himported.files t [] (by simp) (hget _ hn).1, List.nil_append]
    · intro k hk
      have hk' : k.1 ∉ F.imports.map Import.target := by
        intro hmem
        obtain ⟨i, hi, hik⟩ := List.mem_map.mp hmem
        exact hk (hik ▸ (mem_imports hF hi).1)
      exact (himported.props_other k hk').trans (hadded.props_old k hk)
    · intro k hk hconf
      refine (himported.props k hconf).trans ?_
      rw [puts, applyAll_append]
      exact applyAll_congr_apply _ (hadded.props_new k hk)

theorem mem_files_iff {pre f : Text} : f ∈ F.files pre ↔
    ∃ t ∈ F.imports.map Import.target, f ∈ filesOf pre F.imports t := by
  simp only [files, filesOf, List.mem_flatMap]
  constructor
  · rintro ⟨i, hi, hf⟩
    exact ⟨i.target, List.mem_map_of_mem hi, i, hi, by rwa [if_pos rfl]⟩
  · rintro ⟨t, -, i, hi, hf⟩
    split at hf
    · exact ⟨i, hi, hf⟩
    · cases hf

theorem filesOf_of_notMem {pre t : Text} (ht : t ∉ F.imports.map Import.target) :
    filesOf pre F.imports t = [] := by
  refine List.flatMap_eq_nil_iff.mpr fun i hi => if_neg ?_
  rintro rfl
  exact ht (List.mem_map_of_mem hi)

namespace Noted

variable {pre : Text} {s' : State}

theorem elements_check (h : Noted F pre s s') (hF : F.Proper) :
    elements (s'.get importCheckTargets) = F.imports.map Import.target := by
  rw [h.check]
  refine elements_joined fun t ht => ?_
  obtain ⟨i, hi, rfl⟩ := List.mem_map.mp ht
  exact (mem_imports hF hi).2.target

theorem elements_files (h : Noted F pre s s') (hF : F.Proper) (hpre : IsElement pre) (t : Text) :
    elements (s'.get (importCheckFilesFor t)) = filesOf pre F.imports t := by
  rw [h.files t]
  exact elements_joined fun f hf => isElement_filesOf hpre hF hf

end Noted

/-- Every file exists. -/
theorem importTargets_of_exists (hF : F.Proper) (hpre : IsElement (F.prefixOf file))
    (hdir : IsElement (directory file)) (hnone : ∀ t ∈ F.names, t ∉ s.targets)
    (hcheck : ∀ n, IsCheck n → s.get n = [])
    (hfiles : ∀ f ∈ F.files (F.prefixOf file), disk f = true) :
    ∃ s', F.importTargets disk file s = .ok s' ∧ Loaded F (F.prefixOf file) s s' := by
  obtain ⟨s₁, heq, hnoted⟩ := importTargets_spec disk file hF hpre hdir hnone hcheck
  obtain ⟨s₂, hfold, hfound⟩ := foldl_checkTarget_of_exists disk file (s := s₁)
    fun t (ht : t ∈ F.imports.map Import.target) f hf =>
      hfiles f (mem_files_iff.mpr ⟨t, ht, hnoted.elements_files hF hpre t ▸ hf⟩)
  refine ⟨s₂.unset importCheckTargets, ?_, ?_⟩
  · rw [heq, checkFiles, hnoted.elements_check hF, hfold]
    rfl
  · have hne : ∀ n, ¬ IsCheck n → ∀ t ∈ F.imports.map Import.target, n ≠ importCheckFilesFor t :=
      fun n hn t _ h => hn (Or.inr ⟨t, h⟩)
    constructor
    · exact hfound.policies.trans hnoted.policies
    · exact hfound.targets.trans hnoted.targets
    · intro n hn hcheck
      rw [State.vars_unset_of_ne fun h => hcheck (Or.inl h), hfound.vars n (hne n hcheck),
        hnoted.vars n hn hcheck]
    · rintro n (rfl | ⟨t, rfl⟩)
      · exact State.get_unset_self _ _
      · rw [State.get_unset_of_ne (importCheckFilesFor_ne t)]
        by_cases ht : t ∈ F.imports.map Import.target
        · rw [State.get, hfound.vars_unset t ht, Option.getD_none]
        · have hother : ∀ u ∈ F.imports.map Import.target,
              importCheckFilesFor t ≠ importCheckFilesFor u := by
            rintro u hu hne
            exact ht (importCheckFilesFor_inj.mp hne ▸ hu)
          rw [State.get, hfound.vars _ hother, ← State.get, hnoted.files t, filesOf_of_notMem ht,
            joined_nil]
    · exact fun k hk => (congrFun hfound.props k).trans (hnoted.props_old k hk)
    · exact fun k hk hconf => (congrFun hfound.props k).trans (hnoted.props_new k hk hconf)

/-- A file is missing. -/
theorem importTargets_of_missing (hF : F.Proper) (hpre : IsElement (F.prefixOf file))
    (hdir : IsElement (directory file)) (hnone : ∀ t ∈ F.names, t ∉ s.targets)
    (hcheck : ∀ n, IsCheck n → s.get n = []) {f : Text} (hf : f ∈ F.files (F.prefixOf file))
    (hmissing : disk f = false) : ∃ e, F.importTargets disk file s = .error e := by
  obtain ⟨s₁, heq, hnoted⟩ := importTargets_spec disk file hF hpre hdir hnone hcheck
  obtain ⟨t, ht, hft⟩ := mem_files_iff.mp hf
  obtain ⟨e, he⟩ := foldl_checkTarget_of_missing disk file (s := s₁) ht
    ((hnoted.elements_files hF hpre t).symm ▸ hft) hmissing
  refine ⟨e, ?_⟩
  rw [heq, checkFiles, hnoted.elements_check hF, he]
  rfl

/-! ## The targets file -/

/-- No variable has the name that a quoted list of targets would stand for. -/
structure Unshadowed (F : TargetsFile) (s : State) : Prop where
  empty : s.vars [] = none
  names : s.vars (joined F.names) = none

theorem operand_start (hF : F.Proper) (hnames : joined F.names ∉ scratch)
    (hs : Unshadowed F s) {ts : List Text} (hts : ts = [] ∨ ts = F.names) :
    (F.start s).operand (joined ts) = joined ts := by
  have hvars : ∀ n, Relied n → (F.start s).vars n = s.vars n := (start_spec hF s).1.vars
  apply State.operand_of_none
  rcases hts with rfl | rfl
  · rw [joined_nil, hvars _ nil_notMem_scratch]
    exact hs.empty
  · rw [hvars _ hnames]
    exact hs.names

/-- The policies are restored, and the version is forgotten. -/
theorem quiet_finish {s' : State} (h : Quiet Relied (s.pushPolicies F.cmp0054) s') :
    Quiet Relied s (finish s') where
  vars n hn := by
    have hne : n ≠ importFileVersion := by
      rintro rfl
      exact hn (by simp [scratch])
    exact (State.vars_unset_of_ne hne s').trans (h.vars n hn)
  policies := congrArg List.tail h.policies
  targets := h.targets
  props := h.props

/-- When the targets are defined, nothing happens. -/
theorem load_of_defined (hF : F.Proper) (hdefined : ∀ t ∈ F.names, t ∈ s.targets) :
    ∃ s', F.load disk file s = .ok s' ∧ Quiet Relied s s' := by
  obtain ⟨hquiet, hexpected, hget⟩ := start_spec hF s
  rw [List.filter_eq_self.mpr (by simpa using hdefined)] at hget
  refine ⟨finish (if F.tidies then forgetTargets (F.start s) else F.start s), ?_, ?_⟩
  · rw [load]
    simp only [hget, hexpected]
    exact if_pos trivial
  · apply quiet_finish
    split
    · exact hquiet.trans (quiet_forgetTargets _)
    · exact hquiet

/-- When none of the targets is defined, they are imported. -/
theorem load_of_undefined (hF : F.Proper) (hnames : joined F.names ∉ scratch)
    (hs : Unshadowed F s) (hnone : ∀ t ∈ F.names, t ∉ s.targets) :
    ∃ s', F.load disk file s = (F.importTargets disk file s').map finish ∧
      Quiet Relied (s.pushPolicies F.cmp0054) s' := by
  obtain ⟨hquiet, hexpected, hget⟩ := start_spec hF s
  rw [List.filter_eq_nil_iff.mpr (by simpa using hnone)] at hget
  have hne : joined F.names ≠ [] := fun h =>
    hF.names_ne_nil ((joined_eq_nil_iff fun t ht => (hF.isElement t ht).ne_nil).mp h)
  have hempty : (F.start s).operand [] = [] := operand_start hF hnames hs (Or.inl rfl)
  have hfull := operand_start hF hnames hs (Or.inr rfl)
  refine ⟨forgetTargets (F.start s), ?_, hquiet.trans (quiet_forgetTargets _)⟩
  rw [load]
  simp only [hget, hexpected, joined_nil, hempty, hfull]
  rw [if_neg hne.symm, if_neg (not_not_intro rfl)]
  cases F.importTargets disk file (forgetTargets (F.start s)) <;> rfl

/-- Behind a load that adds targets the policies are restored. -/
theorem loaded_finish {pre : Text} {s₁ s₂ : State} (hq : Quiet Relied (s.pushPolicies F.cmp0054) s₁)
    (hl : Loaded F pre s₁ s₂) : Loaded F pre s (finish s₂) where
  policies := congrArg List.tail (hl.policies.trans hq.policies)
  targets := hl.targets.trans (congrArg (· ++ F.names) hq.targets)
  vars n hn hcheck := by
    have hne : n ≠ importFileVersion := by
      rintro rfl
      exact hn (by simp [scratch])
    exact (State.vars_unset_of_ne hne s₂).trans ((hl.vars n hn hcheck).trans (hq.vars n hn))
  get_check n hn := by
    have hne : n ≠ importFileVersion := by
      rintro rfl
      exact not_isCheck_scratch _ (by simp [scratch]) hn
    exact (State.get_unset_of_ne hne s₂).trans (hl.get_check n hn)
  props_old k hk := (hl.props_old k hk).trans (congrFun hq.props k)
  props_new := hl.props_new

/-- The list of the targets is no variable that a load uses, and no variable has
its name. -/
structure Loadable (F : TargetsFile) (s : State) : Prop where
  proper : F.Proper
  notMem_scratch : joined F.names ∉ scratch
  unshadowed : Unshadowed F s
  undefined : ∀ t ∈ F.names, t ∉ s.targets
  get_check : ∀ n, IsCheck n → s.get n = []

theorem get_check_of_quiet {s₁ : State} (h : Loadable F s)
    (hq : Quiet Relied (s.pushPolicies F.cmp0054) s₁) : ∀ n, IsCheck n → s₁.get n = [] := by
  intro n hn
  rw [State.get, hq.vars n fun hmem => not_isCheck_scratch n hmem hn]
  exact h.get_check n hn

/-- A targets file whose files exist adds its targets. -/
theorem load_of_exists (h : Loadable F s) (hpre : IsElement (F.prefixOf file))
    (hdir : IsElement (directory file)) (hfiles : ∀ f ∈ F.files (F.prefixOf file), disk f = true) :
    ∃ s', F.load disk file s = .ok s' ∧ Loaded F (F.prefixOf file) s s' := by
  obtain ⟨s₁, hload, hquiet⟩ := load_of_undefined disk file h.proper
    h.notMem_scratch h.unshadowed h.undefined
  obtain ⟨s₂, himport, hloaded⟩ := importTargets_of_exists disk file h.proper hpre hdir
    (s := s₁) (fun t ht => hquiet.targets ▸ h.undefined t ht) (get_check_of_quiet h hquiet) hfiles
  exact ⟨finish s₂, by rw [hload, himport]; rfl, loaded_finish hquiet hloaded⟩

/-- A targets file one of whose files is missing ends the run. -/
theorem load_of_missing (h : Loadable F s) (hpre : IsElement (F.prefixOf file))
    (hdir : IsElement (directory file)) {f : Text} (hf : f ∈ F.files (F.prefixOf file))
    (hmissing : disk f = false) : ∃ e, F.load disk file s = .error e := by
  obtain ⟨s₁, hload, hquiet⟩ := load_of_undefined disk file h.proper
    h.notMem_scratch h.unshadowed h.undefined
  obtain ⟨e, he⟩ := importTargets_of_missing disk file h.proper hpre hdir (s := s₁)
    (fun t ht => hquiet.targets ▸ h.undefined t ht) (get_check_of_quiet h hquiet) hf hmissing
  exact ⟨e, by rw [hload, he]; rfl⟩

end

end TargetsFile

end CMake
