import ThirdpartyMsvc.CMake.TargetsFile

/-!
# What the configuration files leave behind

The configuration files give the targets their properties, and note for the
targets file which files it has to look for. `Imported` says what a list of
imports leaves behind, and composes; the targets file then finds the files it
was told of, each with the prefix (`checkFiles_spec`).
-/

namespace CMake

open Store

/-- The variables that loading a targets file uses for itself, but for those
about the files to look for. -/
def scratch : List Text :=
  [importFileVersion, targetsDefined, targetsNotDefined, expectedTargets, importPrefix,
    "_DIR".toList, "CONFIG_FILES".toList]

/-- The variables about the files to look for. -/
def IsCheck (n : Text) : Prop := n = importCheckTargets ∨ ∃ t, n = importCheckFilesFor t

theorem prefix_of_isCheck {n : Text} (hn : IsCheck n) : "_IMPORT_CHECK_".toList.isPrefixOf n := by
  rw [List.isPrefixOf_iff_prefix]
  rcases hn with rfl | ⟨t, rfl⟩
  · exact ⟨"TARGETS".toList, by decide +kernel⟩
  · exact ⟨"FILES_FOR_".toList ++ t, by rw [← List.append_assoc]; exact congrArg (· ++ t) rfl⟩

theorem not_isCheck_scratch : ∀ n ∈ scratch, ¬ IsCheck n := by
  have hall : (scratch.all fun n => !"_IMPORT_CHECK_".toList.isPrefixOf n) = true := by
    decide +kernel
  intro n hn hcheck
  have hpre := List.all_eq_true.mp hall n hn
  rw [prefix_of_isCheck hcheck] at hpre
  cases hpre

theorem nil_notMem_scratch : [] ∉ scratch := by
  decide +kernel

theorem importCheckFilesFor_inj {t u : Text} :
    importCheckFilesFor t = importCheckFilesFor u ↔ t = u := List.append_right_inj _

theorem importCheckFilesFor_ne (t : Text) : importCheckFilesFor t ≠ importCheckTargets := by
  intro h
  have hpre : ¬ "_IMPORT_CHECK_FILES_FOR_".toList <+: importCheckTargets := by decide +kernel
  exact hpre ⟨t, h⟩

/-- The variables that a load leaves as they are, or that `IsCheck` is about. -/
def Relied (n : Text) : Prop := n ∉ scratch

theorem quiet_set {name : Text} (hname : name ∈ scratch) (value : Text) (s : State) :
    Quiet Relied s (s.set name value) := .set (not_not_intro hname) value s

theorem quiet_unset {name : Text} (hname : name ∈ scratch) (s : State) :
    Quiet Relied s (s.unset name) := .unset (not_not_intro hname) s

/-! ## Properties -/

/-- The writes that give a target its properties. -/
def putsOf (pre target : Text) (properties : Properties) : List (Put (Text × Text) Text) :=
  properties.map fun p => ⟨(target, p.1), some (p.2 pre)⟩

theorem key_of_mem_putsOf {pre target : Text} {ps : Properties} {p : Put (Text × Text) Text}
    (hp : p ∈ putsOf pre target ps) : p.key.1 = target := by
  obtain ⟨q, -, rfl⟩ := List.mem_map.mp hp
  rfl

theorem setProperties_of_mem {target : Text} {s : State} (h : target ∈ s.targets) (pre : Text)
    (properties : Properties) : setProperties pre target properties s =
      .ok { s with props := applyAll (putsOf pre target properties) s.props } := by
  induction properties generalizing s with
  | nil => rfl
  | cons p properties ih =>
      rw [setProperties, List.foldlM_cons, State.setProperty_of_mem h]
      exact ih h

/-! ## Imports -/

namespace Import

/-- The names and files that an import puts into lists are elements there. -/
structure Proper (i : Import) : Prop where
  target : IsElement i.target
  files : ∀ f ∈ i.files, IsPlain f

def puts (pre : Text) (i : Import) : List (Put (Text × Text) Text) :=
  putsOf pre i.target i.properties

end Import

/-- The files that imports name for a target. -/
def filesOf (pre : Text) (is : List Import) (target : Text) : List Text :=
  is.flatMap fun i => if i.target = target then i.files.map (pre ++ ·) else []

theorem filesOf_append (pre : Text) (is js : List Import) (target : Text) :
    filesOf pre (is ++ js) target = filesOf pre is target ++ filesOf pre js target :=
  List.flatMap_append

/-- From one state to the other these imports were done, and nothing else. -/
structure Imported (pre : Text) (is : List Import) (s s' : State) : Prop where
  policies : s'.policies = s.policies
  targets : s'.targets = s.targets
  vars : ∀ n, n ∉ scratch → ¬ IsCheck n → s'.vars n = s.vars n
  check : ∀ ts, (∀ t ∈ ts, t ≠ []) → s.get importCheckTargets = joined ts →
    s'.get importCheckTargets = joined (ts ++ is.map Import.target)
  files : ∀ t fs, (∀ f ∈ fs, f ≠ []) → s.get (importCheckFilesFor t) = joined fs →
    s'.get (importCheckFilesFor t) = joined (fs ++ filesOf pre is t)
  props : ∀ k, k.2 ≠ importedConfigurations →
    s'.props k = applyAll (is.flatMap (Import.puts pre)) s.props k
  props_other : ∀ k, k.1 ∉ is.map Import.target → s'.props k = s.props k

theorem files_ne_nil {pre : Text} (hpre : pre ≠ []) (is : List Import) {t f : Text}
    (hf : f ∈ filesOf pre is t) : f ≠ [] := by
  obtain ⟨i, -, hf⟩ := List.mem_flatMap.mp hf
  split at hf
  · obtain ⟨g, -, rfl⟩ := List.mem_map.mp hf
    simp [hpre]
  · cases hf

namespace Imported

variable {pre : Text} {is js : List Import} {s s' s'' : State}

/-- A quiet step imports nothing. -/
theorem of_quiet (h : Quiet Relied s s') : Imported pre [] s s' where
  policies := h.policies
  targets := h.targets
  vars n hn _ := h.vars n hn
  check ts _ hs := by
    have hvars := h.vars importCheckTargets fun hn => not_isCheck_scratch _ hn (Or.inl rfl)
    rw [State.get, hvars, ← State.get, hs, List.map_nil, List.append_nil]
  files t fs _ hs := by
    have hvars := h.vars (importCheckFilesFor t) fun hn =>
      not_isCheck_scratch _ hn (Or.inr ⟨t, rfl⟩)
    rw [State.get, hvars, ← State.get, hs]
    exact congrArg joined (List.append_nil fs).symm
  props k _ := congrFun h.props k
  props_other k _ := congrFun h.props k

theorem trans (hpre : pre ≠ []) (his : ∀ i ∈ is, i.Proper) (h : Imported pre is s s')
    (h' : Imported pre js s' s'') : Imported pre (is ++ js) s s'' where
  policies := h'.policies.trans h.policies
  targets := h'.targets.trans h.targets
  vars n hn hcheck := (h'.vars n hn hcheck).trans (h.vars n hn hcheck)
  check ts hts hs := by
    have hall : ∀ t ∈ ts ++ is.map Import.target, t ≠ [] := by
      intro t ht
      rcases List.mem_append.mp ht with ht | ht
      · exact hts t ht
      · obtain ⟨i, hi, rfl⟩ := List.mem_map.mp ht
        exact (his i hi).target.ne_nil
    rw [h'.check _ hall (h.check ts hts hs), List.map_append, List.append_assoc]
  files t fs hfs hs := by
    have hall : ∀ f ∈ fs ++ filesOf pre is t, f ≠ [] := by
      intro f hf
      rcases List.mem_append.mp hf with hf | hf
      · exact hfs f hf
      · exact files_ne_nil hpre is hf
    rw [h'.files t _ hall (h.files t fs hfs hs), filesOf_append, List.append_assoc]
  props k hk := by
    rw [h'.props k hk, List.flatMap_append, applyAll_append]
    exact applyAll_congr_apply _ (h.props k hk)
  props_other k hk := by
    rw [List.map_append, List.mem_append, not_or] at hk
    exact (h'.props_other k hk.2).trans (h.props_other k hk.1)

theorem trans_quiet (hpre : pre ≠ []) (his : ∀ i ∈ is, i.Proper) (h : Imported pre is s s')
    (h' : Quiet Relied s' s'') : Imported pre is s s'' := by
  have htrans := h.trans hpre his (of_quiet h')
  rwa [List.append_nil] at htrans

end Imported

/-- One import. -/
theorem Import.run_spec {pre : Text} {i : Import} {s : State} (h : i.target ∈ s.targets)
    (configuration : Text) :
    ∃ s', i.run pre configuration s = .ok s' ∧ Imported pre [i] s s' := by
  -- the state behind the properties
  obtain ⟨s₁, hrun, hvars, hpolicies, htargets, hprops, hother⟩ : ∃ s₁ : State,
      i.run pre configuration s = .ok ((s₁.append importCheckTargets [i.target]).append
        (importCheckFilesFor i.target) (i.files.map (pre ++ ·))) ∧
      s₁.vars = s.vars ∧ s₁.policies = s.policies ∧ s₁.targets = s.targets ∧
      (∀ k, k.2 ≠ importedConfigurations → s₁.props k = applyAll (i.puts pre) s.props k) ∧
      ∀ k, k.1 ≠ i.target → s₁.props k = s.props k := by
    refine ⟨⟨s.vars, s.policies, s.targets, applyAll (i.puts pre)
      (Function.update s.props (i.target, importedConfigurations) (some (appended
        ((s.props (i.target, importedConfigurations)).getD []) [configuration])))⟩, ?_, rfl, rfl,
      rfl, fun k hk => applyAll_congr_apply _ (Function.update_of_ne ?_ _ _), fun k hk => ?_⟩
    · rw [Import.run, State.appendProperty_of_mem h]
      simp only [bind, Except.bind]
      rw [setProperties_of_mem (by exact h)]
      rfl
    · exact fun hkey => hk (congrArg Prod.snd hkey)
    · refine (applyAll_of_notMem (fun p hp hpk => hk ?_) _).trans (Function.update_of_ne ?_ _ _)
      · rw [← hpk]
        exact key_of_mem_putsOf hp
      · exact fun hkey => hk (congrArg Prod.fst hkey)
  have hne := importCheckFilesFor_ne
  refine ⟨_, hrun, hpolicies, htargets, ?_, ?_, ?_, ?_, fun k hk => hother k (by simpa using hk)⟩
  · intro n hn hcheck
    rw [State.append, State.vars_set_of_ne (fun h => hcheck (Or.inr ⟨_, h⟩)), State.append,
      State.vars_set_of_ne (fun h => hcheck (Or.inl h)), hvars]
  · intro ts hts hs
    rw [State.append, State.get_set_of_ne (hne _).symm, State.append, State.get_set_self, State.get,
      hvars, ← State.get, hs, appended_joined hts]
    rfl
  · intro t fs hfs hs
    have hfirst : (s₁.append importCheckTargets [i.target]).get (importCheckFilesFor t) =
        joined fs := by
      rw [State.append, State.get_set_of_ne (hne t), State.get, hvars, ← State.get, hs]
    rw [State.append, filesOf, List.flatMap_singleton]
    by_cases ht : i.target = t
    · rw [if_pos ht, ← appended_joined hfs, ← hfirst, ht, State.get_set_self]
    · rw [State.get_set_of_ne (fun h => ht (importCheckFilesFor_inj.mp h).symm), hfirst, if_neg ht,
        List.append_nil]
  · intro k hk
    rw [List.flatMap_singleton]
    exact hprops k hk

theorem foldl_run_spec {pre : Text} (hpre : pre ≠ []) (configuration : Text) {is : List Import}
    (his : ∀ i ∈ is, i.Proper) {s : State} (htargets : ∀ i ∈ is, i.target ∈ s.targets) :
    ∃ s', is.foldlM (Import.run pre configuration) s = .ok s' ∧ Imported pre is s s' := by
  induction is generalizing s with
  | nil => exact ⟨s, rfl, .of_quiet (.refl s)⟩
  | cons i is ih =>
      obtain ⟨s₁, hrun, hi⟩ := Import.run_spec (htargets i (by simp)) configuration
      obtain ⟨s₂, hfold, htail⟩ := ih (fun j hj => his j (List.mem_cons_of_mem _ hj)) (s := s₁)
        (fun j hj => hi.targets ▸ htargets j (List.mem_cons_of_mem _ hj))
      refine ⟨s₂, ?_, hi.trans hpre (fun j hj => ?_) htail⟩
      · rw [List.foldlM_cons, hrun]
        exact hfold
      · obtain rfl := List.mem_singleton.mp hj
        exact his j List.mem_cons_self

/-- A configuration file. -/
theorem ConfigurationFile.run_spec {pre : Text} (hpre : pre ≠ []) {C : ConfigurationFile}
    (hC : ∀ i ∈ C.imports, i.Proper) {s : State}
    (htargets : ∀ i ∈ C.imports, i.target ∈ s.targets) :
    ∃ s', C.run pre s = .ok s' ∧ Imported pre C.imports s s' := by
  have hversion : importFileVersion ∈ scratch := by simp [scratch]
  obtain ⟨s₁, hfold, himported⟩ := foldl_run_spec hpre C.configuration hC
    (s := s.set importFileVersion "1".toList) htargets
  refine ⟨s₁.unset importFileVersion, ?_, ?_⟩
  · rw [ConfigurationFile.run]
    simp only [hfold]
    rfl
  · have hset := (Imported.of_quiet (quiet_set hversion "1".toList s)).trans hpre (by simp)
      himported
    exact hset.trans_quiet hpre hC (quiet_unset hversion s₁)

/-! ## The loop over the configuration files -/

namespace TargetsFile

/-- Everything that a targets file puts into a list is an element there, and the
names of its configuration files and of its targets are different. -/
structure Proper (F : TargetsFile) : Prop where
  names_ne_nil : F.names ≠ []
  names_nodup : F.names.Nodup
  isElement : ∀ t ∈ F.names, IsElement t
  configurations_nodup : (F.configurations.map ConfigurationFile.fileName).Nodup
  fileName : ∀ C ∈ F.configurations, IsPlain C.fileName
  imports : ∀ C ∈ F.configurations, ∀ i ∈ C.imports, i.target ∈ F.names ∧ i.Proper

/-- The imports of all configurations. -/
def imports (F : TargetsFile) : List Import := F.configurations.flatMap ConfigurationFile.imports

variable {F : TargetsFile}

theorem find_configuration (hF : F.Proper) (dir : Text) {C : ConfigurationFile}
    (hC : C ∈ F.configurations) :
    F.configurations.find? (fun D => pathIn dir D = pathIn dir C) = some C := by
  have hpath : ∀ D, pathIn dir D = pathIn dir C ↔ D.fileName = C.fileName := fun D => by
    simp [pathIn]
  obtain ⟨Cs, Ds, hsplit⟩ := List.append_of_mem hC
  have hnodup := hF.configurations_nodup
  rw [hsplit, List.map_append, List.map_cons, List.nodup_append] at hnodup
  rw [hsplit, List.find?_append, List.find?_cons_of_pos (by simp), List.find?_eq_none.mpr]
  · rfl
  · intro D hD hsame
    exact hnodup.2.2 _ (List.mem_map_of_mem hD) _ List.mem_cons_self
      ((hpath D).mp (of_decide_eq_true hsame))

theorem foldl_includeFile_spec {pre : Text} (hpre : pre ≠ []) (hF : F.Proper) (dir : Text)
    {Cs : List ConfigurationFile} (hCs : Cs ⊆ F.configurations) {s : State}
    (htargets : ∀ t ∈ F.names, t ∈ s.targets) :
    ∃ s', (Cs.map (pathIn dir)).foldlM (F.includeFile dir pre) s = .ok s' ∧
      Imported pre (Cs.flatMap ConfigurationFile.imports) s s' := by
  induction Cs generalizing s with
  | nil => exact ⟨s, rfl, .of_quiet (.refl s)⟩
  | cons C Cs ih =>
      have hC := hCs List.mem_cons_self
      have hproper : ∀ i ∈ C.imports, i.Proper := fun i hi => (hF.imports C hC i hi).2
      obtain ⟨s₁, hrun, himported⟩ := ConfigurationFile.run_spec hpre hproper
        (fun i hi => htargets _ (hF.imports C hC i hi).1)
      obtain ⟨s₂, hfold, htail⟩ := ih (fun D hD => hCs (List.mem_cons_of_mem _ hD)) (s := s₁)
        (fun t ht => himported.targets ▸ htargets t ht)
      refine ⟨s₂, ?_, himported.trans hpre hproper htail⟩
      rw [List.map_cons, List.foldlM_cons, includeFile, find_configuration hF dir hC]
      simp only [hrun]
      exact hfold

/-- The configuration files are found when the name of their directory is an
element. -/
theorem loadConfigurations_spec {file pre : Text} (hpre : pre ≠ []) (hF : F.Proper)
    (hfile : IsElement (directory file)) {s : State} (htargets : ∀ t ∈ F.names, t ∈ s.targets) :
    ∃ s', F.loadConfigurations file pre s = .ok s' ∧ Imported pre F.imports s s' := by
  have hpaths : ∀ p ∈ F.configurations.map (pathIn (directory file)), IsElement p := by
    intro p hp
    obtain ⟨C, hC, rfl⟩ := List.mem_map.mp hp
    refine hfile.append fun c hc => ?_
    rcases List.mem_cons.mp hc with rfl | hc
    · decide
    · exact hF.fileName C hC c hc
  have hdir : "_DIR".toList ∈ scratch := by simp [scratch]
  have hfiles : "CONFIG_FILES".toList ∈ scratch := by simp [scratch]
  let s₀ := (s.set "_DIR".toList (directory file)).set "CONFIG_FILES".toList
    (joined (F.configurations.map (pathIn (directory file))))
  have hquiet : Quiet Relied s s₀ := (quiet_set hdir _ s).trans (quiet_set hfiles _ _)
  obtain ⟨s₁, hfold, himported⟩ := foldl_includeFile_spec hpre hF (directory file)
    (List.Subset.refl F.configurations) (s := s₀) htargets
  refine ⟨s₁, ?_, (Imported.of_quiet hquiet).trans hpre (by simp) himported⟩
  rw [loadConfigurations]
  simp only [State.get_set_self]
  rw [elements_joined hpaths]
  exact hfold

end TargetsFile

end CMake
