import ThirdpartyMsvc.Build.BuildDir
import Mathlib.Data.List.GetD

/-!
# The projects that are built

build-and-install.cmd builds each of its projects and then the project
INSTALL.vcxproj of the directory that this project is in, in the release and in
the debug configuration. The projects come from the nine parameters of a batch
file, so the ones behind the eighth are never built, and the path of
INSTALL.vcxproj is put into a command line without quotation marks.
`started_buildAndInstall_iff` says when msbuild is started as it should be.
-/

namespace Build

open Shell Shell.State

/-! ## Words -/

/-- The name of a project as it stands on a command line: one word, without the
characters that a command line or the set of a loop gives a meaning to. -/
structure IsProject (P : Text) : Prop where
  ne_nil : P ≠ []
  chars : ∀ c ∈ P, isDelim c = false ∧
    c ∉ ['\x22', '%', '&', '|', '<', '>', '^', '*', '?', '(', ')']

theorem IsProject.notQuote {P : Text} (hP : IsProject P) :
    ∀ c ∈ P, isDelim c = false ∧ c ≠ '\x22' := by
  intro c hc
  obtain ⟨hdelim, hother⟩ := hP.chars c hc
  refine ⟨hdelim, ?_⟩
  rintro rfl
  simp at hother

theorem words_space (t : Text) : words (' ' :: t) = words t := rfl

theorem words_eq_singleton {w : Text} (hne : w ≠ [])
    (hw : ∀ c ∈ w, isDelim c = false ∧ c ≠ '\x22') : words w = [w] := by
  have h := wordsFrom_append w [] hw []
  rw [List.append_nil, List.append_nil] at h
  rw [words, h, wordsFrom, if_neg (by simp [hne]), List.reverse_reverse]

/-- The words of a line that was put together from names, some of them empty. -/
theorem words_intercalate (ws : List Text) (hws : ∀ w ∈ ws, w = [] ∨ IsProject w) :
    words ([' '].intercalate ws) = ws.filter (· ≠ []) := by
  induction ws with
  | nil => rfl
  | cons w ws ih =>
      have hrest := ih fun v hv => hws v (by simp [hv])
      cases ws with
      | nil =>
          rcases hws w (by simp) with rfl | hw
          · rfl
          · simp [words_eq_singleton hw.ne_nil hw.notQuote, hw.ne_nil]
      | cons v ws =>
          rw [List.intercalate_cons_cons, List.append_assoc, List.singleton_append]
          rcases hws w (by simp) with rfl | hw
          · rw [List.nil_append, words_space, hrest]
            rfl
          · rw [words_append_space w hw.ne_nil hw.notQuote, hrest,
              List.filter_cons_of_pos (a := w) (by simp [hw.ne_nil])]

/-- Outside quotation marks no word has a delimiter in it. -/
theorem notDelim_of_mem_wordsFrom {acc t w : Text} (hquote : '\x22' ∉ t)
    (hacc : ∀ c ∈ acc, isDelim c = false) (hw : w ∈ wordsFrom false acc t) :
    ∀ c ∈ w, isDelim c = false := by
  have hread : ∀ {acc : Text}, (∀ c ∈ acc, isDelim c = false) →
      w ∈ (if acc = [] then [] else [acc.reverse]) → ∀ c ∈ w, isDelim c = false := by
    intro acc hacc hw c hc
    split at hw
    · cases hw
    · obtain rfl := List.mem_singleton.mp hw
      exact hacc c (List.mem_reverse.mp hc)
  induction t generalizing acc with
  | nil => exact hread hacc hw
  | cons d t ih =>
      have hd : d ≠ '\x22' := fun h => hquote (by simp [h])
      have ht : '\x22' ∉ t := fun h => hquote (List.mem_cons_of_mem _ h)
      rw [wordsFrom, if_neg hd] at hw
      cases hdelim : isDelim d with
      | true =>
          rw [hdelim, if_pos (by rfl)] at hw
          rcases List.mem_append.mp hw with hw | hw
          · exact hread hacc hw
          · exact ih ht (by simp) hw
      | false =>
          rw [hdelim, if_neg (by simp)] at hw
          refine ih ht (fun c hc => ?_) hw
          rcases List.mem_cons.mp hc with rfl | hc
          · exact hdelim
          · exact hacc c hc

/-- A text without quotation marks is its first word if and only if nothing in it
delimits words. -/
theorem param_words_eq_iff {t : Text} (hquote : '\x22' ∉ t) (hne : t ≠ []) :
    param (words t) 1 = t ↔ ∀ c ∈ t, isDelim c = false := by
  constructor
  · intro h
    cases hwords : words t with
    | nil => exact absurd (by rw [← h, hwords]; rfl) hne
    | cons w ws =>
        rw [hwords, param_cons_one] at h
        subst h
        have hnil : ∀ c ∈ ([] : Text), isDelim c = false := fun c hc => absurd hc List.not_mem_nil
        refine notDelim_of_mem_wordsFrom hquote hnil ?_
        rw [← words, hwords]
        exact List.mem_cons_self
  · intro h
    rw [words_eq_singleton hne fun c hc => ⟨h c hc, fun h => hquote (h ▸ hc)⟩, param_cons_one]

/-- What is left of the first entries of a list, with nothing behind its end. -/
theorem filter_getD_range {Ps : List Text} (hPs : ∀ P ∈ Ps, P ≠ []) (n : ℕ) :
    ((List.range n).map fun i => Ps.getD i []).filter (· ≠ []) = Ps.take n := by
  induction n generalizing Ps with
  | zero => rfl
  | succ n ih =>
      rw [List.range_succ_eq_map, List.map_cons, List.map_map]
      cases Ps with
      | nil => simp
      | cons P Ps =>
          rw [List.filter_cons_of_pos (by simpa using hPs P (by simp)), List.take_succ_cons,
            ← ih fun Q hQ => hPs Q (List.mem_cons_of_mem _ hQ)]
          rfl

/-- The parameters from the second one on are the first eight projects. -/
theorem words_paramsFrom_two (B : Text) {Ps : List Text} (hPs : ∀ P ∈ Ps, IsProject P) :
    words (paramsFrom (B :: Ps) 2) = Ps.take 8 := by
  have hparams : (List.range' 2 (10 - 2)).map (param (B :: Ps)) =
      (List.range 8).map fun i => Ps.getD i [] := by
    rw [List.range_eq_range', List.range'_eq_map_range (s := 2), List.map_map,
      ← List.range_eq_range']
    refine List.map_congr_left fun i _ => ?_
    rw [Function.comp_apply, param, show 2 + i - 1 = i + 1 by omega, List.getD_cons_succ]
  rw [paramsFrom, hparams, words_intercalate, filter_getD_range fun P hP => (hPs P hP).ne_nil]
  intro w hw
  obtain ⟨i, -, rfl⟩ := List.mem_map.mp hw
  rcases Nat.lt_or_ge i Ps.length with hi | hi
  · rw [List.getD_eq_getElem _ _ hi]
    exact Or.inr (hPs _ (List.getElem_mem hi))
  · exact Or.inl (List.getD_eq_default _ _ hi)

/-! ## What is started -/

/-- The project that installs what `P` builds. -/
def installProject (Q : Places) (P : Text) : Text := Q.pathPart P ++ "INSTALL.vcxproj".toList

/-- The two runs of msbuild for one project, in the current directory. -/
def bothConfigurations (Q : Places) (P : Text) : List Started :=
  [⟨"msbuild", "/nologo /p:Configuration=Release ".toList ++ P, Q.current⟩,
    ⟨"msbuild", "/nologo /p:Configuration=Debug ".toList ++ P, Q.current⟩]

theorem started_buildProject (s : State) {P : Text} (hP : IsProject P) :
    (buildProject s P).started = s.started ++ (bothConfigurations s.places P ++
      bothConfigurations s.places (param (words (installProject s.places P)) 1)) := by
  have hword : param (words P) 1 = P := by
    rw [words_eq_singleton hP.ne_nil hP.notQuote, param_cons_one]
  simp [buildProject, buildReleaseAndDebug, bothConfigurations, installProject, hword,
    State.start]

theorem started_foldl_buildProject (s : State) {Ps : List Text} (hPs : ∀ P ∈ Ps, IsProject P) :
    (Ps.foldl buildProject s).started = s.started ++ Ps.flatMap fun P =>
      bothConfigurations s.places P ++
        bothConfigurations s.places (param (words (installProject s.places P)) 1) := by
  induction Ps generalizing s with
  | nil => simp
  | cons P Ps ih =>
      rw [List.foldl_cons, ih _ fun Q hQ => hPs Q (List.mem_cons_of_mem _ hQ),
        (OnlyMsbuild.buildProject s P).places, started_buildProject s (hPs P (by simp)),
        List.flatMap_cons, List.append_assoc]

/-- msbuild as it is started, with the first word of the path of INSTALL.vcxproj. -/
theorem started_buildAndInstall (dirsToo : Bool) (B : Text) {Ps : List Text}
    (hPs : ∀ P ∈ Ps, IsProject P) (s : State) :
    (buildAndInstall dirsToo (B :: Ps) s).started = s.started ++ (Ps.take 8).flatMap fun P =>
      bothConfigurations (s.places.cd B) P ++ bothConfigurations (s.places.cd B)
        (param (words (installProject (s.places.cd B) P)) 1) := by
  let t := ((s.setlocal.set "build_dir" B).set "project_files" (paramsFrom (B :: Ps) 2)).cd B
  have hstarted : (buildAndInstall dirsToo (B :: Ps) s).started =
      ((words (paramsFrom (B :: Ps) 2)).foldl buildProject t).started := by
    rw [buildAndInstall, started_endlocal]
    rfl
  rw [hstarted, words_paramsFrom_two B hPs,
    started_foldl_buildProject t fun P hP => hPs P (List.mem_of_mem_take hP)]
  rfl

/-! ## What should be started -/

/-- A project is built and installed: its two runs of msbuild and the two of the
project INSTALL.vcxproj beside it. -/
def builtAndInstalled (Q : Places) (P : Text) : List Started :=
  bothConfigurations Q P ++ bothConfigurations Q (installProject Q P)

/-- The names of the current directories have none of the characters in them that
a command line gives a meaning to; delimiters they may have. -/
def PlainDirs (Q : Places) : Prop :=
  ∀ d, ∀ n ∈ Q.cwd d, ∀ c ∈ n, c ∉ ['\x22', '%', '&', '|', '<', '>', '^']

theorem splitDrive_subset (path : Text) : (splitDrive path).2 ⊆ path := by
  rw [splitDrive.eq_def]
  split
  · exact fun c hc => by simp [hc]
  · exact List.Subset.refl _

theorem quote_notMem_pathPart {Q : Places} (hQ : PlainDirs Q) {path : Text}
    (hpath : '\x22' ∉ path) : '\x22' ∉ Q.pathPart path := by
  have hrest : '\x22' ∉ (splitDrive path).2.rdropWhile (· ≠ '\\') := fun h =>
    hpath (splitDrive_subset path ((List.rdropWhile_prefix _ _).subset h))
  rw [Places.pathPart]
  split
  · exact List.not_mem_nil
  · split
    · exact hrest
    · intro h
      rcases List.mem_cons.mp h with h | h
      · cases h
      · rcases List.mem_append.mp h with h | h
        · obtain ⟨n, hn, h⟩ := List.mem_flatMap.mp h
          rcases List.mem_append.mp h with h | h
          · exact hQ _ n hn _ h (by simp)
          · simp at h
        · exact hrest h

/-- INSTALL.vcxproj is named as it should be if and only if nothing in the path
of the project delimits words. -/
theorem param_installProject_iff {Q : Places} (hQ : PlainDirs Q) {P : Text} (hP : IsProject P) :
    param (words (installProject Q P)) 1 = installProject Q P ↔
      ∀ c ∈ Q.pathPart P, isDelim c = false := by
  have hfile : ∀ c ∈ "INSTALL.vcxproj".toList, isDelim c = false ∧ c ≠ '\x22' :=
    Text.forall_mem_of_all (by decide)
  have hquote : '\x22' ∉ installProject Q P := by
    intro h
    rcases List.mem_append.mp h with h | h
    · exact quote_notMem_pathPart hQ (fun h => (hP.notQuote _ h).2 rfl) h
    · exact (hfile _ h).2 rfl
  rw [param_words_eq_iff hquote (by simp [installProject]), installProject]
  refine ⟨fun h c hc => h c (List.mem_append_left _ hc), fun h c hc => ?_⟩
  rcases List.mem_append.mp hc with hc | hc
  · exact h c hc
  · exact (hfile c hc).1

theorem flatMap_inj_of_length {α β : Type*} {f g : α → List β}
    (hlength : ∀ a, (f a).length = (g a).length) {l : List α} :
    l.flatMap f = l.flatMap g ↔ ∀ a ∈ l, f a = g a := by
  induction l with
  | nil => simp
  | cons a l ih =>
      rw [List.flatMap_cons, List.flatMap_cons, List.forall_mem_cons, ← ih]
      exact ⟨fun h => List.append_inj h (hlength a), fun h => by rw [h.1, h.2]⟩

theorem bothConfigurations_inj {Q : Places} {P P' : Text} :
    bothConfigurations Q P = bothConfigurations Q P' ↔ P = P' := by
  simp [bothConfigurations]

theorem isProject_allBuild : ∀ P ∈ ["ALL_BUILD.vcxproj".toList], IsProject P := by
  intro P hP
  obtain rfl := List.mem_singleton.mp hP
  exact ⟨by decide, Text.forall_mem_of_all (by decide)⟩

/-- A machine with the directory `work` on every drive, where every directory
exists. -/
def inDirectory (work : Text) : State :=
  ⟨⟨'C', fun _ => [work], fun _ => true⟩, fun _ => [], [], []⟩

theorem cwd_inDirectory (work : Text) (d : Char) :
    ((inDirectory work).places.cd "build".toList).cwd d =
      if d = 'C' then [work, "build".toList] else [work] := by
  have hexists : (inDirectory work).places.existsDir "build".toList = true := rfl
  rw [Places.cd, if_pos hexists]
  exact Function.update_apply _ _ _ _

theorem plainDirs_inDirectory {work : Text}
    (hwork : ∀ c ∈ work, c ∉ ['\x22', '%', '&', '|', '<', '>', '^']) :
    PlainDirs ((inDirectory work).places.cd "build".toList) := by
  have hbuild : ∀ c ∈ "build".toList, c ∉ ['\x22', '%', '&', '|', '<', '>', '^'] :=
    Text.forall_mem_of_all (by decide)
  intro d n hn
  rw [cwd_inDirectory] at hn
  split at hn
  · rcases List.mem_cons.mp hn with rfl | hn
    · exact hwork
    · obtain rfl := List.mem_singleton.mp hn
      exact hbuild
  · obtain rfl := List.mem_singleton.mp hn
    exact hwork

end Build
