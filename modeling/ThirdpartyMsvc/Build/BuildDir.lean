import ThirdpartyMsvc.Build.CMake

/-!
# Where cmake and msbuild run

The directory in which cmake runs is computed from the text of the source root
alone, up to the current drive: it is `build` beside the last component of the
root, or inside it when the root ends in a separator (`SourceRoot.configured`).
From there `buildsIn_iff` reads off when the two steps agree.
-/

namespace Build

open Shell Shell.State

namespace SourceRoot

variable (S : SourceRoot)

/-- The components that `%~p1` keeps. -/
def kept : List Text := if S.trailing then S.components else S.components.dropLast

/-- The directory that cmake-configure makes, with the given current drive. -/
def configured (drive : Char) : Location := ⟨drive, S.kept ++ ["build".toList]⟩

theorem slash_notMem {n : Text} (h : n ∈ S.components) : n ≠ [] ∧ '\\' ∉ n := by
  have hname := S.names n h
  refine ⟨hname.ne_nil, fun hc => ?_⟩
  simpa using (hname.chars '\\' hc).2

theorem kept_subset {n : Text} (h : n ∈ S.kept) : n ∈ S.components := by
  rw [kept] at h
  split at h
  · exact h
  · exact List.dropLast_subset _ h

/-- `%~p1` of the root. -/
theorem pathPart_text (P : Places) :
    P.pathPart S.text = S.kept.flatMap ('\\' :: ·) ++ ['\\'] := by
  have hrest : S.path.head? = some '\\' := by
    rw [path]
    cases hc : S.components with
    | nil => simp [S.root_trailing hc]
    | cons n ns => simp
  have hdrop : S.path.rdropWhile (· ≠ '\\') = S.kept.flatMap ('\\' :: ·) ++ ['\\'] := by
    rw [path, kept]
    cases ht : S.trailing with
    | true => rw [if_pos rfl, if_pos rfl, List.rdropWhile_concat_neg _ _ _ (by simp)]
    | false =>
        rcases List.eq_nil_or_concat S.components with hc | ⟨init, n, hc⟩
        · rw [S.root_trailing hc] at ht
          cases ht
        · have hn := S.slash_notMem (n := n) (by simp [hc])
          have hsplit : S.components.flatMap ('\\' :: ·) ++ (if false = true then ['\\'] else []) =
              init.flatMap ('\\' :: ·) ++ '\\' :: n := by
            simp [hc]
          rw [hsplit, rdropWhile_slash _ hn.2, if_neg (by simp), hc]
          simp
  rw [Places.pathPart, text, if_neg (by simp)]
  simp only [splitDrive]
  rw [if_pos hrest, hdrop]

theorem build_notMem : "build".toList ≠ [] ∧ '\\' ∉ "build".toList ∧ ':' ∉ "build".toList := by
  decide

/-- The directory that `%~p1build` denotes. -/
theorem resolve_configured (P : Places) :
    P.resolve (P.pathPart S.text ++ "build".toList) = S.configured P.drive.toUpper := by
  have hnames : ∀ n ∈ S.kept ++ ["build".toList], n ≠ [] ∧ '\\' ∉ n ∧ ':' ∉ n := by
    intro n hn
    rcases List.mem_append.mp hn with hn | hn
    · have hmem := S.kept_subset hn
      refine ⟨(S.slash_notMem hmem).1, (S.slash_notMem hmem).2, fun hc => ?_⟩
      simpa using ((S.names n hmem).chars ':' hc).2
    · obtain rfl := List.mem_singleton.mp hn
      exact build_notMem
  have htext : P.pathPart S.text ++ "build".toList =
      (S.kept ++ ["build".toList]).flatMap ('\\' :: ·) := by
    rw [S.pathPart_text, List.flatMap_append, List.append_assoc]
    rfl
  rw [htext, P.resolve_rooted (by simp) hnames, configured]

/-- The directory that `%1\build` denotes. -/
theorem resolve_buildDir (P : Places) :
    P.resolve (S.text ++ "\\build".toList) = S.buildDir := by
  have hrest : (S.path ++ "\\build".toList).head? = some '\\' := by
    rw [path]
    cases hc : S.components with
    | nil => simp [S.root_trailing hc]
    | cons n ns => simp
  have hcomponents : Shell.components (S.path ++ "\\build".toList) =
      S.components ++ ["build".toList] := by
    have htail : Shell.components ((if S.trailing then ['\\'] else []) ++ "\\build".toList) =
        ["build".toList] := by
      cases S.trailing <;> decide
    rw [path, List.append_assoc, components_flatMap (fun n hn => S.slash_notMem hn), htail]
    cases S.trailing <;> simp
  rw [text, List.cons_append, List.cons_append, P.resolve_drive _ hrest, hcomponents, buildDir]

/-- The two directories are the same exactly when the root ends in a separator
and lies on the current drive. -/
theorem configured_eq_buildDir_iff (drive : Char) :
    S.configured drive = S.buildDir ↔ S.trailing = true ∧ drive = S.drive.toUpper := by
  rw [configured, buildDir, Location.mk.injEq, List.append_left_inj, kept, and_comm]
  apply and_congr_left'
  cases ht : S.trailing with
  | true => simp
  | false =>
      have hne : S.components ≠ [] := fun hc => by simp [S.root_trailing hc] at ht
      have hpos := List.length_pos_iff.mpr hne
      refine ⟨fun h => ?_, fun h => by cases h⟩
      have hlength := congrArg List.length h
      rw [if_neg (by simp), List.length_dropLast] at hlength
      omega

/-- The root is one word of a command line. -/
theorem isWord_text : S.text ≠ [] ∧ ∀ c ∈ S.text, isDelim c = false ∧ c ≠ '\x22' := by
  refine ⟨by simp [text], ?_⟩
  have hslash : isDelim '\\' = false ∧ '\\' ≠ '\x22' := by decide
  have hnames : ∀ c ∈ S.components.flatMap ('\\' :: ·), isDelim c = false ∧ c ≠ '\x22' := by
    intro c hc
    obtain ⟨n, hn, hc⟩ := List.mem_flatMap.mp hc
    rcases List.mem_cons.mp hc with rfl | hc
    · exact hslash
    · obtain ⟨hdelim, hother⟩ := (S.names n hn).chars c hc
      refine ⟨hdelim, ?_⟩
      rintro rfl
      simp at hother
  intro c hc
  rw [text, List.mem_cons, List.mem_cons, path, List.mem_append] at hc
  rcases hc with rfl | rfl | hc | hc
  · have hdrive : ∀ d : Char, d.isAlpha = false → S.drive ≠ d := by
      rintro d hd rfl
      rw [S.drive_alpha] at hd
      cases hd
    refine ⟨?_, hdrive _ rfl⟩
    simp [isDelim, hdrive ' ' rfl, hdrive '\t' rfl, hdrive ',' rfl, hdrive ';' rfl,
      hdrive '=' rfl]
  · decide
  · exact hnames c hc
  · split at hc
    · obtain rfl := List.mem_singleton.mp hc
      exact hslash
    · cases hc

end SourceRoot

/-! ## The two steps -/

section scripts

variable (dirsToo : Bool) (args : List Text) (s : State)

/-- Behind cmake-configure the variables are those before it, cmake has run in
the directory that was made, and the current drive is the same. -/
theorem cmakeConfigure_spec {l : Location} (hdrive : l.drive = s.places.drive.toUpper)
    (hl : s.places.resolve (s.places.pathPart (param args 1) ++ "build".toList) = l) :
    (cmakeConfigure dirsToo args s).vars = s.vars ∧
      (cmakeConfigure dirsToo args s).saved = s.saved ∧
      (cmakeConfigure dirsToo args s).places.drive = s.places.drive ∧
      (cmakeConfigure dirsToo args s).places.dirs l = true ∧
      ∃ tail, (cmakeConfigure dirsToo args s).started = s.started ++ [⟨"cmake", tail, l⟩] := by
  subst hl
  generalize hpath : s.places.pathPart (param args 1) ++ "build".toList = path at hdrive ⊢
  obtain ⟨t, tail, ht, hplaces, hstarted, hsaved⟩ : ∃ (t : State) (tail : Text),
      cmakeConfigure dirsToo args s =
        (((t.ensureDir path).cd path).start "cmake" tail).endlocal dirsToo ∧
      t.places = s.places ∧ t.started = s.started ∧
      t.saved = ⟨s.vars, s.places.drive, s.places.cwd⟩ :: s.saved := by
    refine ⟨((s.setlocal.set "generator" "Visual Studio 14 2015 Win64".toList).set "src_root"
      (param args 1)).set "build_dir" path, ?_, ?_, rfl, rfl, rfl⟩
    rotate_left
    · simp only [cmakeConfigure, places_set, places_setlocal, vars_set_self, vars_ensureDir, hpath]
      rfl
  obtain ⟨P, hP, hPdrive, hPcwd, hPdirs⟩ := exists_ensureDir path t
  rw [hplaces] at hPdrive hPcwd hPdirs
  have hresolve : P.resolve path = s.places.resolve path :=
    Places.resolve_congr hPdrive hPcwd path
  have hcurrent : (P.cd path).current = s.places.resolve path := by
    rw [← hresolve] at hPdirs hdrive ⊢
    exact Places.current_cd hPdirs (hdrive.trans (by rw [hPdrive]))
  have hend : cmakeConfigure dirsToo args s =
      { places := if dirsToo then { P.cd path with drive := s.places.drive, cwd := s.places.cwd }
          else P.cd path
        vars := s.vars
        saved := s.saved
        started := s.started ++ [⟨"cmake", tail, s.places.resolve path⟩] } := by
    rw [ht, hP, ← hcurrent, ← hstarted]
    simp only [State.cd, State.start, State.endlocal, hsaved]
  rw [hend]
  refine ⟨rfl, rfl, ?_, ?_, tail, rfl⟩
  · cases dirsToo with
    | true => rfl
    | false => simp [hPdrive]
  · cases dirsToo with
    | true => simpa using hPdirs
    | false => simpa using hPdirs

/-- From one state to the other only msbuild was started, in the current
directory. -/
structure OnlyMsbuild (s s' : State) : Prop where
  places : s'.places = s.places
  started : ∃ ps, s'.started = s.started ++ ps ∧
    ∀ p ∈ ps, p.program = "msbuild" ∧ p.dir = s.places.current

namespace OnlyMsbuild

variable {s s' s'' : State}

theorem refl (s : State) : OnlyMsbuild s s := ⟨rfl, [], by simp⟩

theorem trans (h : OnlyMsbuild s s') (h' : OnlyMsbuild s' s'') : OnlyMsbuild s s'' := by
  obtain ⟨ps, hps, hdir⟩ := h.started
  obtain ⟨qs, hqs, hdir'⟩ := h'.started
  rw [h.places] at hdir'
  refine ⟨h'.places.trans h.places, ps ++ qs, by rw [hqs, hps, List.append_assoc], ?_⟩
  intro p hp
  rcases List.mem_append.mp hp with hp | hp
  · exact hdir p hp
  · exact hdir' p hp

theorem start (tail : Text) (s : State) : OnlyMsbuild s (s.start "msbuild" tail) :=
  ⟨rfl, [⟨"msbuild", tail, s.places.current⟩], rfl, by simp⟩

theorem buildReleaseAndDebug (args : List Text) (s : State) :
    OnlyMsbuild s (buildReleaseAndDebug args s) :=
  (start _ s).trans (start _ _)

theorem buildProject (s : State) (P : Text) : OnlyMsbuild s (buildProject s P) :=
  (buildReleaseAndDebug _ s).trans (buildReleaseAndDebug _ _)

theorem foldl (Ps : List Text) (s : State) : OnlyMsbuild s (Ps.foldl Build.buildProject s) := by
  induction Ps generalizing s with
  | nil => exact refl s
  | cons P Ps ih => exact (buildProject s P).trans (ih _)

end OnlyMsbuild

/-- build-and-install starts msbuild in the directory to which cd led. -/
theorem buildAndInstall_spec :
    ∃ ps, (buildAndInstall dirsToo args s).started = s.started ++ ps ∧
      ∀ p ∈ ps, p.program = "msbuild" ∧ p.dir = (s.places.cd (param args 1)).current := by
  let t := ((s.setlocal.set "build_dir" (param args 1)).set "project_files"
    (paramsFrom args 2)).cd (param args 1)
  have hfold := (OnlyMsbuild.foldl (words (t.vars "project_files")) t).started
  have hstarted : (buildAndInstall dirsToo args s).started =
      ((words (t.vars "project_files")).foldl buildProject t).started := by
    rw [buildAndInstall, started_endlocal]
    rfl
  rw [hstarted]
  exact hfold

end scripts

/-- cmake runs in the directory that cmake-configure makes, and msbuild where cd
leads to from there. -/
theorem exists_started (dirsToo : Bool) (S : SourceRoot) (args : List Text) (P : Places)
    (vars : String → Text) :
    ∃ (tail : Text) (ps : List Started) (Q : Places),
      (cmakeBuildAndInstall dirsToo (S.text :: args) ⟨P, vars, [], []⟩).started =
        ⟨"cmake", tail, S.configured P.drive.toUpper⟩ :: ps ∧
      (∀ p ∈ ps, p.program = "msbuild" ∧
        p.dir = (Q.cd (S.text ++ "\\build".toList)).current) ∧
      Q.drive = P.drive ∧ Q.dirs (S.configured P.drive.toUpper) = true := by
  have hsrc : param (S.text :: args) 1 = S.text := rfl
  generalize S.text :: args = all at hsrc ⊢
  -- the state behind the set commands
  obtain ⟨t, x, y, hplaces, hstarted, hdir, hunfold⟩ : ∃ (t : State) (x y : Text),
      t.places = P ∧ t.started = [] ∧ t.vars "build_dir" = S.text ++ "\\build".toList ∧
      cmakeBuildAndInstall dirsToo all ⟨P, vars, [], []⟩ =
        (buildAndInstall dirsToo
          (words ((cmakeConfigure dirsToo (words (S.text ++ ' ' :: x)) t).vars "build_dir" ++
            ' ' :: y))
          (cmakeConfigure dirsToo (words (S.text ++ ' ' :: x)) t)).endlocal dirsToo := by
    let t := ((((setlocal ⟨P, vars, [], []⟩).set "src_dir" S.text).set "build_dir"
      (S.text ++ "\\build".toList)).set "cache_file" (param all 2)).set "install_prefix"
        (param all 3) |>.set "project_files" (paramsFrom all 4)
    have hsrcDir : t.vars "src_dir" = S.text := by
      simp only [t]
      rw [vars_set_of_ne (by decide), vars_set_of_ne (by decide), vars_set_of_ne (by decide),
        vars_set_of_ne (by decide), vars_set_self]
    have hbuildDir : t.vars "build_dir" = S.text ++ "\\build".toList := by
      simp only [t]
      rw [vars_set_of_ne (by decide), vars_set_of_ne (by decide), vars_set_of_ne (by decide),
        vars_set_self]
    let x := "-C ".toList ++ quoted (t.vars "cache_file") ++ ' ' ::
      quoted ("-DCMAKE_INSTALL_PREFIX=".toList ++ t.vars "install_prefix")
    have happend : t.vars "src_dir" ++ " -C ".toList ++ quoted (t.vars "cache_file") ++ ' ' ::
        quoted ("-DCMAKE_INSTALL_PREFIX=".toList ++ t.vars "install_prefix") =
        S.text ++ ' ' :: x := by
      rw [hsrcDir]
      simp [x]
    refine ⟨t, x, (cmakeConfigure dirsToo (words (S.text ++ ' ' :: x)) t).vars "project_files",
      rfl, rfl, hbuildDir, ?_⟩
    rw [← happend, cmakeBuildAndInstall, hsrc]
  have hword : words (S.text ++ ' ' :: x) = S.text :: words x :=
    words_append_space _ S.isWord_text.1 S.isWord_text.2 x
  obtain ⟨hvars, -, hdrive, hdirs, tail, hcmake⟩ := cmakeConfigure_spec dirsToo
    (words (S.text ++ ' ' :: x)) t (l := S.configured P.drive.toUpper) (by rw [hplaces]; rfl)
    (by rw [hword, param_cons_one, S.resolve_configured, hplaces])
  have hbuild : ∀ c ∈ S.text ++ "\\build".toList, isDelim c = false ∧ c ≠ '\x22' := by
    intro c hc
    rcases List.mem_append.mp hc with hc | hc
    · exact S.isWord_text.2 c hc
    · have htail : ∀ c ∈ "\\build".toList, isDelim c = false ∧ c ≠ '\x22' :=
        Text.forall_mem_of_all (by decide)
      exact htail c hc
  have hword' : words (S.text ++ "\\build".toList ++ ' ' :: y) =
      (S.text ++ "\\build".toList) :: words y :=
    words_append_space _ (by simp) hbuild y
  obtain ⟨ps, hps, hmsbuild⟩ := buildAndInstall_spec dirsToo
    (words (S.text ++ "\\build".toList ++ ' ' :: y))
    (cmakeConfigure dirsToo (words (S.text ++ ' ' :: x)) t)
  refine ⟨tail, ps, (cmakeConfigure dirsToo (words (S.text ++ ' ' :: x)) t).places, ?_, ?_,
    hdrive.trans (by rw [hplaces]), hdirs⟩
  · rw [hunfold, started_endlocal, hvars, hdir, hps, hcmake, hstarted]
    rfl
  · rwa [hword', param_cons_one] at hmsbuild

theorem configured_eq_of_buildsIn {dirsToo : Bool} {S : SourceRoot} {args : List Text} {P : Places}
    {vars : String → Text}
    (h : BuildsIn S.buildDir
      (cmakeBuildAndInstall dirsToo (S.text :: args) ⟨P, vars, [], []⟩).started) :
    S.configured P.drive.toUpper = S.buildDir := by
  obtain ⟨tail, ps, Q, hstarted, -⟩ := exists_started dirsToo S args P vars
  rw [hstarted] at h
  exact h.dir _ List.mem_cons_self

theorem isDirName_szip :
    ∀ n ∈ ["build".toList, "szip-2.1.1".toList], IsDirName n := by
  intro n hn
  rcases List.mem_cons.mp hn with rfl | hn
  · exact ⟨by decide, by decide, Text.forall_mem_of_all (by decide)⟩
  · obtain rfl := List.mem_singleton.mp hn
    exact ⟨by decide, by decide, Text.forall_mem_of_all (by decide)⟩

/-- The root `build\szip-2.1.1` on a drive. -/
def szipRoot (drive : Char) (trailing : Bool) (h : drive.isAlpha = true) : SourceRoot where
  drive := drive
  components := ["build".toList, "szip-2.1.1".toList]
  trailing := trailing
  drive_alpha := h
  names := isDirName_szip
  root_trailing h := absurd h (List.cons_ne_nil _ _)

/-- The root directories of all drives, with the drive C as the current one. -/
def onDriveC : Places := ⟨'C', fun _ => [], fun l => l.path.isEmpty⟩

end Build
