import ThirdpartyMsvc.Launcher.Pass

/-!
# The executables that are left

pip puts an executable into the directory of the scripts for every script that
it installs, and its path is wired into it. A pass of fixup-python3.bat removes
the executables that are named after the stems of its entries, and the batch
file deletes two more by their names.

The script maker of distlib takes an extension off the name of a script only if
it begins with `.py`, and write-launcher-script.py takes off every extension, so
a version number at the end of a name is read in two ways. `noExe_iff` says
when no executable is left.
-/

namespace Launcher

open Python Store Text
open Launcher.Action

/-! ## The executables of pip -/

/-- The path of an executable in _write_script. -/
def exePath (targetDir name : Text) : Text :=
  let outname := join targetDir name
  (if ".py".toList <+: (splitExt outname).2 then (splitExt outname).1 else outname) ++
    ".exe".toList

def removeExisting (path : Text) : Action Unit := do
  let found ← gets (·.pathExists path)
  if found then remove path

/-- write_binary_file, into a directory that exists. -/
def writeBinaryFile (path data : Text) : Action Unit := do
  removeExisting path
  openWrite path
  write path data

/-- The executables of some scripts, with their contents. -/
def writeExecutables (targetDir : Text) (content : Text → Text) : List Text → Action Unit
  | [] => pure ()
  | name :: names => do
      writeBinaryFile (exePath targetDir name) (content name)
      writeExecutables targetDir content names

/-- The name of an executable, without its extension. -/
def exeStem (name : Text) : Text := if ".py".toList <+: (splitExt name).2 then stem name else name

section install

variable {w w' : World} {d : Text}

theorem isFileName_exeStem {n : Text} (hn : IsFileName n) : IsFileName (exeStem n) := by
  rw [exeStem]
  split
  · exact isFileName_splitExt hn
  · exact hn

theorem split_exePath (hd : IsDirPath d) (hpath : (splitDrive d).2 ≠ []) {n : Text}
    (hn : IsFileName n) : split (exePath d n) = (dirKey d, exeName (exeStem n)) := by
  have hstem := isFileName_exeStem hn
  have hexe := isFileName_exeName hstem
  have hjoin : exePath d n = join d (exeStem n) ++ ".exe".toList := by
    rw [exePath, exeStem, stem]
    simp only [splitExt_join_fileName hd hpath hn]
    split <;> rfl
  rw [hjoin, join_append hd hstem hexe]
  exact split_join hd hexe

theorem sameDirs_remove {path : Text} (h : remove path w = (.ok (), w')) : SameDirs w w' := by
  rw [remove] at h
  split at h
  case h_1 t ht =>
    obtain rfl := (Prod.mk.inj h).2
    exact SameDirs.set w (split path) (by simp) (by simp [ht])
  case h_2 => cases (Prod.mk.inj h).1

theorem removeExisting_ok {path : Text} (h : removeExisting path w = (.ok (), w')) :
    SameDirs w w' ∧ ∀ k, k ≠ split path → w'.nodes k = w.nodes k := by
  obtain ⟨found, v, hfound, h⟩ := bind_ok.mp h
  obtain ⟨-, rfl⟩ := gets_ok.mp hfound
  split at h
  case isTrue =>
    refine ⟨sameDirs_remove h, fun k hk => ?_⟩
    rw [(remove_ok h).2, Function.update_of_ne hk]
  case isFalse =>
    obtain ⟨-, rfl⟩ := pure_ok.mp h
    exact ⟨.refl w, fun _ _ => rfl⟩

theorem writeBinaryFile_ok {path data : Text} (h : writeBinaryFile path data w = (.ok (), w')) :
    SameDirs w w' ∧
      w'.nodes = Function.update w.nodes (split path) (some (.file data)) := by
  obtain ⟨_, w₁, hremove, h⟩ := bind_ok.mp h
  obtain ⟨_, w₂, hopen, hwrite⟩ := bind_ok.mp h
  obtain ⟨hkeep₁, hnodes₁⟩ := removeExisting_ok hremove
  have hkeep₂ := (repeatable_openWrite path).keeps rfl hopen
  have hkeep₃ := (repeatable_write path data).keeps rfl hwrite
  refine ⟨hkeep₁.trans (hkeep₂.trans hkeep₃), ?_⟩
  rw [(write_ok hwrite).2, (openWrite_ok hopen).2.1, Function.update_idem]
  funext k
  by_cases hk : k = split path
  · rw [hk, Function.update_self, Function.update_self]
  · rw [Function.update_of_ne hk, Function.update_of_ne hk, hnodes₁ k hk]

/-- Behind an installation there are the executables of its scripts, and the ones
from before. -/
theorem isSome_exe_iff (hd : IsDirPath d) (hpath : (splitDrive d).2 ≠ []) {content : Text → Text}
    (names : List Text) (hnames : ∀ n ∈ names, IsFileName n)
    (h : writeExecutables d content names w = (.ok (), w')) (s : Text) :
    SameDirs w w' ∧
      (w'.nodes (dirKey d, exeName s) = w.nodes (dirKey d, exeName s) ∨
        ∃ t, w'.nodes (dirKey d, exeName s) = some (.file t)) ∧
      (w'.nodes (dirKey d, exeName s) ≠ none ↔
        w.nodes (dirKey d, exeName s) ≠ none ∨ ∃ n ∈ names, exeStem n = s) := by
  induction names generalizing w with
  | nil =>
      obtain ⟨-, rfl⟩ := pure_ok.mp h
      exact ⟨.refl w, .inl rfl, by simp⟩
  | cons n names ih =>
      obtain ⟨_, v, hfirst, hrest⟩ := bind_ok.mp h
      obtain ⟨hkeep, hnodes⟩ := writeBinaryFile_ok hfirst
      rw [split_exePath hd hpath (hnames n (by simp))] at hnodes
      obtain ⟨hkeep', hfile, hsome⟩ := ih (fun m hm => hnames m (by simp [hm])) hrest
      refine ⟨hkeep.trans hkeep', ?_⟩
      by_cases hs : exeStem n = s
      · subst hs
        have hv : v.nodes (dirKey d, exeName (exeStem n)) = some (.file (content n)) := by
          rw [hnodes, Function.update_self]
        rw [hv] at hfile hsome
        exact ⟨.inr (hfile.elim (fun h => ⟨_, h⟩) id),
          iff_of_true (hsome.mpr (.inl (by simp))) (.inr ⟨n, by simp, rfl⟩)⟩
      · have hkey : (dirKey d, exeName s) ≠ (dirKey d, exeName (exeStem n)) := by
          intro hk
          exact hs (exeName_inj.mp (Prod.mk.inj hk).2).symm
        have hv : v.nodes (dirKey d, exeName s) = w.nodes (dirKey d, exeName s) := by
          rw [hnodes, Function.update_of_ne hkey]
        rw [hv] at hfile hsome
        refine ⟨hfile, hsome.trans (or_congr_right ?_)⟩
        simp [hs]

end install

/-! ## The fix-up of the scripts -/

/-- del, which only says so when there is nothing to delete. -/
def del (path : Text) (w : World) : World := (remove path w).2

/-- The executables that the batch file deletes by their names. -/
def deletedStems : List Text := ["pip3.8".toList, "easy_install-3.8".toList]

/-- The pass over the distributions, and the deletions behind it. -/
def fixUpScripts (T : CharTable) (d : Text) (files : List (Option Text)) (w : World) : World :=
  deletedStems.foldl (fun v s => del (join d (exeName s)) v)
    (writePythonLaunchers T d true files w)

theorem nodes_del (path : Text) (w : World) (k : Text × Text) :
    (del path w).nodes k =
      if k = split path ∧ w.nodes k ≠ some .directory then none else w.nodes k := by
  rw [del, remove]
  split
  case h_1 t ht =>
    change Function.update w.nodes (split path) none k = _
    by_cases hk : k = split path
    · rw [hk, Function.update_self, if_pos ⟨rfl, by simp [ht]⟩]
    · rw [Function.update_of_ne hk, if_neg fun h => hk h.1]
  case h_2 hne =>
    by_cases hk : k = split path ∧ w.nodes k ≠ some .directory
    · obtain ⟨rfl, hdir⟩ := hk
      rw [if_pos ⟨rfl, hdir⟩]
      cases hn : w.nodes (split path) with
      | none => rfl
      | some n =>
          cases n with
          | directory => exact absurd hn hdir
          | file t => exact absurd hn (hne t)
    · rw [if_neg hk]

theorem nodes_foldl_del {d : Text} (hd : IsDirPath d) (stems : List Text)
    (hstems : ∀ s ∈ stems, IsFileName s) (w : World) (s : Text)
    (hw : w.nodes (dirKey d, exeName s) ≠ some .directory) :
    (stems.foldl (fun v s => del (join d (exeName s)) v) w).nodes (dirKey d, exeName s) =
      if s ∈ stems then none else w.nodes (dirKey d, exeName s) := by
  induction stems generalizing w with
  | nil => rfl
  | cons t stems ih =>
      have hnode : (del (join d (exeName t)) w).nodes (dirKey d, exeName s) =
          if s = t then none else w.nodes (dirKey d, exeName s) := by
        rw [nodes_del, split_join hd (isFileName_exeName (hstems t (by simp)))]
        by_cases hst : s = t
        · rw [hst] at hw ⊢
          rw [if_pos ⟨rfl, hw⟩, if_pos rfl]
        · rw [if_neg fun h => hst (exeName_inj.mp (Prod.mk.inj h.1).2), if_neg hst]
      have hrest := ih (fun u hu => hstems u (by simp [hu])) (del (join d (exeName t)) w)
        (by rw [hnode]; split <;> simp [hw])
      rw [List.foldl_cons, hrest, hnode]
      by_cases hst : s = t <;> simp [hst]

theorem lastWithStem_ne_none_iff {es : List EntryPoint} {s : Text} :
    lastWithStem es s ≠ none ↔ ∃ e ∈ es, stem e.name = s := by
  rw [lastWithStem, ne_eq, List.getLast?_eq_none_iff, List.filter_eq_nil_iff]
  simp

/-- Behind an installation and the fix-up no executable is left exactly when each
one that was installed is named after the stem of an entry, or is one of the two
that are deleted. -/
theorem noExe_iff (T : CharTable) {d : Text} {w w' : World} (hd : w.dirs d = true)
    (hpath : (splitDrive d).2 ≠ [])
    (hbefore : ∀ s, IsFileName s → w.file d (exeName s) = none) (content : Text → Text)
    (names : List Text) (hnames : ∀ n ∈ names, IsFileName n)
    (hinstall : writeExecutables d content names w = (.ok (), w')) (files : List (Option Text))
    (hclear : Clear d true (passEntries T files) w)
    (hext : ∀ e ∈ passEntries T files,
      ¬ ".cmd".toList <:+ e.name ∧ ¬ ".exe".toList <:+ e.name) :
    (∀ s, IsFileName s → (fixUpScripts T d files w').file d (exeName s) = none) ↔
      ∀ n ∈ names, (∃ e ∈ passEntries T files, stem e.name = exeStem n) ∨
        exeStem n ∈ deletedStems := by
  have hdir := w.rooted d hd
  have hdeleted : ∀ s ∈ deletedStems, IsFileName s :=
    List.forall_mem_cons.mpr ⟨⟨by decide, forall_mem_of_all (by decide)⟩,
      List.forall_mem_singleton.mpr ⟨by decide, forall_mem_of_all (by decide)⟩⟩
  have hleft : ∀ s, IsFileName s → ((fixUpScripts T d files w').file d (exeName s) = none ↔
      ((∃ n ∈ names, exeStem n = s) →
        (∃ e ∈ passEntries T files, stem e.name = s) ∨ s ∈ deletedStems)) := by
    intro s hs
    obtain ⟨hkeep, hfile, hsome⟩ := isSome_exe_iff hdir hpath names hnames hinstall s
    have hnone : w.nodes (dirKey d, exeName s) = none := by
      rw [← file_eq hdir (isFileName_exeName hs)]
      exact hbefore s hs
    rw [hnone] at hfile hsome
    have hclear' := (ofDirs_clear d true (passEntries T files) _ _ hkeep).mpr hclear
    have hpass :=
      nodes_exeName (writePythonLaunchers_eq files (hkeep.dirs ▸ hd) hclear').2 hext s
    have hleft : (writePythonLaunchers T d true files w').nodes (dirKey d, exeName s) ≠
        some .directory := by
      rw [hpass]
      split
      · simp
      · rcases hfile with h | ⟨t, h⟩ <;> simp [h]
    rw [file_eq hdir (isFileName_exeName hs), fixUpScripts,
      nodes_foldl_del hdir deletedStems hdeleted _ s hleft, hpass]
    simp only [ne_eq, not_true_eq_false, false_or] at hsome
    by_cases hs' : s ∈ deletedStems
    · simp [hs']
    · by_cases he : ∃ e ∈ passEntries T files, stem e.name = s
      · rw [if_neg hs', if_pos ⟨rfl, lastWithStem_ne_none_iff.mpr he⟩]
        exact iff_of_true rfl fun _ => .inl he
      · rw [if_neg hs', if_neg fun h => he (lastWithStem_ne_none_iff.mp h.2), ← not_iff_not,
          hsome]
        simp [he, hs']
  constructor
  · intro h n hn
    exact (hleft _ (isFileName_exeStem (hnames n hn))).mp
      (h _ (isFileName_exeStem (hnames n hn))) ⟨n, hn, rfl⟩
  · intro h s hs
    rw [hleft s hs]
    rintro ⟨n, hn, rfl⟩
    exact h n hn

/-- Three scripts, the last one with a version at its end. -/
def installedNames : List Text := ["foo".toList, "qux".toList, "pip3.8".toList]

theorem noExe_passFiles :
    ∃ w', writeExecutables ['C', ':', '\\', 'S'] (fun _ => ['M', 'Z']) installedNames
        emptyScripts = (.ok (), w') ∧
      ((∀ s, IsFileName s → (fixUpScripts .ascii ['C', ':', '\\', 'S'] passFiles w').file
          ['C', ':', '\\', 'S'] (exeName s) = none) ↔
        ∀ n ∈ installedNames, (∃ e ∈ passEntries .ascii passFiles, stem e.name = exeStem n) ∨
          exeStem n ∈ deletedStems) := by
  have hok : (writeExecutables ['C', ':', '\\', 'S'] (fun _ => ['M', 'Z']) installedNames
      emptyScripts).1 = .ok () := by decide +kernel
  refine ⟨_, Prod.ext hok rfl, ?_⟩
  refine noExe_iff .ascii (w := emptyScripts) (by decide) (by decide) ?_ _ _ ?_
    (Prod.ext hok rfl) passFiles clear_passFiles ?_
  · intro s hs
    rw [file_eq (emptyScripts.rooted _ (by decide)) (isFileName_exeName hs)]
    have hkey : (dirKey ['C', ':', '\\', 'S'], exeName s) ≠ (['C', ':', '\\'], ['S']) :=
      fun h => absurd (Prod.mk.inj h).1 (by decide)
    exact if_neg (t := some Node.directory) hkey
  · refine List.forall_mem_cons.mpr ⟨⟨by decide, forall_mem_of_all (by decide)⟩,
      List.forall_mem_cons.mpr ⟨⟨by decide, forall_mem_of_all (by decide)⟩,
        List.forall_mem_singleton.mpr ⟨by decide, forall_mem_of_all (by decide)⟩⟩⟩
  · rw [passEntries_passFiles]
    decide

end Launcher
