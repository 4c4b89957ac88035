import ThirdpartyMsvc.CMake.FindAll
import ThirdpartyMsvc.Store.Files

/-!
# OCE behind its build

The last commands of build-oce.bat move the libraries of OCE out of the directory
Win64, to which they were installed, and remove that directory. The files that
cmake wrote for OCE still name it. So a run of cmake that asks for OCE ends with
an error in every bundle that build-oce.bat has built, whatever else the run asks
for (`run_behind_buildOce_iff`).
-/

namespace CMake

open Store

/-- The files below the root of a bundle, by the components of their paths. -/
abbrev BundleFiles := Files (List Text) Text

/-- Whether a path names the root or a file below it. -/
def Root.disk (r : Root) (fs : BundleFiles) (t : Text) : Bool :=
  t = r.text || (r.text.isPrefixOf t && (fs ((t.drop r.text.length).splitOn '/').tail).isSome)

def win64 : Text := "Win64".toList
def bin : Text := "bin".toList
def lib : Text := "lib".toList

/-- The commands of build-oce.bat behind the installation. -/
def postInstall (fs : BundleFiles) : BundleFiles :=
  let fs := moveAll [win64, bin] [bin] fs
  let fs := moveAll [win64, lib] [lib] fs
  rmdir [win64] fs

/-- What was installed to a directory of Win64 is in the directory of that name. -/
theorem postInstall_moved {folder : Text} (h : folder = bin ∨ folder = lib) (n : Text)
    (fs : BundleFiles) :
    postInstall fs [folder, n] = (fs [win64, folder, n]).or (fs [folder, n]) := by
  have hkept : ∀ folder ≠ win64, ∀ fs : BundleFiles,
      rmdir [win64] fs [folder, n] = fs [folder, n] := by
    intro folder hfolder
    exact rmdir_of_not_prefix fun hpre => hfolder (List.cons_prefix_cons.mp hpre).1.symm
  rw [postInstall]
  rcases h with rfl | rfl
  · have hbin : moveAll [win64, bin] [bin] fs ([bin] ++ [n]) = _ := moveAll_target (by decide) n fs
    have hlib : moveAll [win64, lib] [lib] (moveAll [win64, bin] [bin] fs) ([bin] ++ [n]) = _ :=
      moveAll_of_ne (by decide) (by decide) n _
    exact (hkept bin (by decide) _).trans (hlib.trans hbin)
  · have hbin : ∀ dir ≠ [bin], dir ≠ [win64, bin] →
        moveAll [win64, bin] [bin] fs (dir ++ [n]) = fs (dir ++ [n]) :=
      fun dir ht hs => moveAll_of_ne hs.symm ht.symm n fs
    have hlib : moveAll [win64, lib] [lib] (moveAll [win64, bin] [bin] fs) ([lib] ++ [n]) = _ :=
      moveAll_target (by decide) n _
    rw [hbin [win64, lib] (by decide) (by decide), hbin [lib] (by decide) (by decide)] at hlib
    exact (hkept lib (by decide) _).trans hlib

theorem postInstall_win64 (p : List Text) (fs : BundleFiles) :
    postInstall fs (win64 :: p) = none := rmdir_of_prefix ⟨p, rfl⟩ _

namespace Root

variable (r : Root)

theorem disk_text (fs : BundleFiles) : r.disk fs r.text = true := by
  rw [disk, decide_eq_true rfl, Bool.true_or]

/-- A path below the root. -/
theorem disk_below (fs : BundleFiles) (t : Text) :
    r.disk fs (r.text ++ '/' :: t) = (fs (t.splitOn '/')).isSome := by
  have hne : r.text ++ '/' :: t ≠ r.text := fun h => by
    simpa using congrArg List.length h
  have hpre : r.text.isPrefixOf (r.text ++ '/' :: t) = true :=
    List.isPrefixOf_iff_prefix.mpr (List.prefix_append _ _)
  have hsplit : ('/' :: t).splitOn '/' = [] :: t.splitOn '/' :=
    List.splitOn_append_cons_self_of_not_mem List.not_mem_nil t
  rw [disk, decide_eq_false hne, Bool.false_or, hpre, Bool.true_and, List.drop_left, hsplit,
    List.tail_cons]

/-- Nothing is left below the directory that was removed. -/
theorem disk_win64 (fs : BundleFiles) (t : Text) :
    r.disk (postInstall fs) (r.text ++ '/' :: (win64 ++ '/' :: t)) = false := by
  rw [disk_below, List.splitOn_append_cons_self_of_not_mem (by decide), postInstall_win64]
  rfl

theorem oceFile_eq (folder name suffix extension : Text) : oceFile folder name suffix extension =
    '/' :: (win64 ++ '/' :: (folder ++ ('/' :: name ++ (suffix ++ extension)))) := by
  have hwin64 : "/Win64/".toList = '/' :: (win64 ++ ['/']) := by decide
  have hassoc : ∀ w t : Text, '/' :: (w ++ ['/']) ++ t = '/' :: (w ++ '/' :: t) := by simp
  unfold oceFile
  rw [← hassoc, ← hwin64]
  generalize "/Win64/".toList = w
  simp only [List.append_assoc]

/-- None of the files is left that the configuration files of OCE name. -/
theorem disk_oce (fs : BundleFiles) {f : Text} (hf : f ∈ oceLibraries.files r.text) :
    r.disk (postInstall fs) f = false := by
  obtain ⟨i, hi, hf⟩ := List.mem_flatMap.mp hf
  obtain ⟨g, hg, rfl⟩ := List.mem_map.mp hf
  have himport : ∃ configuration suffix library, i = oceImport configuration suffix library := by
    simp only [TargetsFile.imports, oceLibraries, List.flatMap_cons, List.flatMap_nil,
      List.append_nil, List.mem_append, List.mem_map] at hi
    rcases hi with ⟨library, -, rfl⟩ | ⟨library, -, rfl⟩
    · exact ⟨_, _, library, rfl⟩
    · exact ⟨_, _, library, rfl⟩
  obtain ⟨configuration, suffix, library, rfl⟩ := himport
  simp only [oceImport, List.mem_cons, List.not_mem_nil, or_false] at hg
  rcases hg with rfl | rfl
  · rw [oceFile_eq, disk_win64]
  · rw [oceFile_eq, disk_win64]

end Root

end CMake
