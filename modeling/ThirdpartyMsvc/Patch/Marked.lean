import ThirdpartyMsvc.Patch.Once

/-!
# Scripts that always patch once

build-nexus.bat, build-muparser.bat, build-zlib.bat and build-qwtplot3d-qt4.bat
run each patch behind a guard of its own, and the guard asks for the file that
the patch leaves behind. Such a part is the same whether or not earlier runs
have been broken off, as long as no other part touches its files
(`settled_of_marked`).
-/

namespace Patch

open Shell Store

namespace Part

/-- One patch, behind a guard that asks for the backup of the patched file. -/
structure Marked (part : Part) (p : PatchFile) : Prop where
  body : part.body = [.patch p true]
  guard : part.guard.map fromWindows = some (backupName p.target)

/-- Two patches write different files. -/
def Separate (p q : PatchFile) : Prop :=
  p.target ≠ q.target ∧ p.target ≠ backupName q.target ∧ backupName p.target ≠ q.target

instance (p q : PatchFile) : Decidable (Separate p q) := inferInstanceAs (Decidable (_ ∧ _))

theorem Separate.symm {p q : PatchFile} (h : Separate p q) : Separate q p :=
  ⟨h.1.symm, h.2.2.symm, h.2.1.symm⟩

/-- A part for each patch, in one directory. -/
structure MarkedScript (script : List Part) (patches : List PatchFile) : Prop where
  marked : List.Forall₂ Marked script patches
  separate : patches.Pairwise Separate

variable {part : Part} {p : PatchFile}

theorem Marked.marksFirst (h : part.Marked p) : part.marksFirst = true := by
  obtain ⟨name, hguard, hname⟩ := Option.map_eq_some_iff.mp h.guard
  rw [Part.marksFirst, hguard, h.body]
  exact beq_iff_eq.mpr hname

/-- Another patch does not touch what the part asks for. -/
theorem Marked.touches_eq_false {other : Part} {q : PatchFile} (h : other.Marked q)
    (hpq : Separate p q) :
    ∀ n ∈ [backupName p.target, p.target, backupName p.target],
      other.body.any (·.touches n) = false := by
  have hbackup : backupName p.target ≠ backupName q.target := fun heq =>
    hpq.1 (List.append_cancel_right heq)
  intro n hn
  rw [h.body, List.any_cons, List.any_nil, Bool.or_false, Stmt.touches]
  simp only [List.mem_cons, List.not_mem_nil, or_false] at hn
  rcases hn with rfl | rfl | rfl
  · simp [hpq.2.2, hbackup]
  · simp [hpq.1, hpq.2.1]
  · simp [hpq.2.2, hbackup]

/-- A run that begins a part of one patch leaves nothing of it out. -/
theorem Marked.holdsWhen (h : part.Marked p) (i : ℕ) (t₀ : Tree Path Text)
    (history : List Stop) : part.HoldsWhen i t₀ history := by
  rw [HoldsWhen, if_pos h.marksFirst]
  intro _ stop hstop c hc
  have hstarts : stop.starts i = true := by
    simpa using List.find?_some hstop
  have hlisting : part.listing t₀ = [.patch p true part.dir] := by
    rw [listing, h.body]
    rfl
  have hall := Stop.portion_append_omitted i stop (part.listing t₀)
  rw [hlisting, Stop.portion_singleton_of_starts hstarts] at hall
  rw [hlisting, List.append_cancel_left (hall.trans (List.append_nil _).symm)] at hc
  exact absurd hc List.not_mem_nil

namespace MarkedScript

variable {script : List Part} {patches : List PatchFile}

theorem exists_patch (h : MarkedScript script patches) {i : ℕ} (hpart : script[i]? = some part) :
    ∃ p, patches[i]? = some p ∧ part.Marked p := by
  obtain ⟨hi, rfl⟩ := List.getElem?_eq_some_iff.mp hpart
  have hi' : i < patches.length := h.marked.length_eq ▸ hi
  exact ⟨patches[i], List.getElem?_eq_getElem hi', h.marked.get hi hi'⟩

theorem separate_of_ne (h : MarkedScript script patches) {i j : ℕ} (hij : i ≠ j)
    {p q : PatchFile} (hp : patches[i]? = some p) (hq : patches[j]? = some q) :
    Separate p q := by
  obtain ⟨hi, rfl⟩ := List.getElem?_eq_some_iff.mp hp
  obtain ⟨hj, rfl⟩ := List.getElem?_eq_some_iff.mp hq
  have hpairwise := List.pairwise_iff_getElem.mp h.separate
  rcases Nat.lt_or_gt_of_ne hij with hlt | hlt
  · exact hpairwise i j hi hj hlt
  · exact (hpairwise j i hj hi hlt).symm

end MarkedScript

theorem settled_of_marked {script : List Part} {patches : List PatchFile}
    (hscript : MarkedScript script patches) {i : ℕ} (hpart : script[i]? = some part) :
    Settled script i part := by
  obtain ⟨hi, hget⟩ := List.getElem?_eq_some_iff.mp hpart
  obtain ⟨p, hp, hmarked⟩ := hscript.exists_patch hpart
  obtain ⟨name, hguard, hname⟩ := Option.map_eq_some_iff.mp hmarked.guard
  have hsplit : script = script.take i ++ part :: script.drop (i + 1) := by
    rw [← hget, List.getElem_cons_drop, List.take_append_drop]
  have hlength : (script.take i).length = i := List.length_take_of_le (Nat.le_of_lt hi)
  have hothers : ∀ other ∈ script.take i ++ script.drop (i + 1),
      ∀ n ∈ [fromWindows name, p.target, backupName p.target],
        other.body.any (·.touches n) = false := by
    intro other hother
    rw [← List.eraseIdx_eq_take_drop_succ, List.mem_eraseIdx_iff_getElem?] at hother
    obtain ⟨j, hj, hother⟩ := hother
    obtain ⟨q, hq, hmarked'⟩ := hscript.exists_patch hother
    rw [hname]
    exact hmarked'.touches_eq_false (hscript.separate_of_ne hj.symm hp hq)
  have h := settled_single (script.take i) (script.drop (i + 1)) hguard hmarked.body
    (by rw [hname]; exact (ne_backupName _).symm) fun other hother => .inr (hothers other hother)
  rwa [← hsplit, hlength] at h

end Part

/-! ## The scripts -/

def cMakeListsC : PatchFile := ⟨"+++ src/CMakeLists.txt\tFri Nov 30 13:54:55 2018".toList⟩

def nexusDef : PatchFile := ⟨"+++ src/NeXus.def\t2019-12-04 09:39:39.124503500 +0000".toList⟩

def nexusFileCpp : PatchFile :=
  ⟨"+++ bindings/cpp/NeXusFile.cpp\tWed Nov 28 14:09:10 2018".toList⟩

def fixDeprecationWarningCpp : PatchFile :=
  ⟨"+++ bindings/cpp/NeXusFile.hpp\t2019-12-20 15:21:20.617444500 +0000".toList⟩

def cMakeListsCpp : PatchFile :=
  ⟨"+++ bindings/cpp/CMakeLists.txt\tFri Nov 30 13:54:34 2018".toList⟩

def findHdf4 : PatchFile :=
  ⟨"+++ cmake_include/FindHDF4.cmake\tThu Nov 29 11:10:54 2018".toList⟩

def fixDeprecationWarning : PatchFile :=
  ⟨"+++ include/napi.h.in\t2019-12-20 13:50:41.736566200 +0000".toList⟩

/-- A line `if not exist guard patch -p0 --input=… --backup`. -/
def patchUnless (dir : Text) (guard : Text) (p : PatchFile) : Part :=
  ⟨dir, some guard, [.patch p true]⟩

/-- build-nexus.bat. -/
def buildNexus : List Part :=
  [patchUnless "nexus/code-master".toList "src\\CMakeLists.txt.orig".toList cMakeListsC,
   patchUnless "nexus/code-master".toList "src\\NeXus.def.orig".toList nexusDef,
   patchUnless "nexus/code-master".toList "bindings\\cpp\\NeXusFile.cpp.orig".toList nexusFileCpp,
   patchUnless "nexus/code-master".toList "bindings\\cpp\\NeXusFile.hpp.orig".toList
    fixDeprecationWarningCpp,
   patchUnless "nexus/code-master".toList "bindings\\cpp\\CMakeLists.txt.orig".toList cMakeListsCpp,
   patchUnless "nexus/code-master".toList "cmake_include\\FindHDF4.cmake.orig".toList findHdf4,
   patchUnless "nexus/code-master".toList "include\\napi.h.in.orig".toList fixDeprecationWarning]

def debugSuffix : PatchFile := ⟨"+++ CMakeLists.txt\t2019-11-22 10:55:55.297109900 +0000".toList⟩

/-- build-muparser.bat. -/
def buildMuparser : List Part :=
  [patchUnless "muparser/muparser-2.2.6.1".toList "CMakeLists.txt.orig".toList debugSuffix]

def zlibConfig : PatchFile :=
  ⟨"+++ config/cmake/zlib-config.cmake.in\tMon Oct 12 13:52:28 2015".toList⟩

/-- build-zlib.bat. -/
def buildZlib : List Part :=
  [patchUnless "zlib/ZLib".toList "config\\cmake\\zlib-config.cmake.in.orig".toList zlibConfig]

def qwt3dOpenglhelper : PatchFile :=
  ⟨"+++ include/qwt3d_openglhelper.h\tThu Oct 15 14:37:21 2015".toList⟩

def qwtplot3dPro : PatchFile := ⟨"+++ qwtplot3d.pro\tThu Oct 15 14:57:17 2015".toList⟩

/-- build-qwtplot3d-qt4.bat; the names of the marks are the ones behind the
directory that the script has changed to. -/
def buildQwtplot3d : List Part :=
  [patchUnless "qwtplot3d/qwtplot3d".toList "include\\qwt3d_openglhelper.h.orig".toList
    qwt3dOpenglhelper,
   patchUnless "qwtplot3d/qwtplot3d".toList "qwtplot3d.pro.orig".toList qwtplot3dPro]

/-- The scripts, with their patches. -/
def markedScripts : List (List Part × List PatchFile) :=
  [(buildNexus, [cMakeListsC, nexusDef, nexusFileCpp, fixDeprecationWarningCpp, cMakeListsCpp,
    findHdf4, fixDeprecationWarning]),
   (buildMuparser, [debugSuffix]), (buildZlib, [zlibConfig]),
   (buildQwtplot3d, [qwt3dOpenglhelper, qwtplot3dPro])]

theorem marked_patchUnless {dir guard : Text} {p : PatchFile}
    (h : fromWindows guard = backupName p.target) : (patchUnless dir guard p).Marked p :=
  ⟨rfl, congrArg some h⟩

theorem markedScript_of_mem : ∀ s ∈ markedScripts, Part.MarkedScript s.1 s.2 := by
  refine List.forall_mem_cons.mpr ⟨?_, List.forall_mem_cons.mpr ⟨?_, List.forall_mem_cons.mpr
    ⟨?_, List.forall_mem_singleton.mpr ?_⟩⟩⟩
  · exact ⟨.cons (marked_patchUnless (by decide)) (.cons (marked_patchUnless (by decide))
      (.cons (marked_patchUnless (by decide)) (.cons (marked_patchUnless (by decide))
        (.cons (marked_patchUnless (by decide)) (.cons (marked_patchUnless (by decide))
          (.cons (marked_patchUnless (by decide)) .nil)))))), by decide⟩
  · exact ⟨.cons (marked_patchUnless (by decide)) .nil, by decide⟩
  · exact ⟨.cons (marked_patchUnless (by decide)) .nil, by decide⟩
  · exact ⟨.cons (marked_patchUnless (by decide)) (.cons (marked_patchUnless (by decide)) .nil),
      by decide⟩

/-- Each patch of the four scripts is applied once to the sources that it was
made for, by any number of runs, wherever they are broken off. -/
theorem appliedOnce_of_marked (tool : Tool) {script : List Part} {patches : List PatchFile}
    (hscript : (script, patches) ∈ markedScripts) {i : ℕ} {part : Part}
    (hpart : script[i]? = some part) {t₀ : Tree Path Text} (hpristine : part.Pristine tool t₀)
    (history : List Stop) : AppliedOnce tool script part t₀ history := by
  have hmarked := markedScript_of_mem _ hscript
  obtain ⟨p, -, hp⟩ := hmarked.exists_patch hpart
  exact (Part.settled_of_marked hmarked hpart tool t₀ hpristine history).mpr
    (hp.holdsWhen i t₀ history)

/-- The lines of CMakeLists.txt of muparser around its hunk. -/
def muparserLines (more : Text) : Text :=
  "set_target_properties(muparser PROPERTIES\n    VERSION $\x7bMUPARSER_VERSION\x7d\n".toList ++
    "    SOVERSION $\x7bMUPARSER_VERSION_MAJOR\x7d\n".toList ++ more ++
    ")\n\n# Install the export set for use with the install-tree\n".toList

def muparserSides (_ : PatchFile) : Text × Text :=
  (muparserLines [], muparserLines "    DEBUG_OUTPUT_NAME muparserd\n".toList)

def muparserSources : Tree Path Text :=
  [(⟨"muparser/muparser-2.2.6.1".toList, debugSuffix.target⟩, muparserLines [])]

theorem pristine_muparserSources :
    (patchUnless "muparser/muparser-2.2.6.1".toList "CMakeLists.txt.orig".toList
      debugSuffix).Pristine (hunkTool muparserSides) muparserSources where
  unmarked := by decide +kernel
  clean p hp := by
    obtain rfl := List.mem_singleton.mp hp
    exact ⟨_, if_pos rfl, clean_hunkTool (by decide +kernel)⟩

theorem appliedOnce_muparser :
    AppliedOnce (hunkTool muparserSides) buildMuparser
      (patchUnless "muparser/muparser-2.2.6.1".toList "CMakeLists.txt.orig".toList debugSuffix)
      muparserSources [some (0, 0), some (0, 1), none, none] :=
  appliedOnce_of_marked (hunkTool muparserSides)
    (List.mem_cons_of_mem _ List.mem_cons_self) (i := 0) rfl pristine_muparserSources _

end Patch
