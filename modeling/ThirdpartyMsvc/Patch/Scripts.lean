import ThirdpartyMsvc.Shell.Rerun
import ThirdpartyMsvc.Store.Tree
import ThirdpartyMsvc.Text.Basic

/-!
# The scripts that patch sources

build-sip.cmd, build-qscintilla2-qt4.bat, build-pyqt5.bat and fixup-python3.bat
patch a source tree unless a file is there that they take for the mark of an
earlier run. The names of the patched files are read from the headers of the
patches; which mark is left behind is up to the patch program. The calls that do
not touch the sources are left out.
-/

namespace Patch

open Shell Store

/-- A file of the sources, by the directory that the script works in and the
name within it. -/
structure Path where
  dir : Text
  name : Text
deriving DecidableEq

/-- The name that the scripts write with backslashes. -/
def fromWindows (name : Text) : Text := name.map fun c => if c = '\\' then '/' else c

/-! ## Wildcards -/

/-- `*` stands for any characters. -/
def glob : Text → Text → Bool
  | [], name => name.isEmpty
  | c :: pattern, name =>
      if c = '*' then name.tails.any (glob pattern)
      else match name with
        | [] => false
        | d :: name => c == d && glob pattern name

/-- A wildcard is compared with the name of a file in its own directory, and the
case of the letters does not matter. -/
def matchesPattern (pattern name : Text) : Bool :=
  glob pattern ((name.rtakeWhile (· ≠ '/')).map Char.toLower)

/-! ## The stream editor -/

/-- The regular expression `<Python.h>` matches at the head of a text; its dot
stands for any character. -/
def isPythonH (t : Text) : Bool :=
  "<Python".toList.isPrefixOf t && "h>".toList.isPrefixOf (t.drop 8)

/-- The substitution in one line: the first match only. -/
def wrapLine : Text → Text
  | [] => []
  | c :: line =>
      if isPythonH (c :: line) then "<wrappython.h>".toList ++ line.drop 9
      else c :: wrapLine line

/-- `sed -e "s@<Python.h>@<wrappython.h>@"`. -/
def wrapText (t : Text) : Text := (Text.splitLines t).flatMap wrapLine

theorem wrapLine_eq_or_longer (line : Text) :
    wrapLine line = line ∨ line.length < (wrapLine line).length := by
  induction line with
  | nil => exact .inl rfl
  | cons c line ih =>
      rw [wrapLine]
      split
      · right
        rw [List.length_append, List.length_drop, List.length_cons]
        have hlength : "<wrappython.h>".toList.length = 14 := by decide
        omega
      · rcases ih with h | h
        · exact .inl (congrArg (c :: ·) h)
        · exact .inr (Nat.succ_lt_succ h)

theorem flatMap_wrapLine_eq_or_longer (lines : List Text) :
    lines.flatMap wrapLine = lines.flatten ∨
      lines.flatten.length < (lines.flatMap wrapLine).length := by
  induction lines with
  | nil => exact .inl rfl
  | cons line lines ih =>
      rw [List.flatMap_cons, List.flatten_cons, List.length_append, List.length_append]
      rcases wrapLine_eq_or_longer line with h | h
      · rcases ih with h' | h'
        · exact .inl (by rw [h, h'])
        · exact .inr (by rw [h]; omega)
      · rcases ih with h' | h'
        · exact .inr (by rw [h']; omega)
        · exact .inr (by omega)

/-- A substitution that changes a text makes it longer. -/
theorem wrapText_eq_or_longer (t : Text) : wrapText t = t ∨ t.length < (wrapText t).length := by
  have h := flatMap_wrapLine_eq_or_longer (Text.splitLines t)
  rwa [Text.flatten_splitLines] at h

theorem length_le_wrapText_iterate (k : ℕ) (t : Text) : t.length ≤ (wrapText^[k] t).length := by
  induction k generalizing t with
  | zero => exact Nat.le_refl _
  | succ k ih =>
      have h := ih (wrapText t)
      rw [Function.iterate_succ_apply]
      rcases wrapText_eq_or_longer t with heq | hlt
      · rwa [heq] at h ⊢
      · exact Nat.le_trans (Nat.le_of_lt hlt) h

/-- What some substitutions give back has nothing to substitute. -/
theorem wrapText_eq_of_iterate {k : ℕ} (hk : k ≥ 1) {t : Text} (h : wrapText^[k] t = t) :
    wrapText t = t := by
  obtain ⟨m, rfl⟩ := Nat.exists_eq_succ_of_ne_zero (Nat.ne_of_gt hk)
  rcases wrapText_eq_or_longer t with heq | hlt
  · exact heq
  · have hle := length_le_wrapText_iterate m (wrapText t)
    rw [← Function.iterate_succ_apply, h] at hle
    exact absurd hlt (Nat.not_lt_of_le hle)

/-! ## The patch program -/

/-- A patch, with the line of its header that names the patched file. -/
structure PatchFile where
  header : Text
deriving DecidableEq

/-- The file that a header names; a tab ends the name. -/
def PatchFile.target (p : PatchFile) : Text := (p.header.drop 4).takeWhile (· ≠ '\t')

/-- The name that the old contents of a file are saved under. -/
def backupName (name : Text) : Text := name ++ ".orig".toList

/-- The patch program: how often some contents hold the hunks of a patch, what
an invocation makes of the contents, and whether it saves the old ones when
`--backup` does not ask for it. -/
structure Tool where
  held : PatchFile → Text → ℕ
  apply : PatchFile → Text → Text
  saves : PatchFile → Text → Bool

/-- The contents that a patch has been made for: an application puts in the
hunks, and saves nothing. -/
structure Tool.Clean (tool : Tool) (p : PatchFile) (contents : Text) : Prop where
  held_before : tool.held p contents = 0
  held_behind : tool.held p (tool.apply p contents) = 1
  not_saved : tool.saves p contents = false

/-! ## Commands -/

inductive Command where
  | patch (p : PatchFile) (backup : Bool) (dir : Text)
  | sed (file : Path)
deriving DecidableEq

/-- A command that does not find its file changes nothing. -/
def exec (tool : Tool) : Command → Tree Path Text → Tree Path Text
  | .patch p backup dir, t =>
      match Tree.read t ⟨dir, p.target⟩ with
      | none => t
      | some old =>
          if backup || tool.saves p old then
            Tree.write ⟨dir, backupName p.target⟩ old
              (Tree.write ⟨dir, p.target⟩ (tool.apply p old) t)
          else Tree.write ⟨dir, p.target⟩ (tool.apply p old) t
  | .sed file, t =>
      match Tree.read t file with
      | none => t
      | some old => Tree.write file (wrapText old) t

/-- A line of a script that comes to commands. -/
inductive Stmt where
  | patch (p : PatchFile) (backup : Bool)
  | forSed (pattern : Text)

/-- The commands of a line. `for /r` goes through the files that exist when it is
reached. -/
def Stmt.commands (dir : Text) : Stmt → Tree Path Text → List Command
  | .patch p backup, _ => [.patch p backup dir]
  | .forSed pattern, t =>
      ((Tree.names t).filter fun file => file.dir = dir && matchesPattern pattern file.name).map
        .sed

/-- The commands of some lines, each of which finds what the ones before it have
left. -/
def bodyCommands (tool : Tool) (dir : Text) : List Stmt → Tree Path Text → List Command
  | [], _ => []
  | stmt :: body, t =>
      stmt.commands dir t ++ bodyCommands tool dir body (after (exec tool) (stmt.commands dir t) t)

/-- Lines of a script that work in one directory, behind `if not exist guard`
when there is a guard. -/
structure Part where
  dir : Text
  guard : Option Text
  body : List Stmt

namespace Part

/-- The mark of an earlier run is there. -/
def guarded (part : Part) (t : Tree Path Text) : Bool :=
  part.guard.any fun name => Tree.present t ⟨part.dir, fromWindows name⟩

def commands (tool : Tool) (part : Part) (t : Tree Path Text) : List Command :=
  if part.guarded t then [] else bodyCommands tool part.dir part.body t

end Part

/-! ## The scripts -/

def siputilsNoDebug : PatchFile :=
  ⟨"+++ siputils.py\t2019-12-20 08:36:02.549505600 +0000".toList⟩

def patchSiputils : Part :=
  ⟨"sip/sip-4.19.13".toList, some "siputils.py.bak".toList, [.patch siputilsNoDebug true]⟩

/-- build-sip.cmd, in the directory that the release is unpacked to. -/
def buildSip : List Part :=
  [⟨"sip/sip-4.19.13".toList, none, [.forSed "*.h".toList]⟩,
   ⟨"sip/sip-4.19.13".toList, none, [.forSed "*.c*".toList]⟩, patchSiputils]

def qscintillaPro : PatchFile :=
  ⟨"+++ Qt4Qt5/qscintilla.pro\tThu Oct 15 16:14:55 2015".toList⟩

/-- The patch InputEditor.cpp.patch. -/
def inputEditorCpp : PatchFile :=
  ⟨"+++ Qt4Qt5/InputMethod.cpp\t2016-02-19 13:35:08.505973600 +0000".toList⟩

def patchQscintillaPro : Part :=
  ⟨"qscintilla2/QScintilla-gpl-2.8.4".toList, some "Qt4Qt5\\qscintilla.pro.orig".toList,
   [.patch qscintillaPro true]⟩

def patchInputMethod : Part :=
  ⟨"qscintilla2/QScintilla-gpl-2.8.4".toList, some "Qt4Qt5\\InputEditor.cpp.orig".toList,
   [.patch inputEditorCpp true]⟩

/-- build-qscintilla2-qt4.bat. -/
def buildQscintilla2 : List Part := [patchQscintillaPro, patchInputMethod]

def configurePy : PatchFile :=
  ⟨"+++ configure.py\t2019-12-19 13:32:24.076436500 +0000".toList⟩

def findqtdll : PatchFile :=
  ⟨"+++ __init__.py\t2019-12-19 12:37:05.414974900 +0000".toList⟩

/-- The patched part of `:do-build`, for a type of build. -/
def doBuild (buildtype : Text) : Part :=
  ⟨"pyqt5/".toList ++ buildtype ++ "/PyQt5_gpl-5.11.3".toList, some "configure.py.orig".toList,
   [.patch configurePy true, .patch findqtdll true, .forSed "*.h".toList,
    .forSed "*.cpp*".toList]⟩

/-- build-pyqt5.bat: the private sip first, then the sources once for each type
of build. -/
def buildPyqt5 : List Part := buildSip ++ [doBuild "debug".toList, doBuild "release".toList]

def win32AsyncioSelector : PatchFile :=
  ⟨"+++ Lib/site-packages/tornado/platform/asyncio.py\t2020-01-20 16:15:43.383954700 +0000".toList⟩

/-- In the directory that Python is installed in; the name of the mark is the one
behind that directory. -/
def patchAsyncio : Part :=
  ⟨"lib/python3.8".toList,
   some "Lib\\site-packages\\tornado\\platform\\asyncio.py.orig".toList,
   [.patch win32AsyncioSelector false]⟩

/-- fixup-python3.bat. -/
def fixupPython3 : List Part := [patchAsyncio]

/-- The scripts that patch sources behind a guard. -/
def scripts : List (List Part) := [buildSip, buildQscintilla2, buildPyqt5, fixupPython3]

/-! ## Patched once -/

def Stmt.patchFile? : Stmt → Option PatchFile
  | .patch p _ => some p
  | .forSed _ => none

def Stmt.pattern? : Stmt → Option Text
  | .patch _ _ => none
  | .forSed pattern => some pattern

namespace Part

/-- The patches behind the guard. -/
def patches (part : Part) : List PatchFile := part.body.filterMap Stmt.patchFile?

/-- The wildcards of the loops behind the guard. -/
def patterns (part : Part) : List Text := part.body.filterMap Stmt.pattern?

/-- A command does not run a patch of the part on a file that holds its hunks. -/
def NotHeld (tool : Tool) (part : Part) (t : Tree Path Text) (c : Command) : Prop :=
  ∀ p ∈ part.patches, ∀ backup, c = .patch p backup part.dir →
    ∀ contents, Tree.read t ⟨part.dir, p.target⟩ = some contents → tool.held p contents = 0

/-- All that the part does has been done to the sources `t₀`: each patched file
holds the hunks once, and the substitution has been made in each file of the
loops. -/
structure Applied (tool : Tool) (part : Part) (t₀ t : Tree Path Text) : Prop where
  patched : ∀ p ∈ part.patches, ∃ contents,
    Tree.read t ⟨part.dir, p.target⟩ = some contents ∧ tool.held p contents = 1
  substituted : ∀ pattern ∈ part.patterns, ∀ name contents,
    matchesPattern pattern name = true → Tree.read t₀ ⟨part.dir, name⟩ = some contents →
      ∃ k ≥ 1, Tree.read t ⟨part.dir, name⟩ = some (wrapText^[k] contents)

/-- The sources as they are unpacked: no mark, and the contents that the patches
have been made for. -/
structure Pristine (tool : Tool) (part : Part) (t₀ : Tree Path Text) : Prop where
  unmarked : part.guarded t₀ = false
  clean : ∀ p ∈ part.patches, ∃ contents,
    Tree.read t₀ ⟨part.dir, p.target⟩ = some contents ∧ tool.Clean p contents

end Part

/-- In a history of runs that begins with the sources `t₀`, no patch of the part
is run on a file that holds its hunks, and each run that comes to its end leaves
all applied. -/
def AppliedOnce (tool : Tool) (script : List Part) (part : Part) (t₀ : Tree Path Text)
    (history : List Stop) : Prop :=
  Throughout (exec tool) (executed (exec tool) (script.map (Part.commands tool)))
    (part.NotHeld tool) (part.Applied tool t₀) t₀ history

/-! ## The condition -/

namespace Part

/-- The first command of the part leaves the file behind that its guard asks
for. -/
def marksFirst (part : Part) : Bool :=
  match part.guard, part.body with
  | some name, .patch p true :: _ => fromWindows name == backupName p.target
  | _, _ => false

/-- The commands that the part comes to in the sources as they are unpacked. -/
def listing (part : Part) (t₀ : Tree Path Text) : List Command :=
  part.body.flatMap fun stmt => stmt.commands part.dir t₀

/-- A command that a run may leave out when it has done the ones in `done`: a
substitution in a file that has had it, or that has nothing to substitute. -/
def Spared (t₀ : Tree Path Text) (done : List Command) : Command → Prop
  | .patch _ _ _ => False
  | .sed file => .sed file ∈ done ∨
      ∀ contents, Tree.read t₀ file = some contents → wrapText contents = contents

/-- The condition on a history for part number `i` of a script. A part that marks
first needs that the run that begins it leaves nothing out, unless no run ever
comes to its end; one that does not mark is begun at most once. -/
def HoldsWhen (part : Part) (i : ℕ) (t₀ : Tree Path Text) (history : List Stop) : Prop :=
  if part.marksFirst then
    none ∈ history → ∀ stop, history.find? (·.starts i) = some stop →
      ∀ c ∈ stop.omitted i (part.listing t₀), Spared t₀ (stop.portion i (part.listing t₀)) c
  else (history.filter (·.starts i)).length ≤ 1

end Part

end Patch
