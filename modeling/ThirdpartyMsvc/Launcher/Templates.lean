import ThirdpartyMsvc.Launcher.EntryPoints
import ThirdpartyMsvc.Text.Format

/-!
# The templates of write-launcher-script.py

The two templates, line by line, the values that are put into them, and the
texts that result. Every field of a template has a value, so formatting never
fails.
-/

namespace Launcher

open Text

def pyExecutable : Text := "%~dp0\\..\\python.exe".toList

def shebangTemplate : Text := "#!{executable}".toList

def generatedLine : Text :=
  "# This script was automatically generated by write-launcher-script.py".toList

def mainLine : Text := "if __name__ == '__main__':".toList

def importTemplate : Text := "    from {mod} import {func}".toList

def callTemplate : Text := "    {func}()".toList

def scriptSrc : Text :=
  unlines [shebangTemplate, generatedLine, mainLine, importTemplate, callTemplate]

/-- The lines of the .cmd template before its command line. -/
def cmdPreamble : List Text :=
  ["@echo off".toList,
    "REM This script was automatically generated by write-launcher-script.py".toList,
    "setlocal enableextensions".toList,
    "REM python launcher script. Uses a relative path to the Python".toList,
    "REM executable to ensure it is relocatable".toList,
    "set _this_dir=%~dp0".toList]

def commandTemplate : Text := "{executable} %_this_dir%{startupscript} %*".toList

def cmdSrc : Text := unlines (cmdPreamble ++ [commandTemplate])

/-- get_context of PyLauncherWriter. -/
def scriptContext (e : EntryPoint) : List (Text × Text) :=
  [("executable".toList, pyExecutable), ("mod".toList, e.modname), ("func".toList, e.entryFunc)]

/-- get_context of WindowsCmdMaker. -/
def cmdContext (startupscript : Text) : List (Text × Text) :=
  [("executable".toList, pyExecutable), ("startupscript".toList, startupscript)]

def shebangLine : Text := "#!".toList ++ pyExecutable

def importLine (e : EntryPoint) : Text :=
  "    from ".toList ++ (e.modname ++ (" import ".toList ++ e.entryFunc))

def callLine (e : EntryPoint) : Text := "    ".toList ++ (e.entryFunc ++ "()".toList)

/-- The text of the Python launcher of an entry. -/
def scriptText (e : EntryPoint) : Text :=
  unlines [shebangLine, generatedLine, mainLine, importLine e, callLine e]

/-- The command line of the .cmd launcher. -/
def commandLine (startupscript : Text) : Text :=
  pyExecutable ++ (" %_this_dir%".toList ++ (startupscript ++ " %*".toList))

/-- The text of the .cmd launcher of a script. -/
def cmdText (startupscript : Text) : Text := unlines (cmdPreamble ++ [commandLine startupscript])

theorem commandLine_inj {m n : Text} : commandLine m = commandLine n ↔ m = n := by
  unfold commandLine
  rw [List.append_right_inj, List.append_right_inj, List.append_left_inj]

section format

variable (e : EntryPoint) (startupscript : Text)

theorem formatFrom_shebangTemplate :
    formatFrom (scriptContext e) none shebangTemplate = some shebangLine := by
  unfold shebangTemplate shebangLine
  simp [scriptContext, formatFrom]

theorem formatFrom_importTemplate :
    formatFrom (scriptContext e) none importTemplate = some (importLine e) := by
  unfold importTemplate importLine
  simp [scriptContext, formatFrom, List.lookup_cons]

theorem formatFrom_callTemplate :
    formatFrom (scriptContext e) none callTemplate = some (callLine e) := by
  unfold callTemplate callLine
  simp [scriptContext, formatFrom, List.lookup_cons]

theorem formatFrom_commandTemplate :
    formatFrom (cmdContext startupscript) none commandTemplate =
      some (commandLine startupscript) := by
  unfold commandTemplate commandLine
  simp [cmdContext, formatFrom, List.lookup_cons]

/-- Formatting the template of the Python launcher never fails. -/
theorem format_scriptSrc : format (scriptContext e) scriptSrc = some (scriptText e) := by
  apply format_unlines
  refine .cons (formatFrom_shebangTemplate e) (.cons ?_ (.cons ?_
    (.cons (formatFrom_importTemplate e) (.cons (formatFrom_callTemplate e) .nil))))
  · exact formatFrom_of_no_brace _ _ (by unfold generatedLine; simp)
  · exact formatFrom_of_no_brace _ _ (by unfold mainLine; simp)

/-- Formatting the template of the .cmd launcher never fails. -/
theorem format_cmdSrc :
    format (cmdContext startupscript) cmdSrc = some (cmdText startupscript) := by
  have hpreamble : ∀ l ∈ cmdPreamble, ∀ c ∈ l, c ≠ '\x7b' ∧ c ≠ '\x7d' := by
    unfold cmdPreamble
    simp
  apply format_unlines
  have hsame : List.Forall₂ (fun l u =>
      formatFrom (cmdContext startupscript) none l = some u) cmdPreamble cmdPreamble := by
    rw [List.forall₂_same]
    intro l hl
    exact formatFrom_of_no_brace _ l (hpreamble l hl)
  exact List.rel_append hsame (.cons (formatFrom_commandTemplate startupscript) .nil)

end format

end Launcher
