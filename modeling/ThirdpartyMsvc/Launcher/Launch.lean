import ThirdpartyMsvc.Launcher.CmdLine
import ThirdpartyMsvc.Launcher.ExitStatus
import ThirdpartyMsvc.Launcher.Pass

/-!
# From the entry-point files to the entry point

What a command does behind a pass of fixup-python3.bat, when the directory of
the scripts has been moved to an arbitrary place. The parts are the files that
the pass leaves, the batch language that runs a .cmd file, and the Python script
that it starts. `launches_iff` puts them together: the command `s` runs the entry
point of the last entry whose name is `s` up to its extension, from directories
without breaking characters, and if its attribute path is a single identifier.
-/

namespace Launcher

open Python Store Text Shell

/-- The .cmd file of `s` among the scripts of `d`, run from the directory `D`
with arguments `a`, starts the interpreter above `D` and nothing else. It
starts it on a script that stands beside the .cmd file, passes the arguments on,
and the script runs the entry point `as` of the module `m`. -/
def Launches (T : CharTable) (w : World) (d : Text) (D : Directory) (s a : Text)
    (m as : List Text) : Prop :=
  ∃ t call n text b, w.file d (cmdName s) = some (.file t) ∧
    runScript D.dp0 a t = [call] ∧
    SamePath call.program (D.text ++ "\\..\\python.exe".toList) ∧
    firstArgument call.tail = (D.dp0 ++ n, ' ' :: a) ∧
    w.file d n = some (.file text) ∧ parseModule T text = some b ∧
    b.run = some (entryEvents m as)

theorem isScriptChar_of_mem_passEntries {T : CharTable} {files : List (Option Text)}
    {e : EntryPoint} (he : e ∈ passEntries T files) : ∀ c ∈ e.name, isScriptChar c = true := by
  obtain ⟨file, -, he⟩ := List.mem_flatMap.mp he
  cases file with
  | none => cases he
  | some text =>
      rw [Option.elim_some] at he
      cases hes : getEntryPoints T text with
      | error x =>
          rw [fileEntries_of_error hes] at he
          cases he
      | ok es =>
          rw [fileEntries_of_ok hes] at he
          obtain ⟨-, hchars⟩ := name_of_mem_getEntryPoints hes he
          exact fun c hc => isScriptChar_of_isNameChar (hchars c hc)

section script

variable {T : CharTable} (F : EntryFunction T) (n : Text)

theorem parseModule_entryFunction :
    parseModule T (scriptText (F.entryPoint n)) =
      parseBlock 4 0 (launcherLines F.modpath F.attrpath) :=
  parseModule_scriptText (fun p hp => (F.modpath_identifiers p hp).1)
    (fun p hp => (F.attrpath_identifiers p hp).1) F.attrpath_ne_nil (F.entryPoint n) rfl rfl

/-- The script of a function runs an entry point only if the path of the
function is a single identifier, and then it runs this one. -/
theorem runs_scriptText_iff (m as : List Text) :
    (∃ b, parseModule T (scriptText (F.entryPoint n)) = some b ∧
        b.run = some (entryEvents m as)) ↔
      F.modpath = m ∧ F.attrpath = as ∧ ∃ q, as = [q] := by
  have hblock : ∀ b, parseBlock 4 0 (launcherLines F.modpath F.attrpath) = some b ↔ _ :=
    parseBlock_launcherLines_eq_some_iff (fun p hp => (F.modpath_identifiers p hp).2)
      F.modpath_ne_nil
  rw [parseModule_entryFunction]
  constructor
  · rintro ⟨b, hb, hrun⟩
    obtain ⟨q, hq, -, rfl⟩ := (hblock b).mp hb
    rw [run_launcher, Option.some.injEq] at hrun
    obtain rfl : F.modpath = m := Event.importModule.inj (List.cons.inj hrun).1
    have has := (entryEvents_eq_singleton_iff F.modpath as q).mp hrun
    exact ⟨rfl, hq.trans has.symm, q, has⟩
  · rintro ⟨rfl, rfl, q, hq⟩
    refine ⟨_, (hblock _).mpr ⟨q, hq, (F.attrpath_identifiers q (by simp [hq])).2, rfl⟩, ?_⟩
    rw [run_launcher, hq]

end script

/-- A function of the module bar. -/
def barFunction (c : Char) (t : Text) (h : ∀ d ∈ c :: t, d.toNat < 128 ∧ d.isAlpha = true)
    (hkey : isKeyword (c :: t) = false) : EntryFunction .ascii where
  modpath := ["bar".toList]
  attrpath := [c :: t]
  modpath_ne_nil := fooLine.modpath_ne_nil
  attrpath_ne_nil := List.cons_ne_nil _ _
  modpath_identifiers := fooLine.modpath_identifiers
  attrpath_identifiers := List.forall_mem_singleton.mpr ⟨isIdentifier_of_isAlpha c t h, hkey⟩

end Launcher
