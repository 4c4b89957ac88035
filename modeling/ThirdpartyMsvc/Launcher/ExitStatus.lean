import ThirdpartyMsvc.Launcher.Script
import ThirdpartyMsvc.Launcher.CmdLine
import ThirdpartyMsvc.Python.Exit

/-!
# The exit status of a launcher

The launchers of distlib end in `sys.exit(func())`, so what the entry function
returns becomes the status of the process. The launcher that replaces them
calls the function and drops its result. `pairStatus_eq_iff` compares the two:
the status is kept when the function ends with an exception, or returns None or
zero. An attribute path of several components is no module of Python, and its
launcher always ends with the status of an error.
-/

namespace Launcher

open Python Shell Text

/-- A function, as the path of its module and its path inside the module. -/
structure EntryFunction (T : CharTable) where
  modpath : List Text
  attrpath : List Text
  modpath_ne_nil : modpath ≠ []
  attrpath_ne_nil : attrpath ≠ []
  modpath_identifiers : ∀ p ∈ modpath, IsIdentifier T p ∧ isKeyword p = false
  attrpath_identifiers : ∀ p ∈ attrpath, IsIdentifier T p ∧ isKeyword p = false

namespace EntryFunction

variable {T : CharTable} (F : EntryFunction T)

def entryPoint (name : Text) : EntryPoint := ⟨name, dotted F.modpath, dotted F.attrpath⟩

/-- The object that the entry point denotes. -/
def obj : Obj := attrs (.module F.modpath) F.attrpath

end EntryFunction

/-- A batch file ends with the status of its last command. -/
def batchStatus (status : Call → Status) (calls : List Call) : Status :=
  (calls.getLast?.map status).getD 0

/-- The status of one call of the .cmd launcher of `e` in `D`. The interpreter
above `D` runs the launcher script; other programs have the statuses
`other`. -/
def callStatus (T : CharTable) (D : Directory) (e : EntryPoint) (calls : Obj → Outcome)
    (other : Call → Status) (call : Call) : Status :=
  if SamePath call.program (D.text ++ "\\..\\python.exe".toList) ∧
      (firstArgument call.tail).1 = D.dp0 ++ e.name then
    programStatus T calls (scriptText e)
  else other call

/-- The status of the process that the .cmd launcher starts, with arguments
`a`, when the objects of Python behave as `calls` says. -/
def pairStatus (T : CharTable) (D : Directory) (a : Text) (e : EntryPoint)
    (calls : Obj → Outcome) (other : Call → Status) : Status :=
  batchStatus (callStatus T D e calls other) (cmdCalls D e.name a)

/-- The status of the launcher that distlib generates from SCRIPT_TEMPLATE. -/
def distlibStatus (calls : Obj → Outcome) (f : Obj) : Status := (sysExit (calls f)).status

section status

variable {T : CharTable} (F : EntryFunction T) (name : Text) (calls : Obj → Outcome)

/-- A single identifier is imported and called, and its result is dropped. -/
theorem programStatus_single {q : Text} (hq : F.attrpath = [q]) :
    programStatus T calls (scriptText (F.entryPoint name)) =
      processStatus (calls F.obj).raised := by
  have hparse := parseModule_scriptText (fun p hp => (F.modpath_identifiers p hp).1)
    (fun p hp => (F.attrpath_identifiers p hp).1) F.attrpath_ne_nil (F.entryPoint name) rfl rfl
  have hblock : parseBlock 4 0 (launcherLines F.modpath F.attrpath) = some (.ifThen mainTest
      (.simple (.fromImport F.modpath q) (.simple (.expr (.call (.name q))) .nil)) .nil) :=
    (parseBlock_launcherLines_eq_some_iff (fun p hp => (F.modpath_identifiers p hp).2)
      F.modpath_ne_nil _).mpr ⟨q, hq, (F.attrpath_identifiers q (by simp [hq])).2, rfl⟩
  rw [programStatus, hparse, hblock, Option.bind_some, run_launcher]
  simp [entryEvents, attrEvents, firstRaised, EntryFunction.obj, hq]

/-- A longer path is a SyntaxError. -/
theorem programStatus_dotted (hq : ∀ q, F.attrpath ≠ [q]) :
    programStatus T calls (scriptText (F.entryPoint name)) = 1 := by
  have hparse := parseModule_scriptText (fun p hp => (F.modpath_identifiers p hp).1)
    (fun p hp => (F.attrpath_identifiers p hp).1) F.attrpath_ne_nil (F.entryPoint name) rfl rfl
  have hblock : parseBlock 4 0 (launcherLines F.modpath F.attrpath) = none := by
    rw [Option.eq_none_iff_forall_ne_some]
    intro b hb
    obtain ⟨q, hq', -⟩ := (parseBlock_launcherLines_eq_some_iff
      (fun p hp => (F.modpath_identifiers p hp).2) F.modpath_ne_nil b).mp hb
    exact hq q hq'
  rw [programStatus, hparse, hblock]
  rfl

/-- A launcher that starts Python has the status of its script. -/
theorem pairStatus_of_startsPython {D : Directory} {a : Text} {e : EntryPoint}
    (other : Call → Status) (hstart : StartsPython D e.name a) :
    pairStatus T D a e calls other = programStatus T calls (scriptText e) := by
  obtain ⟨call, hcalls, hprogram, hfirst⟩ := hstart
  rw [pairStatus, hcalls, batchStatus, List.getLast?_singleton, Option.map_some, Option.getD_some,
    callStatus, if_pos ⟨hprogram, by rw [hfirst]⟩]

/-- A launcher that starts Python ends like the launcher of distlib exactly when
the function is a single attribute and its outcome may be dropped, or it is
reached by a longer path and its outcome is an error. -/
theorem pairStatus_eq_iff (D : Directory) (a : Text) (other : Call → Status)
    (hstart : StartsPython D name a) :
    pairStatus T D a (F.entryPoint name) calls other = distlibStatus calls F.obj ↔
      ((∃ q, F.attrpath = [q]) ∧ (calls F.obj).Droppable) ∨
        ((∀ q, F.attrpath ≠ [q]) ∧ (calls F.obj).Errs) := by
  have hpair := pairStatus_of_startsPython (T := T) (e := F.entryPoint name) calls other hstart
  rw [hpair, distlibStatus]
  by_cases hq : ∃ q, F.attrpath = [q]
  · obtain ⟨q, hq⟩ := hq
    rw [programStatus_single F name calls hq, processStatus_raised_eq_iff]
    simp [hq]
  · have hq' : ∀ q, F.attrpath ≠ [q] := fun q h => hq ⟨q, h⟩
    rw [programStatus_dotted F name calls hq', one_eq_status_sysExit_iff]
    simp [hq']

end status

/-- `main` of the module pip. -/
def pipMain : EntryFunction .ascii where
  modpath := ["pip".toList]
  attrpath := ["main".toList]
  modpath_ne_nil := List.cons_ne_nil _ _
  attrpath_ne_nil := List.cons_ne_nil _ _
  modpath_identifiers := List.forall_mem_singleton.mpr
    ⟨isIdentifier_of_isAlpha 'p' ['i', 'p'] (forall_mem_of_all (by decide)), by decide⟩
  attrpath_identifiers := List.forall_mem_singleton.mpr
    ⟨isIdentifier_of_isAlpha 'm' ['a', 'i', 'n'] (forall_mem_of_all (by decide)), by decide⟩

theorem startsPython_pip : StartsPython mantidScripts "pip".toList [] := by
  have hname : ∀ c ∈ "pip".toList, isScriptChar c = true := forall_mem_of_all (by decide +kernel)
  have hplace : ∀ c ∈ mantidScripts.text, (!breaking.contains c) = true :=
    forall_mem_of_all (by decide +kernel)
  refine (startsPython_iff mantidScripts "pip".toList [] hname).mpr ⟨?_, rfl⟩
  intro c hc
  simpa using hplace c hc

theorem pairStatus_eq_pip :
    pairStatus .ascii mantidScripts [] (pipMain.entryPoint "pip".toList)
        (fun _ => .returns .none) (fun _ => 0) =
        distlibStatus (fun _ => .returns .none) pipMain.obj ↔
      ((∃ q, pipMain.attrpath = [q]) ∧ (Outcome.returns .none).Droppable) ∨
        ((∀ q, pipMain.attrpath ≠ [q]) ∧ (Outcome.returns .none).Errs) :=
  pairStatus_eq_iff pipMain "pip".toList (fun _ => .returns .none) mantidScripts [] (fun _ => 0)
    startsPython_pip

/-- A function that reports a failure by returning 1 fails in the launcher of
distlib and succeeds in the one that replaces it. -/
theorem pairStatus_ne_pip :
    StartsPython mantidScripts "pip".toList [] ∧
      ¬ ∀ calls, pairStatus .ascii mantidScripts [] (pipMain.entryPoint "pip".toList) calls
        (fun _ => 0) = distlibStatus calls pipMain.obj := by
  refine ⟨startsPython_pip, ?_⟩
  intro h
  have hpair := pairStatus_of_startsPython (T := .ascii) (e := pipMain.entryPoint "pip".toList)
    (fun _ => .returns (.int 1)) (fun _ => 0) startsPython_pip
  have hstatus := programStatus_single pipMain "pip".toList (fun _ => .returns (.int 1)) rfl
  have heq : (0 : Status) = 1 := (hpair.trans hstatus).symm.trans (h _)
  revert heq
  decide

end Launcher
