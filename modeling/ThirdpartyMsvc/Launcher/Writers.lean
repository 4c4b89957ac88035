import ThirdpartyMsvc.Launcher.Templates
import ThirdpartyMsvc.Python.NtPath
import ThirdpartyMsvc.Store.LastWrite

/-!
# Writing the launchers

The writers of write-launcher-script.py over a file system whose files are
found under the two parts that split makes of their paths. A successful run of
the loop over the entries is one sequence of writes, `entryPuts` for each entry,
whatever the directory held before (`writeAll_ok`).
-/

namespace Launcher

open Python Store Text

inductive Node where
  | file (t : Text)
  | directory
deriving DecidableEq, Repr

/-- The files, and the paths of existing directories. A directory may have
several spellings; the one that split finds is one of them. -/
structure World where
  nodes : Text × Text → Option Node
  dirs : Text → Bool
  rooted : ∀ d, dirs d = true → IsDirPath d
  spelling : ∀ d, dirs d = true → dirs (dirKey d) = true
  dir_node : ∀ d, dirs d = true → (split d).2 ≠ [] → nodes (split d) = some .directory

namespace World

/-- Puts a file, or nothing, where no directory is. -/
def set (w : World) (k : Text × Text) (v : Option Node) (h : w.nodes k ≠ some .directory) :
    World :=
  { w with
    nodes := Function.update w.nodes k v
    dir_node := fun d hd hne => by
      have hnode := w.dir_node d hd hne
      rw [Function.update_of_ne _ _ _, hnode]
      rintro rfl
      exact h hnode }

/-- os.path.exists. -/
def pathExists (w : World) (path : Text) : Bool := w.dirs path || (w.nodes (split path)).isSome

/-- The file of a name in a directory. -/
def file (w : World) (d name : Text) : Option Node := w.nodes (split (join d name))

end World

/-- The exceptions that the scripts end with. -/
inductive Exc where
  | valueError
  | attributeError
  | keyError
  | osError
deriving DecidableEq, Repr

/-- A computation that changes the files and may end with an exception. -/
def Action (α : Type) : Type := World → Except Exc α × World

namespace Action

instance : Monad Action where
  pure a := fun w => (.ok a, w)
  bind x f := fun w =>
    match x w with
    | (.ok a, w') => f a w'
    | (.error e, w') => (.error e, w')

def raise {α : Type} (e : Exc) : Action α := fun w => (.error e, w)

def gets {α : Type} (f : World → α) : Action α := fun w => (.ok (f w), w)

def require (b : Bool) (e : Exc) : Action Unit := if b then pure () else raise e

/-- A sequence succeeds exactly when both parts do, one behind the other. -/
theorem bind_ok {α β : Type} {x : Action α} {f : α → Action β} {w w'' : World} {b : β} :
    (x >>= f) w = (.ok b, w'') ↔ ∃ a w', x w = (.ok a, w') ∧ f a w' = (.ok b, w'') := by
  change (match x w with
    | (.ok a, w') => f a w'
    | (.error e, w') => (.error e, w')) = _ ↔ _
  cases hx : x w with
  | mk r w' =>
      cases r with
      | ok a => simp
      | error e => simp

theorem bind_of_ok {α β : Type} {x : Action α} {f : α → Action β} {w w' : World} {a : α}
    (h : x w = (.ok a, w')) : (x >>= f) w = f a w' := by
  change (match x w with
    | (.ok a, w') => f a w'
    | (.error e, w') => (.error e, w')) = _
  rw [h]

theorem bind_of_error {α β : Type} {x : Action α} {f : α → Action β} {w w' : World} {e : Exc}
    (h : x w = (.error e, w')) : (x >>= f) w = (.error e, w') := by
  change (match x w with
    | (.ok a, w') => f a w'
    | (.error e, w') => (.error e, w')) = _
  rw [h]

theorem pure_ok {α : Type} {a b : α} {w w' : World} :
    (pure a : Action α) w = (.ok b, w') ↔ a = b ∧ w = w' := by
  change (Except.ok a, w) = (Except.ok b, w') ↔ _
  simp

theorem gets_ok {α : Type} {f : World → α} {a : α} {w w' : World} :
    gets f w = (.ok a, w') ↔ f w = a ∧ w = w' := by
  rw [gets]
  simp

theorem raise_ok {α : Type} {e : Exc} {b : α} {w w' : World} :
    (raise e : Action α) w ≠ (.ok b, w') := by
  intro h
  cases (Prod.mk.inj h).1

theorem require_ok {b : Bool} {e : Exc} {w w' : World} (h : require b e w = (.ok (), w')) :
    w = w' := by
  cases b with
  | false => exact absurd h raise_ok
  | true => exact (pure_ok.mp h).2

end Action

open Launcher.Action

/-! ## The operations on files -/

/-- open for writing, which empties the file. A name of dots alone is a
directory, and the directory around the file must exist. -/
def openWrite (path : Text) : Action Unit := fun w =>
  if (split path).2.all (· = '.') then (.error .osError, w)
  else if (split path).1 ≠ [] ∧ w.dirs (split path).1 = false then (.error .osError, w)
  else if h : w.nodes (split path) = some .directory then (.error .osError, w)
  else (.ok (), w.set (split path) (some (.file [])) h)

/-- write to the open file. -/
def write (path t : Text) : Action Unit := fun w =>
  if h : w.nodes (split path) = some .directory then (.error .osError, w)
  else (.ok (), w.set (split path) (some (.file t)) h)

/-- os.remove. -/
def remove (path : Text) : Action Unit := fun w =>
  match h : w.nodes (split path) with
  | some (.file _) => (.ok (), w.set (split path) none (by simp [h]))
  | _ => (.error .osError, w)

/-! ## The writers -/

structure ScriptWriter where
  targetDir : Text
  filename : Text
  template : Text
  context : List (Text × Text)
  postProcess : Text → Action Unit

/-- template.format(**context). -/
def ScriptWriter.formatted (s : ScriptWriter) : Action Text :=
  match format s.context s.template with
  | some text => pure text
  | none => raise .keyError

/-- make. In a missing directory it stumbles over the attribute targer_dir. -/
def ScriptWriter.make (s : ScriptWriter) : Action Text := do
  let found ← gets (·.pathExists s.targetDir)
  require found .attributeError
  let outfile := join s.targetDir s.filename
  openWrite outfile
  let text ← s.formatted
  write outfile text
  s.postProcess outfile
  return outfile

def pyLauncherWriter (targetDir : Text) (e : EntryPoint) : ScriptWriter where
  targetDir := targetDir
  filename := e.name
  template := scriptSrc
  context := scriptContext e
  postProcess _ := pure ()

/-- post_process of WindowsCmdMaker. -/
def removeExe (rmExe : Bool) (outfile : Text) : Action Unit :=
  if rmExe then do
    let exefile := (splitExt outfile).1 ++ ".exe".toList
    let found ← gets (·.pathExists exefile)
    if found then remove exefile
  else pure ()

def windowsCmdMaker (startupscript : Text) (rmExe : Bool) : ScriptWriter where
  targetDir := (split startupscript).1
  filename := (splitExt (split startupscript).2).1 ++ ".cmd".toList
  template := cmdSrc
  context := cmdContext (split startupscript).2
  postProcess := removeExe rmExe

/-- The loop of write_console_scripts. -/
def writeAll (targetDir : Text) (rmExe : Bool) : List EntryPoint → Action Unit
  | [] => pure ()
  | e :: es => do
      let filename ← (pyLauncherWriter targetDir e).make
      let _ ← (windowsCmdMaker filename rmExe).make
      writeAll targetDir rmExe es

/-- write_console_scripts, on the text of the entry-point file. -/
def writeConsoleScripts (T : CharTable) (text targetDir : Text) (rmExe : Bool) : Action Unit :=
  match getEntryPoints T text with
  | .error _ => raise .valueError
  | .ok es => writeAll targetDir rmExe es

/-! ## A successful run is a sequence of writes -/

section run

theorem openWrite_ok {path : Text} {w w' : World} (h : openWrite path w = (.ok (), w')) :
    w'.dirs = w.dirs ∧ w'.nodes = Function.update w.nodes (split path) (some (.file [])) ∧
      ∃ c ∈ (split path).2, c ≠ '.' := by
  rw [openWrite] at h
  split at h
  case isTrue => cases (Prod.mk.inj h).1
  case isFalse hdots =>
    split at h
    case isTrue => cases (Prod.mk.inj h).1
    case isFalse =>
      split at h
      case isTrue => cases (Prod.mk.inj h).1
      case isFalse =>
        obtain rfl := (Prod.mk.inj h).2
        refine ⟨rfl, rfl, ?_⟩
        simpa using hdots

theorem write_ok {path t : Text} {w w' : World} (h : write path t w = (.ok (), w')) :
    w'.dirs = w.dirs ∧ w'.nodes = Function.update w.nodes (split path) (some (.file t)) := by
  rw [write] at h
  split at h
  case isTrue => cases (Prod.mk.inj h).1
  case isFalse =>
    obtain rfl := (Prod.mk.inj h).2
    exact ⟨rfl, rfl⟩

theorem remove_ok {path : Text} {w w' : World} (h : remove path w = (.ok (), w')) :
    w'.dirs = w.dirs ∧ w'.nodes = Function.update w.nodes (split path) none := by
  rw [remove] at h
  split at h
  case h_1 =>
    obtain rfl := (Prod.mk.inj h).2
    exact ⟨rfl, rfl⟩
  case h_2 => cases (Prod.mk.inj h).1

/-- A writer that succeeds has written its text, and then post-processed it. -/
theorem make_ok {s : ScriptWriter} {w w' : World} {out text : Text}
    (hformat : format s.context s.template = some text) (h : s.make w = (.ok out, w')) :
    out = join s.targetDir s.filename ∧ (∃ c ∈ (split out).2, c ≠ '.') ∧
      ∃ v : World, v.dirs = w.dirs ∧
        v.nodes = Function.update w.nodes (split out) (some (.file text)) ∧
        s.postProcess out v = (.ok (), w') := by
  rw [ScriptWriter.make] at h
  obtain ⟨found, w₁, hfound, h⟩ := bind_ok.mp h
  obtain ⟨-, rfl⟩ := gets_ok.mp hfound
  obtain ⟨_, w₂, hrequire, h⟩ := bind_ok.mp h
  obtain rfl := require_ok hrequire
  obtain ⟨_, w₃, hopen, h⟩ := bind_ok.mp h
  obtain ⟨t, w₄, ht, h⟩ := bind_ok.mp h
  obtain ⟨rfl, rfl⟩ : text = t ∧ w₃ = w₄ := by
    rw [ScriptWriter.formatted, hformat] at ht
    exact pure_ok.mp ht
  obtain ⟨_, w₅, hwrite, h⟩ := bind_ok.mp h
  obtain ⟨_, w₆, hpost, h⟩ := bind_ok.mp h
  obtain ⟨rfl, rfl⟩ := pure_ok.mp h
  obtain ⟨hdirs, hnodes, hdots⟩ := openWrite_ok hopen
  obtain ⟨hdirs', hnodes'⟩ := write_ok hwrite
  refine ⟨rfl, hdots, w₅, hdirs'.trans hdirs, ?_, hpost⟩
  rw [hnodes', hnodes, Function.update_idem]

theorem removeExe_ok {rmExe : Bool} {outfile : Text} {w w' : World}
    (h : removeExe rmExe outfile w = (.ok (), w')) :
    w'.dirs = w.dirs ∧ w'.nodes = if rmExe then
      Function.update w.nodes (split ((splitExt outfile).1 ++ ".exe".toList)) none
      else w.nodes := by
  rw [removeExe] at h
  cases rmExe with
  | false =>
      obtain ⟨-, rfl⟩ := pure_ok.mp h
      exact ⟨rfl, rfl⟩
  | true =>
      rw [if_pos rfl] at h
      obtain ⟨found, w₁, hfound, h⟩ := bind_ok.mp h
      obtain ⟨rfl, rfl⟩ := gets_ok.mp hfound
      split at h
      case isTrue =>
        rw [if_pos rfl]
        exact remove_ok h
      case isFalse hnot =>
        obtain ⟨-, rfl⟩ := pure_ok.mp h
        refine ⟨rfl, ?_⟩
        have hnone : w.nodes (split ((splitExt outfile).1 ++ ".exe".toList)) = none := by
          simp only [World.pathExists, Bool.or_eq_true, Option.isSome_iff_ne_none] at hnot
          by_contra hsome
          exact hnot (Or.inr hsome)
        rw [if_pos rfl, ← hnone, Function.update_eq_self]

/-- The extension-less name that the .cmd file is built from. -/
def stem (name : Text) : Text := (splitExt name).1

def cmdName (s : Text) : Text := s ++ ".cmd".toList

def exeName (s : Text) : Text := s ++ ".exe".toList

/-- The writes of one round of the loop, into the directory `d`. -/
def entryPuts (d : Text) (rmExe : Bool) (e : EntryPoint) : List (Put (Text × Text) Node) :=
  [⟨(d, e.name), some (.file (scriptText e))⟩,
    ⟨(d, cmdName (stem e.name)), some (.file (cmdText e.name))⟩] ++
  if rmExe then [⟨(d, exeName (stem e.name)), none⟩] else []

theorem isFileName_append_ext {v e : Text} (hv : IsFileName v)
    (he : ∀ c ∈ e, isSep c = false ∧ c ≠ ':') : IsFileName (v ++ e) := by
  refine ⟨by simp [hv.1], ?_⟩
  intro c hc
  rcases List.mem_append.mp hc with hc | hc
  · exact hv.2 c hc
  · exact he c hc

theorem isFileName_cmdName {v : Text} (hv : IsFileName v) : IsFileName (cmdName v) :=
  isFileName_append_ext hv (forall_mem_of_all (by decide))

theorem isFileName_exeName {v : Text} (hv : IsFileName v) : IsFileName (exeName v) :=
  isFileName_append_ext hv (forall_mem_of_all (by decide))

section entry

variable {d : Text} {e : EntryPoint}

/-- The .cmd file stands in the directory of the script, in the spelling that
split finds. -/
theorem windowsCmdMaker_join (hd : IsDirPath d) (hname : IsFileName e.name) (rmExe : Bool) :
    windowsCmdMaker (join d e.name) rmExe =
      ⟨dirKey d, cmdName (stem e.name), cmdSrc, cmdContext e.name, removeExe rmExe⟩ := by
  rw [windowsCmdMaker, split_join hd hname]
  rfl

theorem split_join_dirKey {n : Text} (hd : IsDirPath d) (hn : IsFileName n) :
    split (join (dirKey d) n) = (dirKey d, n) := by
  rw [split_join (isDirPath_dirKey hd) hn, dirKey_dirKey hd]

/-- The .exe file that is removed behind the .cmd file. -/
theorem exePath_cmdName (hd : IsDirPath d) (hname : IsFileName e.name)
    (hdots : ∃ c ∈ e.name, c ≠ '.') :
    (splitExt (join (dirKey d) (cmdName (stem e.name)))).1 ++ ".exe".toList =
      join (dirKey d) (exeName (stem e.name)) := by
  have hstem : IsFileName (stem e.name) := isFileName_splitExt hname
  have hcmd : ∀ c ∈ ['c', 'm', 'd'], isSep c = false ∧ c ≠ '.' ∧ c ≠ ':' :=
    forall_mem_of_all (by decide)
  have hext : (splitExt (join (dirKey d) (cmdName (stem e.name)))).1 =
      join (dirKey d) (stem e.name) :=
    splitExt_join (isDirPath_dirKey hd) hstem (exists_ne_dot_splitExt hdots) hcmd
  rw [hext]
  exact join_append (isDirPath_dirKey hd) hstem (isFileName_exeName hstem)

/-- The script is found under the name of its entry. -/
theorem pyLauncherWriter_ok {w v : World} {out : Text} (hd : IsDirPath d)
    (hname : IsFileName e.name) (h : (pyLauncherWriter d e).make w = (.ok out, v)) :
    out = join d e.name ∧ (∃ c ∈ e.name, c ≠ '.') ∧ v.dirs = w.dirs ∧
      v.nodes = Function.update w.nodes (dirKey d, e.name) (some (.file (scriptText e))) := by
  have hscript : format (pyLauncherWriter d e).context (pyLauncherWriter d e).template =
      some (scriptText e) := format_scriptSrc e
  obtain ⟨rfl, hdots, v', hdirs, hnodes, hpost⟩ := make_ok hscript h
  obtain ⟨-, rfl⟩ := pure_ok.mp hpost
  change ∃ c ∈ (split (join d e.name)).2, c ≠ '.' at hdots
  change v'.nodes = Function.update w.nodes (split (join d e.name)) _ at hnodes
  rw [split_join hd hname] at hdots hnodes
  exact ⟨rfl, hdots, hdirs, hnodes⟩

/-- One round of the loop: its two writers find the same directory. -/
theorem writeEntry_ok {rmExe : Bool} {w v w' : World}
    {out out' : Text} (hd : w.dirs d = true) (hname : IsFileName e.name)
    (hpy : (pyLauncherWriter d e).make w = (.ok out, v))
    (hcmd : (windowsCmdMaker out rmExe).make v = (.ok out', w')) :
    w'.dirs = w.dirs ∧ w'.nodes = applyAll (entryPuts (dirKey d) rmExe e) w.nodes := by
  have hpath := w.rooted d hd
  have hstem : IsFileName (stem e.name) := isFileName_splitExt hname
  obtain ⟨rfl, hdots, hdirs, hnodes⟩ := pyLauncherWriter_ok hpath hname hpy
  have hformat : format (windowsCmdMaker (join d e.name) rmExe).context
      (windowsCmdMaker (join d e.name) rmExe).template = some (cmdText e.name) := by
    rw [windowsCmdMaker_join hpath hname]
    exact format_cmdSrc e.name
  rw [windowsCmdMaker_join hpath hname] at hformat hcmd
  obtain ⟨rfl, -, u, hdirs', hnodes', hpost⟩ := make_ok hformat hcmd
  obtain ⟨hdirs'', hnodes''⟩ := removeExe_ok hpost
  refine ⟨hdirs''.trans (hdirs'.trans hdirs), ?_⟩
  rw [hnodes'', hnodes', hnodes, exePath_cmdName hpath hname hdots,
    split_join_dirKey hpath (isFileName_cmdName hstem),
    split_join_dirKey hpath (isFileName_exeName hstem)]
  cases rmExe <;> rfl

end entry

/-- A successful loop is the sequence of the writes of its rounds. -/
theorem writeAll_ok {d : Text} {rmExe : Bool} (es : List EntryPoint)
    (hnames : ∀ e ∈ es, IsFileName e.name) {w w' : World} (hd : w.dirs d = true)
    (h : writeAll d rmExe es w = (.ok (), w')) :
    w'.dirs = w.dirs ∧ w'.nodes = applyAll (es.flatMap (entryPuts (dirKey d) rmExe)) w.nodes := by
  induction es generalizing w with
  | nil =>
      obtain ⟨-, rfl⟩ := pure_ok.mp h
      exact ⟨rfl, rfl⟩
  | cons e es ih =>
      obtain ⟨out, v, hpy, h⟩ := bind_ok.mp h
      obtain ⟨out', u, hcmd, h⟩ := bind_ok.mp h
      obtain ⟨hdirs, hnodes⟩ := writeEntry_ok hd (hnames e (by simp)) hpy hcmd
      obtain ⟨hdirs', hnodes'⟩ := ih (fun e' he' => hnames e' (by simp [he'])) (by rw [hdirs, hd]) h
      refine ⟨hdirs'.trans hdirs, ?_⟩
      rw [hnodes', hnodes, List.flatMap_cons, applyAll_append]

end run

end Launcher
