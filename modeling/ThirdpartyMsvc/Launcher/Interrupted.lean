import ThirdpartyMsvc.Launcher.Rerun
import ThirdpartyMsvc.Store.BrokenOff

/-!
# Runs of the launcher scripts that are broken off

A run of write-launcher-script.py may be broken off between two of its steps,
and while it writes a file; open has emptied the file by then, and any
beginning of the text may have reached it. The writers are stated once more
here, as computations that can be broken off, and undisturbed they are the ones
of `Launcher.Writers`.

Whatever runs have begun, a pass that comes behind them ends as if it had been
the first one (`writeConsoleScriptsAll_recovers`): they touch nothing that the
pass does not write itself.
-/

namespace Launcher

open Python Store Text
open Launcher.Action

/-- A computation on the files that may be broken off. -/
abbrev Interruptible (α : Type) : Type := Breakable World Exc α

namespace Interruptible

/-- A step that happens at once. -/
def step {α : Type} (x : Action α) : Interruptible α := Breakable.whole x

/-- write to the open file: a beginning of the text may have reached it. -/
def write (path t : Text) : Interruptible Unit where
  run := Launcher.write path t
  left w w' := w' = w ∨ ∃ t', t' <+: t ∧ w' = (Launcher.write path t' w).2

/-- make of a ScriptWriter, with the steps of its post_process. -/
def make (s : ScriptWriter) (postProcess : Text → Interruptible Unit) : Interruptible Text := do
  let found ← step (gets (·.pathExists s.targetDir))
  step (require found .attributeError)
  let outfile := join s.targetDir s.filename
  step (openWrite outfile)
  let text ← step s.formatted
  write outfile text
  postProcess outfile
  return outfile

/-- post_process of WindowsCmdMaker. -/
def removeExe (rmExe : Bool) (outfile : Text) : Interruptible Unit :=
  if rmExe then do
    let exefile := (splitExt outfile).1 ++ ".exe".toList
    let found ← step (gets (·.pathExists exefile))
    if found then step (remove exefile)
  else pure ()

/-- The loop of write_console_scripts. -/
def writeAll (targetDir : Text) (rmExe : Bool) : List EntryPoint → Interruptible Unit
  | [] => pure ()
  | e :: es => do
      let filename ← make (pyLauncherWriter targetDir e) fun _ => pure ()
      let _ ← make (windowsCmdMaker filename rmExe) (removeExe rmExe)
      writeAll targetDir rmExe es

/-- write_console_scripts, on the text of the entry-point file. -/
def writeConsoleScripts (T : CharTable) (text targetDir : Text) (rmExe : Bool) :
    Interruptible Unit :=
  match getEntryPoints T text with
  | .error _ => step (raise .valueError)
  | .ok es => writeAll targetDir rmExe es

/-- write_console_scripts on one file after the other. -/
def writeConsoleScriptsAll (T : CharTable) (targetDir : Text) (rmExe : Bool) :
    List Text → Interruptible Unit
  | [] => pure ()
  | text :: texts => do
      writeConsoleScripts T text targetDir rmExe
      writeConsoleScriptsAll T targetDir rmExe texts

/-- A writer that has opened its file may leave any beginning of its text. -/
theorem left_make {s : ScriptWriter} {postProcess : Text → Interruptible Unit} {w v : World}
    {text t : Text} (hfound : w.pathExists s.targetDir = true)
    (hopen : openWrite (join s.targetDir s.filename) w = (.ok (), v))
    (hformat : format s.context s.template = some text) (ht : t <+: text) :
    (make s postProcess).left w (Launcher.write (join s.targetDir s.filename) t v).2 := by
  have hrequire : (step (require true .attributeError)).run w = (.ok (), w) := rfl
  have hformatted : (step s.formatted).run v = (.ok text, v) := by
    change s.formatted v = (.ok text, v)
    rw [ScriptWriter.formatted, hformat]
    rfl
  rw [← hfound] at hrequire
  exact .inr ⟨_, w, rfl, .inr ⟨(), w, hrequire, .inr ⟨(), v, hopen, .inr
    ⟨text, v, hformatted, .inl (.inr ⟨t, ht, rfl⟩)⟩⟩⟩⟩

/-! ## Undisturbed runs -/

/-- What a computation does when it is not disturbed. -/
def undisturbed {α : Type} (x : Interruptible α) : Action α := x.run

/-- Undisturbed, steps one behind the other are the actions one behind the
other. -/
theorem undisturbed_bind {α β : Type} (x : Interruptible α) (f : α → Interruptible β) :
    undisturbed (x >>= f) = undisturbed x >>= fun a => undisturbed (f a) := by
  funext w
  cases hx : x.run w with
  | mk r w' =>
      change (x >>= f).run w = ((x.run : Action α) >>= fun a => undisturbed (f a)) w
      cases r with
      | ok a => rw [Breakable.run_bind_of_ok f hx, bind_of_ok hx, undisturbed]
      | error e => rw [Breakable.run_bind_of_error f hx, bind_of_error hx]

theorem undisturbed_make (s : ScriptWriter) (postProcess : Text → Interruptible Unit)
    (h : ∀ path, undisturbed (postProcess path) = s.postProcess path) :
    undisturbed (make s postProcess) = s.make := by
  rw [make, ScriptWriter.make]
  simp only [undisturbed_bind, h]
  rfl

theorem undisturbed_removeExe (rmExe : Bool) (outfile : Text) :
    undisturbed (removeExe rmExe outfile) = Launcher.removeExe rmExe outfile := by
  cases rmExe with
  | false => rfl
  | true =>
      rw [removeExe, Launcher.removeExe, if_pos rfl, if_pos rfl, undisturbed_bind]
      congr 1
      funext found
      cases found <;> rfl

theorem undisturbed_writeAll (targetDir : Text) (rmExe : Bool) (es : List EntryPoint) :
    undisturbed (writeAll targetDir rmExe es) = Launcher.writeAll targetDir rmExe es := by
  induction es with
  | nil => rfl
  | cons e es ih =>
      rw [writeAll, Launcher.writeAll, undisturbed_bind, undisturbed_make _ _ fun _ => rfl]
      congr 1
      funext filename
      rw [undisturbed_bind, undisturbed_make _ _ (undisturbed_removeExe rmExe), ih]

theorem undisturbed_writeConsoleScripts (T : CharTable) (text targetDir : Text) (rmExe : Bool) :
    undisturbed (writeConsoleScripts T text targetDir rmExe) =
      Launcher.writeConsoleScripts T text targetDir rmExe := by
  rw [writeConsoleScripts, Launcher.writeConsoleScripts]
  cases getEntryPoints T text with
  | error e => rfl
  | ok es => exact undisturbed_writeAll targetDir rmExe es

/-- Undisturbed, a pass is the pass of `Launcher.Rerun`. -/
theorem undisturbed_writeConsoleScriptsAll (T : CharTable) (targetDir : Text) (rmExe : Bool)
    (texts : List Text) :
    undisturbed (writeConsoleScriptsAll T targetDir rmExe texts) =
      Launcher.writeConsoleScriptsAll T targetDir rmExe texts := by
  induction texts with
  | nil => rfl
  | cons text texts ih =>
      rw [writeConsoleScriptsAll, Launcher.writeConsoleScriptsAll, undisturbed_bind,
        undisturbed_writeConsoleScripts, ih]

end Interruptible

/-! ## What a run touches -/

/-- The directories are the same ones, and so are the files outside of `K`. -/
structure Touches (K : Set (Text × Text)) (w v : World) : Prop where
  dirs : SameDirs w v
  frame : ∀ k ∉ K, v.nodes k = w.nodes k

namespace Touches

variable {K : Set (Text × Text)} {u v w : World}

theorem refl (w : World) : Touches K w w := ⟨SameDirs.refl w, fun _ _ => rfl⟩

theorem trans (h : Touches K w v) (h' : Touches K v u) : Touches K w u :=
  ⟨h.dirs.trans h'.dirs, fun k hk => (h'.frame k hk).trans (h.frame k hk)⟩

theorem set (w : World) {k : Text × Text} (hk : k ∈ K) {n : Option Node}
    (hn : n ≠ some .directory) (h : w.nodes k ≠ some .directory) : Touches K w (w.set k n h) where
  dirs := SameDirs.set w k hn h
  frame k' hk' := by
    have hne : k' ≠ k := by
      rintro rfl
      exact hk' hk
    exact Function.update_of_ne hne _ _

end Touches

section touches

variable {K : Set (Text × Text)} {I : World → Prop}

theorem touches_openWrite {path : Text} (hk : split path ∈ K) (w : World) :
    Touches K w (openWrite path w).2 := by
  rw [openWrite]
  split
  case isTrue => exact .refl w
  case isFalse =>
    split
    case isTrue => exact .refl w
    case isFalse =>
      split
      case isTrue => exact .refl w
      case isFalse hnode => exact .set w hk (by simp) hnode

theorem touches_write {path : Text} (hk : split path ∈ K) (t : Text) (w : World) :
    Touches K w (write path t w).2 := by
  rw [write]
  split
  case isTrue => exact .refl w
  case isFalse hnode => exact .set w hk (by simp) hnode

theorem touches_remove {path : Text} (hk : split path ∈ K) (w : World) :
    Touches K w (remove path w).2 := by
  rw [remove]
  split
  case h_1 hnode => exact .set w hk (by simp) (by simp [hnode])
  case h_2 => exact .refl w

open Interruptible

theorem within_step {α : Type} {x : Action α} (h : ∀ w, Touches K w (x w).2) :
    (step x).Within I (Touches K) := .whole Touches.refl fun w _ => h w

theorem within_gets {α : Type} (f : World → α) : (step (gets f)).Within I (Touches K) :=
  within_step fun w => .refl w

theorem within_require (b : Bool) (e : Exc) : (step (require b e)).Within I (Touches K) := by
  apply within_step
  intro w
  cases b <;> exact .refl w

theorem within_formatted (s : ScriptWriter) : (step s.formatted).Within I (Touches K) := by
  apply within_step
  intro w
  rw [ScriptWriter.formatted]
  cases format s.context s.template <;> exact .refl w

theorem within_write {path : Text} (hk : split path ∈ K) (t : Text) :
    (Interruptible.write path t).Within I (Touches K) where
  run w _ := touches_write hk t w
  left w w' _ h := by
    rcases h with rfl | ⟨t', -, rfl⟩
    · exact .refl _
    · exact touches_write hk t' w

variable (hI : ∀ {w v}, I w → Touches K w v → I v)

include hI

theorem within_bind {α β : Type} {x : Interruptible α} {f : α → Interruptible β}
    (hx : x.Within I (Touches K))
    (hf : ∀ a w w', I w → x.run w = (.ok a, w') → (f a).Within I (Touches K)) :
    (x >>= f).Within I (Touches K) :=
  Breakable.Within.bind (I := I) (R := Touches K) Touches.trans hI hx hf

theorem within_make {s : ScriptWriter} {postProcess : Text → Interruptible Unit}
    (hk : split (join s.targetDir s.filename) ∈ K)
    (hpost : (postProcess (join s.targetDir s.filename)).Within I (Touches K)) :
    (make s postProcess).Within I (Touches K) := by
  rw [make]
  refine within_bind hI (within_gets _) fun found _ _ _ _ => ?_
  refine within_bind hI (within_require found _) fun _ _ _ _ _ => ?_
  refine within_bind hI (within_step (touches_openWrite hk)) fun _ _ _ _ _ => ?_
  refine within_bind hI (within_formatted s) fun text _ _ _ _ => ?_
  refine within_bind hI (within_write hk text) fun _ _ _ _ _ => ?_
  exact within_bind hI hpost fun _ _ _ _ _ => .pure Touches.refl _

theorem within_removeExe {rmExe : Bool} {outfile : Text}
    (hk : rmExe = true → split ((splitExt outfile).1 ++ ".exe".toList) ∈ K) :
    (Interruptible.removeExe rmExe outfile).Within I (Touches K) := by
  rw [Interruptible.removeExe]
  cases rmExe with
  | false => exact .pure Touches.refl ()
  | true =>
      rw [if_pos rfl]
      refine within_bind hI (within_gets _) fun found _ _ _ _ => ?_
      cases found with
      | false => exact .pure Touches.refl ()
      | true => exact within_step (touches_remove (hk rfl))

end touches

/-! ## Passes -/

/-- The files that a sequence of writes is about. -/
def keys (ps : List (Put (Text × Text) Node)) : Set (Text × Text) := {k | ∃ p ∈ ps, p.key = k}

/-- The worlds with the directories `D`. -/
def HasDirs (D : Text → Bool) (w : World) : Prop := w.dirs = D

theorem HasDirs.touches {D : Text → Bool} {K : Set (Text × Text)} {w v : World}
    (hw : HasDirs D w) (h : Touches K w v) : HasDirs D v := h.dirs.dirs.trans hw

section pass

open Interruptible

variable {D : Text → Bool} {d : Text} {rmExe : Bool} {K : Set (Text × Text)}

theorem within_writeAll (hpath : IsDirPath d) (es : List EntryPoint)
    (hnames : ∀ e ∈ es, IsFileName e.name)
    (hK : keys (es.flatMap (entryPuts (dirKey d) rmExe)) ⊆ K) :
    (Interruptible.writeAll d rmExe es).Within (HasDirs D) (Touches K) := by
  induction es with
  | nil => exact .pure Touches.refl ()
  | cons e es ih =>
      have hname : IsFileName e.name := hnames e (by simp)
      have hstem : IsFileName (stem e.name) := isFileName_splitExt hname
      have hrest := ih (fun e' he' => hnames e' (by simp [he'])) fun k ⟨p, hp, hkey⟩ =>
        hK ⟨p, by rw [List.flatMap_cons]; exact List.mem_append_right _ hp, hkey⟩
      have hput : ∀ p ∈ entryPuts (dirKey d) rmExe e, p.key ∈ K := fun p hp =>
        hK ⟨p, by rw [List.flatMap_cons]; exact List.mem_append_left _ hp, rfl⟩
      refine within_bind HasDirs.touches (within_make HasDirs.touches ?_ (.pure Touches.refl ()))
        fun out w w' _ hpy => ?_
      · change split (join d e.name) ∈ K
        rw [split_join hpath hname]
        exact hput ⟨(dirKey d, e.name), some (.file (scriptText e))⟩ (by simp [entryPuts])
      · have hmake := undisturbed_make (pyLauncherWriter d e) (fun _ => pure ()) fun _ => rfl
        have hpy : (pyLauncherWriter d e).make w = (.ok out, w') := by rw [← hmake]; exact hpy
        obtain ⟨rfl, hdots, -⟩ := pyLauncherWriter_ok hpath hname hpy
        rw [windowsCmdMaker_join hpath hname]
        have hcmd : split (join (dirKey d) (cmdName (stem e.name))) ∈ K := by
          rw [split_join_dirKey hpath (isFileName_cmdName hstem)]
          exact hput ⟨_, some (.file (cmdText e.name))⟩ (by simp [entryPuts])
        have hexe : rmExe = true → split ((splitExt (join (dirKey d)
            (cmdName (stem e.name)))).1 ++ ".exe".toList) ∈ K := by
          intro hrm
          rw [exePath_cmdName hpath hname hdots,
            split_join_dirKey hpath (isFileName_exeName hstem)]
          exact hput ⟨_, none⟩ (by simp [entryPuts, hrm])
        exact within_bind HasDirs.touches
          (within_make HasDirs.touches hcmd (within_removeExe HasDirs.touches hexe))
          fun _ _ _ _ _ => hrest

/-- However a pass ends, it has touched no file but the ones that it writes to. -/
theorem within_writeConsoleScriptsAll (hpath : IsDirPath d) (T : CharTable) (texts : List Text)
    (hK : keys (texts.flatMap (textPuts T (dirKey d) rmExe)) ⊆ K) :
    (Interruptible.writeConsoleScriptsAll T d rmExe texts).Within (HasDirs D) (Touches K) := by
  induction texts with
  | nil => exact .pure Touches.refl ()
  | cons text texts ih =>
      have hrest := ih fun k ⟨p, hp, hkey⟩ =>
        hK ⟨p, by rw [List.flatMap_cons]; exact List.mem_append_right _ hp, hkey⟩
      have hfirst : keys (textPuts T (dirKey d) rmExe text) ⊆ K := fun k ⟨p, hp, hkey⟩ =>
        hK ⟨p, by rw [List.flatMap_cons]; exact List.mem_append_left _ hp, hkey⟩
      refine within_bind HasDirs.touches ?_ fun _ _ _ _ _ => hrest
      rw [Interruptible.writeConsoleScripts]
      rw [textPuts] at hfirst
      cases hes : getEntryPoints T text with
      | error e => exact within_step fun w => .refl w
      | ok es =>
          rw [hes] at hfirst
          exact within_writeAll hpath es (isFileName_of_mem_getEntryPoints hes) hfirst

end pass

/-- A pass over some of the files, in any order. -/
def IsPass (T : CharTable) (d : Text) (rmExe : Bool) (texts : List Text)
    (x : Interruptible Unit) : Prop :=
  ∃ some ⊆ texts, x = Interruptible.writeConsoleScriptsAll T d rmExe some

/-- Any number of passes over some of the files, each one complete, ended by an
exception or broken off. -/
def EarlierPasses (T : CharTable) (d : Text) (rmExe : Bool) (texts : List Text) :
    World → World → Prop :=
  Relation.ReflTransGen fun w v => ∃ x, IsPass T d rmExe texts x ∧ x.Ends w v

/-- Whatever passes have begun before, a pass over the files ends as if none of
them had. -/
theorem writeConsoleScriptsAll_recovers (T : CharTable) (texts : List Text) (d : Text)
    (rmExe : Bool) {w v w' : World} (hd : w.dirs d = true)
    (hearlier : EarlierPasses T d rmExe texts w v)
    (h : writeConsoleScriptsAll T d rmExe texts w = (.ok (), w')) :
    writeConsoleScriptsAll T d rmExe texts v = (.ok (), w') := by
  have hpath := w.rooted d hd
  have htouch : Touches (keys (texts.flatMap (textPuts T (dirKey d) rmExe))) w v := by
    refine Breakable.Within.history Touches.refl Touches.trans HasDirs.touches ?_
      (rfl : HasDirs w.dirs w) hearlier
    rintro x ⟨ts, hts, rfl⟩
    refine within_writeConsoleScriptsAll hpath T ts fun k ⟨p, hp, hkey⟩ => ⟨p, ?_, hkey⟩
    obtain ⟨text, htext, hp⟩ := List.mem_flatMap.mp hp
    exact List.mem_flatMap.mpr ⟨text, hts htext, hp⟩
  obtain ⟨v', hv⟩ := (repeatable_writeConsoleScriptsAll T rmExe hd texts).again rfl htouch.dirs h
  obtain ⟨hdirs, hnodes⟩ := writeConsoleScriptsAll_ok texts hd h
  obtain ⟨hdirs', hnodes'⟩ := writeConsoleScriptsAll_ok texts (by rw [htouch.dirs.dirs, hd]) hv
  have hsame : v' = w' := by
    refine World.eq_of_nodes_dirs ?_ (by rw [hdirs', hdirs, htouch.dirs.dirs])
    rw [hnodes', hnodes]
    apply applyAll_congr
    exact fun k hk => htouch.frame k fun ⟨p, hp, hkey⟩ => hk p hp hkey
  rw [hv, hsame]

/-- The directory `C:\S` when a run has been broken off behind the first two
characters of the first script. -/
def tornFoo : World :=
  (write (join ['C', ':', '\\', 'S'] "foo".toList) ['#', '!']
    (openWrite (join ['C', ':', '\\', 'S'] "foo".toList) emptyScripts).2).2

theorem writeConsoleScriptsAll_recovers_foo :
    ∃ w', writeConsoleScriptsAll .ascii ['C', ':', '\\', 'S'] true [fooText, easyInstallText]
        tornFoo = (.ok (), w') := by
  have hok : (writeConsoleScriptsAll .ascii ['C', ':', '\\', 'S'] true
      [fooText, easyInstallText] emptyScripts).1 = .ok () := by
    decide +kernel
  have hes : getEntryPoints .ascii fooText =
      .ok [⟨"foo".toList, "bar".toList, "baz".toList⟩] := by
    decide +kernel
  have hopen : (openWrite (join ['C', ':', '\\', 'S'] "foo".toList) emptyScripts).1 = .ok () := by
    decide +kernel
  have hpair : ∀ x : Except Exc Unit × World, x.1 = .ok () → x = (.ok (), x.2) :=
    fun x hx => Prod.ext hx rfl
  have hleft : (Interruptible.writeConsoleScriptsAll .ascii ['C', ':', '\\', 'S'] true
      [fooText]).left emptyScripts tornFoo := by
    refine .inl ?_
    rw [Interruptible.writeConsoleScripts, hes]
    exact .inl (Interruptible.left_make (by decide +kernel) (hpair _ hopen)
      (format_scriptSrc _) (by decide +kernel))
  exact ⟨_, writeConsoleScriptsAll_recovers .ascii [fooText, easyInstallText] _ true (by decide)
    (.single ⟨_, ⟨[fooText], by simp, rfl⟩, .inr hleft⟩) (hpair _ hok)⟩

end Launcher
