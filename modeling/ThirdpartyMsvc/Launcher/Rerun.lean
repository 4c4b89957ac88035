import ThirdpartyMsvc.Launcher.Collisions

/-!
# Running the launcher scripts again

fixup-python3.bat calls write-launcher-script.py on one entry-point file after
the other. A pass over the files is one sequence of writes whatever the
directory held before, and a sequence of writes that is done twice is done
once, however the names of the entries collide.

That the second pass succeeds is a matter of directories alone: no step creates
or removes one, and a step that succeeded succeeds again wherever the same
paths are directories (`Repeatable`).
-/

namespace Launcher

open Python Store Text
open Launcher.Action

/-- write_console_scripts on one file after the other. -/
def writeConsoleScriptsAll (T : CharTable) (targetDir : Text) (rmExe : Bool) :
    List Text → Action Unit
  | [] => pure ()
  | text :: texts => do
      writeConsoleScripts T text targetDir rmExe
      writeConsoleScriptsAll T targetDir rmExe texts

/-! ## Steps that succeed again -/

/-- The two worlds have the same directories. -/
structure SameDirs (w v : World) : Prop where
  dirs : v.dirs = w.dirs
  nodes : ∀ k, v.nodes k = some .directory ↔ w.nodes k = some .directory

namespace SameDirs

variable {u v w : World}

theorem refl (w : World) : SameDirs w w := ⟨rfl, fun _ => Iff.rfl⟩

theorem symm (h : SameDirs w v) : SameDirs v w := ⟨h.dirs.symm, fun k => (h.nodes k).symm⟩

theorem trans (h : SameDirs w v) (h' : SameDirs v u) : SameDirs w u :=
  ⟨h'.dirs.trans h.dirs, fun k => (h'.nodes k).trans (h.nodes k)⟩

/-- A file is put, or removed, where no directory is. -/
theorem set (w : World) (k : Text × Text) {n : Option Node} (hn : n ≠ some .directory)
    (h : w.nodes k ≠ some .directory) : SameDirs w (w.set k n h) := by
  refine ⟨rfl, ?_⟩
  intro k'
  change Function.update w.nodes k n k' = some .directory ↔ _
  by_cases hk : k' = k
  · subst hk
    simp [hn, h]
  · rw [Function.update_of_ne hk]

end SameDirs

/-- In the worlds with the directories `D`, a success of `x` leaves the
directories alone, and comes again in every world with the same ones. -/
structure Repeatable (D : Text → Bool) {α : Type} (x : Action α) : Prop where
  keeps : ∀ {w w' : World} {a : α}, w.dirs = D → x w = (.ok a, w') → SameDirs w w'
  again : ∀ {w v w' : World} {a : α}, w.dirs = D → SameDirs w v → x w = (.ok a, w') →
    ∃ v', x v = (.ok a, v')

namespace Repeatable

variable {D : Text → Bool} {α β : Type}

theorem pure (a : α) : Repeatable D (pure a : Action α) where
  keeps _ h := by
    obtain ⟨-, rfl⟩ := pure_ok.mp h
    exact SameDirs.refl _
  again _ _ h := by
    obtain ⟨rfl, -⟩ := pure_ok.mp h
    exact ⟨_, rfl⟩

theorem raise (e : Exc) : Repeatable D (raise e : Action α) where
  keeps _ h := absurd h raise_ok
  again _ _ h := absurd h raise_ok

/-- Steps one behind the other. Only the results that the first one can have
matter for the second one. -/
theorem bind {x : Action α} {f : α → Action β} (hx : Repeatable D x)
    (hf : ∀ a w w', w.dirs = D → x w = (.ok a, w') → Repeatable D (f a)) :
    Repeatable D (x >>= f) where
  keeps hw h := by
    obtain ⟨a, w₁, h₁, h₂⟩ := bind_ok.mp h
    have hkeep := hx.keeps hw h₁
    exact hkeep.trans ((hf a _ _ hw h₁).keeps (hkeep.dirs.trans hw) h₂)
  again hw hv h := by
    obtain ⟨a, w₁, h₁, h₂⟩ := bind_ok.mp h
    obtain ⟨v₁, hv₁⟩ := hx.again hw hv h₁
    have hkeep := hx.keeps hw h₁
    have hsame := (hkeep.symm.trans hv).trans (hx.keeps (hv.dirs.trans hw) hv₁)
    obtain ⟨v₂, hv₂⟩ := (hf a _ _ hw h₁).again (hkeep.dirs.trans hw) hsame h₂
    exact ⟨v₂, bind_ok.mpr ⟨a, v₁, hv₁, hv₂⟩⟩

/-- A test for a directory that is there. -/
theorem guard {d : Text} {x : Action α} (e : Exc) (hd : D d = true) (hx : Repeatable D x) :
    Repeatable D (gets (·.pathExists d) >>= fun found => require found e >>= fun _ => x) := by
  have hguard : ∀ w : World, w.dirs = D →
      (gets (·.pathExists d) >>= fun found => require found e >>= fun _ => x) w = x w := by
    intro w hw
    have hfound : w.pathExists d = true := by
      rw [World.pathExists, hw, hd, Bool.true_or]
    change (require (w.pathExists d) e >>= fun _ => x) w = x w
    rw [hfound]
    rfl
  constructor
  · intro w w' a hw h
    exact hx.keeps hw ((hguard w hw).symm.trans h)
  · intro w v w' a hw hv h
    obtain ⟨v', hv'⟩ := hx.again hw hv ((hguard w hw).symm.trans h)
    exact ⟨v', (hguard v (hv.dirs.trans hw)).trans hv'⟩

end Repeatable

section steps

variable {D : Text → Bool}

/-- A step whose success is decided by the directories. -/
theorem repeatable_of_directories {x : Action Unit} (P : World → Prop)
    (hP : ∀ w v, SameDirs w v → P w → P v)
    (hok : ∀ w, P w → ∃ w', x w = (.ok (), w') ∧ SameDirs w w')
    (herror : ∀ w, ¬ P w → ∃ e w', x w = (.error e, w')) : Repeatable D x where
  keeps {w w' _} _ h := by
    by_cases hw : P w
    · obtain ⟨v, hv, hsame⟩ := hok w hw
      obtain rfl := (Prod.mk.inj (hv.symm.trans h)).2
      exact hsame
    · obtain ⟨e, v, hv⟩ := herror w hw
      cases (Prod.mk.inj (hv.symm.trans h)).1
  again {w v _ _} _ hv h := by
    by_cases hw : P w
    · obtain ⟨v', hv', -⟩ := hok v (hP w v hv hw)
      exact ⟨v', hv'⟩
    · obtain ⟨e, u, hu⟩ := herror w hw
      cases (Prod.mk.inj (hu.symm.trans h)).1

theorem repeatable_openWrite (path : Text) : Repeatable D (openWrite path) := by
  apply repeatable_of_directories fun w => ¬ (split path).2.all (· = '.') ∧
    ¬ ((split path).1 ≠ [] ∧ w.dirs (split path).1 = false) ∧
    w.nodes (split path) ≠ some .directory
  · rintro w v hv ⟨hdots, hdir, hnode⟩
    exact ⟨hdots, by rwa [hv.dirs], by rwa [ne_eq, hv.nodes]⟩
  · rintro w ⟨hdots, hdir, hnode⟩
    refine ⟨w.set (split path) (some (.file [])) hnode, ?_, SameDirs.set w _ (by simp) hnode⟩
    rw [openWrite, if_neg hdots, if_neg hdir, dif_neg hnode]
  · intro w hw
    refine ⟨.osError, w, ?_⟩
    rw [openWrite]
    by_cases hdots : (split path).2.all (· = '.')
    · rw [if_pos hdots]
    · rw [if_neg hdots]
      by_cases hdir : (split path).1 ≠ [] ∧ w.dirs (split path).1 = false
      · rw [if_pos hdir]
      · have hnode : w.nodes (split path) = some .directory := by
          by_contra hnode
          exact hw ⟨hdots, hdir, hnode⟩
        rw [if_neg hdir, dif_pos hnode]

theorem repeatable_write (path t : Text) : Repeatable D (write path t) := by
  apply repeatable_of_directories fun w => w.nodes (split path) ≠ some .directory
  · intro w v hv hnode
    rwa [ne_eq, hv.nodes]
  · intro w hnode
    refine ⟨w.set (split path) (some (.file t)) hnode, ?_, SameDirs.set w _ (by simp) hnode⟩
    rw [write, dif_neg hnode]
  · intro w hnode
    exact ⟨.osError, w, by rw [write, dif_pos (not_not.mp hnode)]⟩

theorem repeatable_formatted (s : ScriptWriter) : Repeatable D s.formatted := by
  rw [ScriptWriter.formatted]
  cases format s.context s.template with
  | none => exact .raise _
  | some text => exact .pure text

/-- The .exe file may be there at one time and not at another: it is removed, or
there is nothing to do. -/
theorem repeatable_removeExe (rmExe : Bool) (outfile : Text)
    (hname : (split ((splitExt outfile).1 ++ ".exe".toList)).2 ≠ []) :
    Repeatable D (removeExe rmExe outfile) := by
  rw [removeExe]
  cases rmExe with
  | false => exact .pure ()
  | true =>
      generalize (splitExt outfile).1 ++ ".exe".toList = exefile at hname ⊢
      apply repeatable_of_directories fun w => w.nodes (split exefile) ≠ some .directory
      · intro w v hv hnode
        rwa [ne_eq, hv.nodes]
      · intro w hnode
        change ∃ w', (if w.pathExists exefile then remove exefile else pure ()) w = _ ∧ _
        cases hn : w.nodes (split exefile) with
        | none =>
            have hdirs : w.dirs exefile = false := by
              by_contra hdirs
              rw [w.dir_node exefile (Bool.not_eq_false _ ▸ hdirs) hname] at hn
              cases hn
            rw [World.pathExists, hdirs, hn, if_neg (by simp)]
            exact ⟨w, rfl, SameDirs.refl w⟩
        | some n =>
            cases n with
            | directory => exact absurd hn hnode
            | file t =>
                have hfound : w.pathExists exefile = true := by simp [World.pathExists, hn]
                refine ⟨w.set (split exefile) none hnode, ?_, SameDirs.set w _ (by simp) hnode⟩
                rw [if_pos hfound, remove]
                split
                case h_1 => rfl
                case h_2 hne => exact absurd hn (hne t)
      · intro w hnode
        have hn : w.nodes (split exefile) = some .directory := not_not.mp hnode
        have hfound : w.pathExists exefile = true := by simp [World.pathExists, hn]
        refine ⟨.osError, w, ?_⟩
        change (if w.pathExists exefile then remove exefile else pure ()) w = _
        rw [if_pos hfound, remove]
        split
        case h_1 hfile =>
          rw [hn] at hfile
          cases hfile
        case h_2 => rfl

theorem repeatable_make {s : ScriptWriter} (hd : D s.targetDir = true)
    (hpost : Repeatable D (s.postProcess (join s.targetDir s.filename))) :
    Repeatable D s.make := by
  rw [ScriptWriter.make]
  refine .guard .attributeError hd ?_
  refine (repeatable_openWrite _).bind fun _ _ _ _ _ => ?_
  refine (repeatable_formatted s).bind fun text _ _ _ _ => ?_
  refine (repeatable_write _ text).bind fun _ _ _ _ _ => ?_
  exact hpost.bind fun _ _ _ _ _ => .pure _

end steps

/-! ## Passes over the files -/

theorem repeatable_writeAll {w : World} {d : Text} (rmExe : Bool) (hd : w.dirs d = true)
    (es : List EntryPoint) (hnames : ∀ e ∈ es, IsFileName e.name) :
    Repeatable w.dirs (writeAll d rmExe es) := by
  have hpath := w.rooted d hd
  induction es with
  | nil => exact .pure ()
  | cons e es ih =>
      have hname : IsFileName e.name := hnames e (by simp)
      have hstem : IsFileName (stem e.name) := isFileName_splitExt hname
      have hrest := ih fun e' he' => hnames e' (by simp [he'])
      refine (repeatable_make hd (.pure ())).bind fun out v v' _ hpy => ?_
      obtain ⟨rfl, hdots, -⟩ := pyLauncherWriter_ok hpath hname hpy
      rw [windowsCmdMaker_join hpath hname]
      refine (repeatable_make (w.spelling d hd) ?_).bind fun _ _ _ _ _ => hrest
      apply repeatable_removeExe
      change (split ((splitExt (join (dirKey d) (cmdName (stem e.name)))).1 ++ _)).2 ≠ []
      rw [exePath_cmdName hpath hname hdots, split_join_dirKey hpath (isFileName_exeName hstem)]
      exact (isFileName_exeName hstem).1

theorem isFileName_of_mem_getEntryPoints {T : CharTable} {text : Text} {es : List EntryPoint}
    (hes : getEntryPoints T text = .ok es) : ∀ e ∈ es, IsFileName e.name := by
  intro e he
  obtain ⟨hne, hchars⟩ := name_of_mem_getEntryPoints hes he
  exact (isFileName_of_isNameChar hne hchars).1

theorem repeatable_writeConsoleScripts {w : World} {d : Text} (T : CharTable) (rmExe : Bool)
    (hd : w.dirs d = true) (text : Text) :
    Repeatable w.dirs (writeConsoleScripts T text d rmExe) := by
  rw [writeConsoleScripts]
  cases hes : getEntryPoints T text with
  | error e => exact .raise _
  | ok es => exact repeatable_writeAll rmExe hd es (isFileName_of_mem_getEntryPoints hes)

theorem repeatable_writeConsoleScriptsAll {w : World} {d : Text} (T : CharTable) (rmExe : Bool)
    (hd : w.dirs d = true) (texts : List Text) :
    Repeatable w.dirs (writeConsoleScriptsAll T d rmExe texts) := by
  induction texts with
  | nil => exact .pure ()
  | cons text texts ih =>
      exact (repeatable_writeConsoleScripts T rmExe hd text).bind fun _ _ _ _ _ => ih

/-- The writes of a file of entry points. -/
def textPuts (T : CharTable) (d : Text) (rmExe : Bool) (text : Text) :
    List (Put (Text × Text) Node) :=
  match getEntryPoints T text with
  | .error _ => []
  | .ok es => es.flatMap (entryPuts d rmExe)

theorem writeConsoleScripts_ok {T : CharTable} {text d : Text} {rmExe : Bool} {w w' : World}
    (hd : w.dirs d = true) (h : writeConsoleScripts T text d rmExe w = (.ok (), w')) :
    w'.dirs = w.dirs ∧ w'.nodes = applyAll (textPuts T (dirKey d) rmExe text) w.nodes := by
  rw [writeConsoleScripts] at h
  rw [textPuts]
  cases hes : getEntryPoints T text with
  | error e =>
      rw [hes] at h
      exact absurd h raise_ok
  | ok es =>
      rw [hes] at h
      exact writeAll_ok es (isFileName_of_mem_getEntryPoints hes) hd h

/-- A pass is one sequence of writes, whatever the directory held before. -/
theorem writeConsoleScriptsAll_ok {T : CharTable} {d : Text} {rmExe : Bool} (texts : List Text)
    {w w' : World} (hd : w.dirs d = true)
    (h : writeConsoleScriptsAll T d rmExe texts w = (.ok (), w')) :
    w'.dirs = w.dirs ∧
      w'.nodes = applyAll (texts.flatMap (textPuts T (dirKey d) rmExe)) w.nodes := by
  induction texts generalizing w with
  | nil =>
      obtain ⟨-, rfl⟩ := pure_ok.mp h
      exact ⟨rfl, rfl⟩
  | cons text texts ih =>
      obtain ⟨_, v, htext, h⟩ := bind_ok.mp h
      obtain ⟨hdirs, hnodes⟩ := writeConsoleScripts_ok hd htext
      obtain ⟨hdirs', hnodes'⟩ := ih (by rw [hdirs, hd]) h
      refine ⟨hdirs'.trans hdirs, ?_⟩
      rw [hnodes', hnodes, List.flatMap_cons, applyAll_append]

theorem World.eq_of_nodes_dirs {w v : World} (hnodes : w.nodes = v.nodes)
    (hdirs : w.dirs = v.dirs) : w = v := by
  obtain ⟨nodes, dirs, _, _, _⟩ := w
  obtain ⟨nodes', dirs', _, _, _⟩ := v
  obtain rfl : nodes = nodes' := hnodes
  obtain rfl : dirs = dirs' := hdirs
  rfl

/-- A second pass over the files ends like the first one, and leaves every file
as the first one left it. -/
theorem writeConsoleScriptsAll_again (T : CharTable) (texts : List Text) (d : Text)
    (rmExe : Bool) {w w' : World} (hd : w.dirs d = true)
    (h : writeConsoleScriptsAll T d rmExe texts w = (.ok (), w')) :
    writeConsoleScriptsAll T d rmExe texts w' = (.ok (), w') := by
  have hrepeat := repeatable_writeConsoleScriptsAll T rmExe hd texts
  obtain ⟨hdirs, hnodes⟩ := writeConsoleScriptsAll_ok texts hd h
  obtain ⟨w'', h'⟩ := hrepeat.again rfl (hrepeat.keeps rfl h) h
  obtain ⟨hdirs', hnodes'⟩ := writeConsoleScriptsAll_ok texts (by rw [hdirs, hd]) h'
  have hsame : w'' = w' := by
    refine World.eq_of_nodes_dirs ?_ hdirs'
    rw [hnodes', hnodes, applyAll_idem]
  rw [h', hsame]

/-- Two files with colliding names, one behind the other. -/
theorem writeConsoleScriptsAll_again_easy_install :
    ∃ w', writeConsoleScriptsAll .ascii ['C', ':', '\\', 'S'] true [fooText, easyInstallText]
        emptyScripts = (.ok (), w') ∧
      writeConsoleScriptsAll .ascii ['C', ':', '\\', 'S'] true [fooText, easyInstallText] w' =
        (.ok (), w') := by
  have hok : (writeConsoleScriptsAll .ascii ['C', ':', '\\', 'S'] true
      [fooText, easyInstallText] emptyScripts).1 = .ok () := by
    decide +kernel
  have hpair : ∀ x : Except Exc Unit × World, x.1 = .ok () → x = (.ok (), x.2) :=
    fun x hx => Prod.ext hx rfl
  exact ⟨_, hpair _ hok, writeConsoleScriptsAll_again .ascii [fooText, easyInstallText] _ true
    (by decide) (hpair _ hok)⟩

end Launcher
