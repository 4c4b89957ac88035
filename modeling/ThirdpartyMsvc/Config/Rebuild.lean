import ThirdpartyMsvc.Config.FixUp
import ThirdpartyMsvc.Shell.Rerun

/-!
# Builds that are started again

build-sip.cmd installs a new config in every run, and then runs the fix-up on
it. build-pyqt4.bat removes the package of an old build with its config, but it
installs a new one only in the run that extracts the sources of the release
build; the fix-up it runs each time. Runs may be broken off behind any of their
commands, and `complete_run_iff` says for both builds what a run that comes to its
end makes of the config.

The config that the build system installs is a parameter. The calls that touch
neither the config nor its backup are left out, and so is the test for the old
package: removing what is not there does nothing.
-/

namespace Config

open Python Text Store Shell

/-- The files, and whether the sources of the release build are extracted. -/
structure BuildTree where
  files : TextFiles
  extracted : Bool

inductive BuildCommand where
  | rmdir
  | extract
  | install
  | moveConfig
  | openConfig
  | patchConfig
  | delBackup
deriving DecidableEq, Repr

/-- A config with the text that is installed for it, and the script that makes
it relocatable. -/
structure ConfigBuild where
  script : List Text → Outcome
  config : Text
  generated : Text

namespace ConfigBuild

variable (b : ConfigBuild)

/-- The commands. The shell opens the target of a redirection before it starts
the script. -/
def exec : BuildCommand → BuildTree → BuildTree
  | .rmdir, t => { t with files := del b.config (del (bak b.config) t.files) }
  | .extract, t => { t with extracted := true }
  | .install, t => { t with files := write b.config b.generated t.files }
  | .moveConfig, t => { t with files := move b.config (bak b.config) t.files }
  | .openConfig, t => { t with files := write b.config [] t.files }
  | .patchConfig, t =>
      { t with files := write b.config (printed b.script (bak b.config) t.files) t.files }
  | .delBackup, t => { t with files := del (bak b.config) t.files }

/-- A run of a build, which may be broken off. -/
def run (parts : List (BuildTree → List BuildCommand)) (t : BuildTree) (stop : Stop) :
    BuildTree :=
  after b.exec (executed b.exec parts stop t) t

/-- The config is all of what the script prints for the text that was installed,
and the script has not raised. -/
def Complete (t : BuildTree) : Prop :=
  (b.script (readLines b.generated)).error = none ∧
    t.files b.config = some (unlines (b.script (readLines b.generated)).printed)

end ConfigBuild

/-! ## The two builds -/

/-- The fix-up, command by command. -/
def fixUpCommands : List BuildCommand :=
  [.moveConfig, .openConfig, .patchConfig, .delBackup]

/-- The end of build-sip.cmd, for the module with its tools. -/
def sipParts : List (BuildTree → List BuildCommand) :=
  [fun _ => [.install], fun _ => fixUpCommands]

/-- The release build, behind the test for its sources. -/
def releasePart (t : BuildTree) : List BuildCommand :=
  if t.extracted then [] else [.extract, .install]

/-- build-pyqt4.bat. -/
def pyqt4Parts : List (BuildTree → List BuildCommand) :=
  [fun _ => [.rmdir], releasePart, fun _ => fixUpCommands]

section

variable {b : ConfigBuild}

theorem after_fixUpCommands (t : BuildTree) :
    after b.exec fixUpCommands t = { t with files := fixUp b.script b.config t.files } := by
  change BuildTree.mk (del _ (write _ _ (write _ _ _))) t.extracted = _
  rw [write, write, Function.update_idem]
  rfl

/-- A fix-up of an installed config completes it exactly when the script
succeeds. -/
theorem complete_fixUp_iff {t : BuildTree} (h : t.files b.config = some b.generated) :
    b.Complete { t with files := fixUp b.script b.config t.files } ↔
      (b.script (readLines b.generated)).error = none :=
  and_iff_left (fixUp_config h)

/-- Without a config and a backup, the fix-up leaves an empty config. -/
theorem fixUp_of_missing {fs : TextFiles} (hconfig : fs b.config = none)
    (hbak : fs (bak b.config) = none) : fixUp b.script b.config fs b.config = some [] := by
  have hmove : move b.config (bak b.config) fs = fs := by
    rw [move, hconfig]
  rw [fixUp, del_of_ne (bak_ne _).symm, redirect, write_self, hmove, printed,
    write_of_ne (bak_ne _), hbak]

/-! ## Runs -/

/-- build-sip.cmd does not look at what it finds. -/
theorem run_sipParts (t : BuildTree) :
    b.run sipParts t none =
      { t with files := fixUp b.script b.config (write b.config b.generated t.files) } := by
  rw [ConfigBuild.run, after_executed_none]
  exact after_fixUpCommands { t with files := write b.config b.generated t.files }

section pyqt4

variable {t : BuildTree}

theorem run_pyqt4Parts (t : BuildTree) :
    b.run pyqt4Parts t none =
      after b.exec fixUpCommands (after b.exec (releasePart t) (b.exec .rmdir t)) := by
  rw [ConfigBuild.run, after_executed_none]
  rfl

/-- The first run to the end fixes the installed config up. -/
theorem run_pyqt4Parts_of_not_extracted (h : t.extracted = false) :
    b.run pyqt4Parts t none =
      { files := fixUp b.script b.config (write b.config b.generated (b.exec .rmdir t).files)
        extracted := true } := by
  rw [run_pyqt4Parts, releasePart, if_neg (by simp [h])]
  exact after_fixUpCommands ⟨write b.config b.generated (b.exec .rmdir t).files, true⟩

/-- Every later one has nothing to fix up, and leaves an empty config. -/
theorem config_run_of_extracted (h : t.extracted = true) :
    (b.run pyqt4Parts t none).files b.config = some [] := by
  have hbak : (b.exec .rmdir t).files (bak b.config) = none :=
    (del_of_ne (bak_ne _) _).trans (del_self _ _)
  rw [run_pyqt4Parts, after_fixUpCommands, releasePart, if_pos h]
  exact fixUp_of_missing (del_self _ _) hbak

theorem extracted_exec (c : BuildCommand) (t : BuildTree) :
    (b.exec c t).extracted = (t.extracted || c == .extract) := by
  cases c <;> simp [ConfigBuild.exec]

theorem extracted_after_of_not_mem {cs : List BuildCommand} (h : .extract ∉ cs) (t : BuildTree) :
    (after b.exec cs t).extracted = t.extracted := by
  have hstep : ∀ c ∈ cs, ∀ s, s.extracted = t.extracted →
      (b.exec c s).extracted = t.extracted := by
    intro c hc s hs
    have hne : c ≠ .extract := fun heq => h (heq ▸ hc)
    rw [extracted_exec, hs, beq_eq_false_iff_ne.mpr hne, Bool.or_false]
  exact after_induction hstep rfl

theorem extracted_after_cons {cs : List BuildCommand} (t : BuildTree) :
    (after b.exec (.extract :: cs) t).extracted = true := by
  have hstep : ∀ c ∈ cs, ∀ s, s.extracted = true → (b.exec c s).extracted = true := by
    intro c _ s hs
    rw [extracted_exec, hs, Bool.true_or]
  exact after_induction (s := b.exec .extract t) hstep rfl

theorem extracted_releasePart (t : BuildTree) (stop : Stop) :
    (after b.exec (stop.portion 1 (releasePart t)) t).extracted =
      (t.extracted || stop.starts 1) := by
  rw [releasePart]
  cases hfound : t.extracted with
  | true =>
      rw [if_pos rfl, Stop.portion_nil, Bool.true_or]
      exact hfound
  | false =>
      rw [if_neg Bool.false_ne_true, Bool.false_or]
      cases hstarts : stop.starts 1 with
      | false =>
          rw [Stop.portion_of_not_starts hstarts]
          exact hfound
      | true =>
          obtain ⟨ds, hds⟩ := Stop.portion_cons_of_starts hstarts BuildCommand.extract
            [BuildCommand.install]
          rw [hds]
          exact extracted_after_cons t

/-- The sources are extracted behind a run that has found them, or that gets as
far as extracting them. -/
theorem extracted_run (t : BuildTree) (stop : Stop) :
    (b.run pyqt4Parts t stop).extracted = (t.extracted || stop.starts 1) := by
  obtain ⟨cs₁, cs₂, hexecuted, hpre, hpost⟩ :=
    executed_split b.exec [fun _ => [.rmdir]] [fun _ => fixUpCommands] releasePart stop t
  have hclean : .extract ∉ cs₁ := by
    intro hc
    obtain ⟨other, hother, s', hc⟩ := hpre _ hc
    obtain rfl := List.mem_singleton.mp hother
    cases List.mem_singleton.mp hc
  have hfix : .extract ∉ cs₂ := by
    intro hc
    obtain ⟨other, hother, s', hc⟩ := hpost _ hc
    obtain rfl := List.mem_singleton.mp hother
    have hmem : .extract ∉ fixUpCommands := by decide
    exact hmem hc
  have hrun : b.run pyqt4Parts t stop = after b.exec (cs₁ ++ (_ ++ cs₂)) t :=
    congrArg (after b.exec · t) hexecuted
  rw [hrun, after_append, after_append, extracted_after_of_not_mem hfix]
  exact (extracted_releasePart (after b.exec cs₁ t) stop).trans
    (by rw [extracted_after_of_not_mem hclean])

theorem extracted_history (t : BuildTree) (history : List Stop) :
    (history.foldl (b.run pyqt4Parts) t).extracted =
      (t.extracted || history.any (·.starts 1)) := by
  induction history generalizing t with
  | nil => simp
  | cons stop history ih => rw [List.foldl_cons, ih, extracted_run, List.any_cons, Bool.or_assoc]

end pyqt4

end

/-! ## The configs -/

theorem printed_printLines_ne_nil {f : Text → Except PatchError Text} {lines : List Text}
    (hlines : lines ≠ []) (h : (printLines f lines).error = none) :
    (printLines f lines).printed ≠ [] := by
  cases lines with
  | nil => exact absurd rfl hlines
  | cons l lines =>
      rw [printLines] at h ⊢
      cases hl : f l with
      | error e =>
          rw [hl] at h
          cases h
      | ok out => exact List.cons_ne_nil _ _

/-- patch-pyqtconfig.py does not succeed without printing something. -/
theorem printed_patchPyqtconfig_ne_nil {E : Engine} {T : CharTable} {content : List Text}
    (h : (patchPyqtconfig E T content).error = none) :
    unlines (patchPyqtconfig E T content).printed ≠ [] := by
  obtain ⟨-, -, ⟨p, hp, -⟩, -⟩ := (patchPyqtconfig_error_eq_none_iff content).mp h
  have hlines : content ≠ [] := by
    rintro rfl
    cases hp
  have hprinted : (patchPyqtconfig E T content).printed ≠ [] := by
    unfold patchPyqtconfig at h ⊢
    split at h
    · cases h
    · split at h
      · cases h
      · exact printed_printLines_ne_nil hlines h
  obtain ⟨l, ls, hls⟩ := List.exists_cons_of_ne_nil hprinted
  rw [hls, unlines, List.flatMap_cons]
  simp

def sipBuild (E : Engine) (T : CharTable) (config generated : Text) : ConfigBuild :=
  ⟨patchSipconfig E T, config, generated⟩

def pyqt4Build (E : Engine) (T : CharTable) (config generated : Text) : ConfigBuild :=
  ⟨patchPyqtconfig E T, config, generated⟩

/-- What a run that comes to its end makes of the config, behind any history of
runs: build-sip.cmd depends on the installed text alone, and build-pyqt4.bat
completes the config only if no run before it has got to the sources of the
release build. -/
theorem complete_run_iff (E : Engine) (T : CharTable) (config generated : Text) (t : BuildTree)
    (history : List Stop) :
    ((sipBuild E T config generated).Complete ((sipBuild E T config generated).run sipParts
        (history.foldl ((sipBuild E T config generated).run sipParts) t) none) ↔
      SipUsable E T (readLines generated)) ∧
    ((pyqt4Build E T config generated).Complete ((pyqt4Build E T config generated).run pyqt4Parts
        (history.foldl ((pyqt4Build E T config generated).run pyqt4Parts) t) none) ↔
      PyqtUsable E T (readLines generated) ∧ t.extracted = false ∧
        ∀ stop ∈ history, stop.starts 1 = false) := by
  rw [← patchSipconfig_error_eq_none_iff, ← patchPyqtconfig_error_eq_none_iff]
  refine ⟨?_, ?_⟩
  · rw [run_sipParts]
    exact complete_fixUp_iff (t := ⟨write config generated _, _⟩) (write_self _ _ _)
  · have hbehind := extracted_history (b := pyqt4Build E T config generated) t history
    cases hextracted :
        (history.foldl ((pyqt4Build E T config generated).run pyqt4Parts) t).extracted with
    | true =>
        have hempty := config_run_of_extracted (b := pyqt4Build E T config generated) hextracted
        refine iff_of_false ?_ ?_
        · rintro ⟨herror, hconfig⟩
          rw [hempty] at hconfig
          exact printed_patchPyqtconfig_ne_nil herror (Option.some.inj hconfig).symm
        · rintro ⟨-, hfound, hstarts⟩
          rw [hextracted, hfound, Bool.false_or, eq_comm, List.any_eq_true] at hbehind
          obtain ⟨stop, hstop, hgets⟩ := hbehind
          exact absurd hgets (by simp [hstarts stop hstop])
    | false =>
        rw [hextracted, eq_comm, Bool.or_eq_false_iff, List.any_eq_false] at hbehind
        have hstarts : ∀ stop ∈ history, stop.starts 1 = false :=
          fun stop hstop => Bool.eq_false_iff.mpr (hbehind.2 stop hstop)
        rw [run_pyqt4Parts_of_not_extracted hextracted, and_iff_left ⟨hbehind.1, hstarts⟩]
        exact complete_fixUp_iff (t := ⟨write config generated _, true⟩) (write_self _ _ _)

end Config
