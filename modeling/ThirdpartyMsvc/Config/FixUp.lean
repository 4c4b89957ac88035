import ThirdpartyMsvc.Config.Patch
import ThirdpartyMsvc.Store.Files

/-!
# The fix-up of a generated config

build-sip.cmd and build-pyqt4.bat move the config to a backup, run the script on
the backup with its output redirected to the config, and delete the backup. No
step looks at the one before it, so the backup is deleted also when the script
has raised, and then the config is what was printed up to that point.

Files are texts as Python reads and writes them; encodings are left out.
-/

namespace Config

open Python Text Store

/-- Texts of files by their paths. -/
abbrev TextFiles := Files Text Text

def bak (config : Text) : Text := config ++ ".bak".toList

/-- What a script prints for a file. A missing file raises before anything is
printed. -/
def printed (script : List Text → Outcome) (path : Text) (fs : TextFiles) : Text :=
  match fs path with
  | none => []
  | some contents => unlines (script (readLines contents)).printed

/-- The three commands of the fix-up. -/
def fixUp (script : List Text → Outcome) (config : Text) (fs : TextFiles) : TextFiles :=
  del (bak config) (redirect [] (printed script (bak config)) config (move config (bak config) fs))

/-- The config `contents` is not lost: the script has succeeded and the config is
its output, or it has raised and the old text is still there; and the output of
a script that has raised is not the only copy. -/
structure Preserved (script : List Text → Outcome) (config contents : Text) (fs : TextFiles) :
    Prop where
  complete_or_kept :
    ((script (readLines contents)).error = none ∧
      fs config = some (unlines (script (readLines contents)).printed)) ∨
    ((script (readLines contents)).error ≠ none ∧
      (fs config = some contents ∨ fs (bak config) = some contents))
  only_copy : fs (bak config) = none → (script (readLines contents)).error = none

/-! ## The commands in sequence -/

theorem bak_ne (config : Text) : bak config ≠ config := by
  intro h
  have hlength := congrArg List.length h
  rw [bak, List.length_append] at hlength
  have hbak : ".bak".toList.length = 4 := by decide +kernel
  omega

section fixUp

variable {script : List Text → Outcome} {config contents : Text} {fs : TextFiles}

theorem fixUp_bak : fixUp script config fs (bak config) = none := del_self _ _

/-- The config is what the script has printed for the old text. -/
theorem fixUp_config (h : fs config = some contents) :
    fixUp script config fs config = some (unlines (script (readLines contents)).printed) := by
  have hmoved : move config (bak config) fs (bak config) = some contents := move_target h
  rw [fixUp, del_of_ne (bak_ne config).symm, redirect, write_self, printed,
    write_of_ne (bak_ne config), hmoved]

/-- Nothing else changes. -/
theorem fixUp_of_ne {other : Text} (h : other ≠ config) (h' : other ≠ bak config) :
    fixUp script config fs other = fs other := by
  rw [fixUp, del_of_ne h', redirect, write_of_ne h, move_of_ne h h']

/-- The config is preserved if and only if the script succeeds. -/
theorem preserved_fixUp_iff (h : fs config = some contents) :
    Preserved script config contents (fixUp script config fs) ↔
      (script (readLines contents)).error = none := by
  constructor
  · exact fun hp => hp.only_copy fixUp_bak
  · exact fun herror => ⟨.inl ⟨herror, fixUp_config h⟩, fun _ => herror⟩

/-- A script that raises before it prints leaves an empty config. -/
theorem fixUp_lost (h : fs config = some contents)
    (hprinted : (script (readLines contents)).printed = []) :
    fixUp script config fs config = some [] ∧ fixUp script config fs (bak config) = none := by
  refine ⟨?_, fixUp_bak⟩
  rw [fixUp_config h, hprinted]
  rfl

end fixUp

/-! ## When the scripts succeed -/

theorem printLines_error_eq_none_iff (f : Text → Except PatchError Text) (lines : List Text) :
    (printLines f lines).error = none ↔ ∀ l ∈ lines, ∃ out, f l = .ok out := by
  induction lines with
  | nil => simp [printLines]
  | cons l lines ih =>
      rw [printLines]
      cases hl : f l with
      | error e => simp [hl]
      | ok out => simp [hl, ih]

theorem exists_repl_eq_ok_iff (separator : List ℕ) (rest : ℕ) (base join : Text) (m : Groups) :
    (∃ out, repl separator rest base join m = .ok out) ↔
      ((∃ i ∈ separator, (m i).isSome) → (m rest).isSome) := by
  rw [repl]
  by_cases hsep : separator.all fun i => (m i).isNone
  · have hnone : ¬ ∃ i ∈ separator, (m i).isSome := by
      simpa using hsep
    rw [if_pos hsep]
    exact ⟨fun _ h => absurd h hnone, fun _ => ⟨base, rfl⟩⟩
  · have hsome : ∃ i ∈ separator, (m i).isSome := by
      simpa [Option.ne_none_iff_isSome] using hsep
    rw [if_neg hsep]
    cases m rest with
    | none => simp [hsome]
    | some t => simp

section succeeds

variable (E : Engine) (T : CharTable)

/-- The pattern for the prefix: there is a prefix line, and what is built from
the prefix compiles. -/
def IsPrefixRe (cfgLineRe : Pattern) (tail : Text) (content : List Text) (re : E.Re) : Prop :=
  ∃ p, installPrefix T cfgLineRe content = some p ∧ E.compile (prefixPattern p tail) = some re

/-- Every match in a line that has a separator has a rest, also when groups in
the prefix have moved the numbers. -/
def HasRests {E : Engine} (separator : List ℕ) (rest : ℕ) (re : E.Re) (line : Text) : Prop :=
  ∀ m, .inr m ∈ E.scan re line → (∃ i ∈ separator, (m i).isSome) → (m rest).isSome

/-- The configs that patch-sipconfig.py gets through. -/
def SipUsable (content : List Text) : Prop :=
  ∃ re, IsPrefixRe E T installPrefixRe sipTail content re ∧
    ∀ l ∈ content, HasRests [1] 2 re (rstrip T.space l)

/-- The configs that patch-pyqtconfig.py gets through. -/
def PyqtUsable (content : List Text) : Prop :=
  ∃ sysPrefixRe qtPrefixRe, IsPrefixRe E T pyInstallPrefixRe pyqtTail content sysPrefixRe ∧
    IsPrefixRe E T qtInstallPrefixRe pyqtTail content qtPrefixRe ∧
    ∀ l ∈ content, contains importSipconfig (rstrip T.space l) = false →
      HasRests [1, 2] 3 (if contains pyqtKey (rstrip T.space l) then sysPrefixRe else qtPrefixRe)
        (rstrip T.space l)

variable {E T}

theorem createPrefixRe_eq_ok_iff {cfgLineRe : Pattern} {cfgLineText tail : Text}
    {content : List Text} {re : E.Re} :
    createPrefixRe E T cfgLineRe cfgLineText tail content = .ok re ↔
      IsPrefixRe E T cfgLineRe tail content re := by
  rw [createPrefixRe, IsPrefixRe]
  cases installPrefix T cfgLineRe content with
  | none => simp
  | some p => cases hc : E.compile (prefixPattern p tail) <;> simp [hc]

theorem IsPrefixRe.eq {cfgLineRe : Pattern} {tail : Text} {content : List Text} {re re' : E.Re}
    (h : IsPrefixRe E T cfgLineRe tail content re)
    (h' : IsPrefixRe E T cfgLineRe tail content re') : re = re' := by
  obtain ⟨p, hp, hre⟩ := h
  obtain ⟨p', hp', hre'⟩ := h'
  obtain rfl := Option.some.inj (hp.symm.trans hp')
  exact Option.some.inj (hre.symm.trans hre')

theorem hasRests_iff {separator : List ℕ} {rest : ℕ} {base join : Text} {re : E.Re}
    {line : Text} :
    (∃ out, substitute (repl separator rest base join) (E.scan re line) = .ok out) ↔
      HasRests separator rest re line := by
  rw [exists_substitute_eq_ok_iff]
  exact forall₂_congr fun m _ => exists_repl_eq_ok_iff separator rest base join m

/-- patch-sipconfig.py raises on the other configs. -/
theorem patchSipconfig_error_eq_none_iff (content : List Text) :
    (patchSipconfig E T content).error = none ↔ SipUsable E T content := by
  unfold patchSipconfig SipUsable createRegex
  cases hc : createPrefixRe E T installPrefixRe installPrefixReText sipTail content with
  | error e =>
      simp only [reduceCtorEq, false_iff]
      rintro ⟨re, hre, -⟩
      rw [createPrefixRe_eq_ok_iff.mpr hre] at hc
      cases hc
  | ok re =>
      have hre := createPrefixRe_eq_ok_iff.mp hc
      simp only [printLines_error_eq_none_iff, patchLine, hasRests_iff]
      constructor
      · exact fun h => ⟨re, hre, h⟩
      · rintro ⟨re', hre', h⟩
        rwa [hre.eq hre']

theorem patchPyqtLine_eq_ok_iff (sysPrefixRe qtPrefixRe : E.Re) (line : Text) :
    (∃ out, patchPyqtLine E sysPrefixRe qtPrefixRe line = .ok out) ↔
      (contains importSipconfig line = false →
        HasRests [1, 2] 3 (if contains pyqtKey line then sysPrefixRe else qtPrefixRe) line) := by
  unfold patchPyqtLine
  cases contains importSipconfig line with
  | true => simp
  | false =>
      cases contains pyqtKey line with
      | true => simpa [patchSysPrefixLine] using hasRests_iff
      | false => simpa [patchQtDirLine] using hasRests_iff

/-- patch-pyqtconfig.py raises on the other configs. -/
theorem patchPyqtconfig_error_eq_none_iff (content : List Text) :
    (patchPyqtconfig E T content).error = none ↔ PyqtUsable E T content := by
  unfold patchPyqtconfig PyqtUsable createPyInstallPrefixRe createQtInstallPrefixRe
    createInstallPrefixRe
  cases hc : createPrefixRe E T pyInstallPrefixRe pyInstallPrefixReText pyqtTail content with
  | error e =>
      simp only [reduceCtorEq, false_iff]
      rintro ⟨re, -, hre, -⟩
      rw [createPrefixRe_eq_ok_iff.mpr hre] at hc
      cases hc
  | ok sysPrefixRe =>
      cases hc' : createPrefixRe E T qtInstallPrefixRe qtInstallPrefixReText pyqtTail content with
      | error e =>
          simp only [reduceCtorEq, false_iff]
          rintro ⟨-, re, -, hre, -⟩
          rw [createPrefixRe_eq_ok_iff.mpr hre] at hc'
          cases hc'
      | ok qtPrefixRe =>
          have hsys := createPrefixRe_eq_ok_iff.mp hc
          have hqt := createPrefixRe_eq_ok_iff.mp hc'
          simp only [printLines_error_eq_none_iff, patchPyqtLine_eq_ok_iff]
          constructor
          · exact fun h => ⟨sysPrefixRe, qtPrefixRe, hsys, hqt, h⟩
          · rintro ⟨re, re', hre, hre', h⟩
            rwa [hsys.eq hre, hqt.eq hre']

end succeeds

/-! ## The fix-ups of the two builds -/

/-- The fix-up preserves exactly the configs that the script gets through. -/
theorem fixUp_preserves_iff (E : Engine) (T : CharTable) (config contents : Text)
    (fs : TextFiles) (h : fs config = some contents) :
    (Preserved (patchSipconfig E T) config contents (fixUp (patchSipconfig E T) config fs) ↔
      SipUsable E T (readLines contents)) ∧
    (Preserved (patchPyqtconfig E T) config contents (fixUp (patchPyqtconfig E T) config fs) ↔
      PyqtUsable E T (readLines contents)) := by
  rw [preserved_fixUp_iff h, preserved_fixUp_iff h, patchSipconfig_error_eq_none_iff,
    patchPyqtconfig_error_eq_none_iff]
  exact ⟨Iff.rfl, Iff.rfl⟩

/-- A config that the fix-up has already been through. -/
def relocatedConfig : Text := "_pkg_config = \x7b\n    'default_bin_dir':    sys.prefix,\n\x7d\n".toList

def oneFile (path contents : Text) : TextFiles := write path contents fun _ => none

theorem fixUp_preserves_oneFile :
    (Preserved (patchSipconfig (sre .ascii) .ascii) "sipconfig.py".toList relocatedConfig
        (fixUp (patchSipconfig (sre .ascii) .ascii) "sipconfig.py".toList
          (oneFile "sipconfig.py".toList relocatedConfig)) ↔
      SipUsable (sre .ascii) .ascii (readLines relocatedConfig)) ∧
    (Preserved (patchPyqtconfig (sre .ascii) .ascii) "sipconfig.py".toList relocatedConfig
        (fixUp (patchPyqtconfig (sre .ascii) .ascii) "sipconfig.py".toList
          (oneFile "sipconfig.py".toList relocatedConfig)) ↔
      PyqtUsable (sre .ascii) .ascii (readLines relocatedConfig)) :=
  fixUp_preserves_iff (sre .ascii) .ascii "sipconfig.py".toList relocatedConfig
    (oneFile "sipconfig.py".toList relocatedConfig) (write_self _ _ _)

/-- The second fix-up of a config leaves an empty file. -/
theorem not_preserved_relocatedConfig :
    oneFile "sipconfig.py".toList relocatedConfig "sipconfig.py".toList = some relocatedConfig ∧
      ¬ Preserved (patchSipconfig (sre .ascii) .ascii) "sipconfig.py".toList relocatedConfig
        (fixUp (patchSipconfig (sre .ascii) .ascii) "sipconfig.py".toList
          (oneFile "sipconfig.py".toList relocatedConfig)) := by
  have hfile := write_self "sipconfig.py".toList relocatedConfig fun _ => none
  refine ⟨hfile, fun hp => ?_⟩
  have herror := (preserved_fixUp_iff hfile).mp hp
  revert herror
  decide +kernel

end Config
