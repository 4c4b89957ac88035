import ThirdpartyMsvc.Patch.Parts

/-!
# Patched once

A guard keeps a patch from being applied again when the file that it asks for is
the one that the patch leaves behind. Where it is another file, the patch is run
on the patched sources by every run that gets there; where one mark stands for
several commands, a run that is broken off between them is never made up for.
`appliedOnce_iff` says for each guarded part of the scripts which histories are
the good ones.
-/

namespace Patch

open Shell Store

variable {tool : Tool}

namespace Part

variable {part : Part}

/-! ## A part that marks first -/

theorem exists_of_marksFirst (h : part.marksFirst = true) : ∃ name p body,
    part.guard = some name ∧ part.body = .patch p true :: body ∧
      fromWindows name = backupName p.target := by
  obtain ⟨dir, guard, body⟩ := part
  cases guard with
  | none => exact absurd h Bool.false_ne_true
  | some name =>
      cases body with
      | nil => exact absurd h Bool.false_ne_true
      | cons stmt body =>
          cases stmt with
          | forSed pattern => exact absurd h Bool.false_ne_true
          | patch p backup =>
              cases backup with
              | false => exact absurd h Bool.false_ne_true
              | true => exact ⟨name, p, body, rfl, rfl, beq_iff_eq.mp h⟩

theorem present_backup {p : PatchFile} {dir : Text} {t : Tree Path Text} {contents : Text}
    (hread : Tree.read t ⟨dir, p.target⟩ = some contents) :
    Tree.present (exec tool (.patch p true dir) t) ⟨dir, backupName p.target⟩ = true := by
  rw [exec, hread]
  change Tree.present (Tree.write _ _ _) _ = true
  rw [Tree.present, Tree.read_write_self]
  rfl

theorem Regular.throughout_iff_find (hregular : part.Regular) {t₀ : Tree Path Text}
    (hpristine : part.Pristine tool t₀) (hmarks : part.marksFirst = true) (i : ℕ)
    (history : List Stop) :
    Throughout (exec tool) (fun stop t => stop.portion i (part.commands tool t))
        (part.NotHeld tool) (part.Applied tool t₀) (Tree.restrict part.watches t₀) history ↔
      part.HoldsWhen i t₀ history := by
  obtain ⟨name, p, body, hguard, hbody, hname⟩ := exists_of_marksFirst hmarks
  have hp : p ∈ part.patches := mem_patches.mpr ⟨true, hbody ▸ List.mem_cons_self⟩
  obtain ⟨contents, hread, -⟩ := hpristine.clean p hp
  have hcommands := hregular.commands_eq hpristine
  have hlisting : ∃ cs, part.listing t₀ = .patch p true part.dir :: cs := by
    rw [listing, hbody]
    exact ⟨_, rfl⟩
  rw [Shell.throughout_iff_find, HoldsWhen, if_pos hmarks, hcommands]
  · refine forall_congr' fun _ => forall_congr' fun stop => forall_congr' fun _ => ?_
    exact hregular.applied_iff hpristine (Stop.portion_append_omitted i stop _)
  · -- the mark is made by the first command, and nothing removes it
    intro stop hstarts
    obtain ⟨cs, hcs⟩ := hlisting
    obtain ⟨ds, hds⟩ := Stop.portion_cons_of_starts hstarts (.patch p true part.dir) cs
    rw [hcommands, hcs, hds]
    have hfirst : Tree.present (exec tool (.patch p true part.dir)
        (Tree.restrict part.watches t₀)) ⟨part.dir, backupName p.target⟩ = true := by
      apply present_backup
      rw [Tree.read_restrict (watches_target hp)]
      exact hread
    have hkeep : ∀ c ∈ ds, ∀ t : Tree Path Text,
        Tree.present t ⟨part.dir, backupName p.target⟩ = true →
          Tree.present (exec tool c t) ⟨part.dir, backupName p.target⟩ = true :=
      fun c _ t ht => present_exec c ht
    have hmark := after_induction hkeep hfirst
    rw [← hname] at hmark
    rw [commands, guarded, hguard]
    exact if_pos hmark
  · rw [hcommands]
    exact hregular.along_notHeld hpristine

/-! ## A part that does not mark -/

/-- A patch of the right contents writes no other file than it is asked to. -/
theorem read_exec_clean {p : PatchFile} {backup : Bool} {dir contents : Text}
    {t : Tree Path Text} {path : Path} (hread : Tree.read t ⟨dir, p.target⟩ = some contents)
    (hclean : tool.Clean p contents) (htarget : path ≠ ⟨dir, p.target⟩)
    (hbackup : backup = true → path ≠ ⟨dir, backupName p.target⟩) :
    Tree.read (exec tool (.patch p backup dir) t) path = Tree.read t path := by
  rw [exec, hread]
  cases backup with
  | true =>
      change Tree.read (Tree.write _ _ (Tree.write _ _ _)) _ = _
      rw [Tree.read_write_of_ne (hbackup rfl), Tree.read_write_of_ne htarget]
  | false =>
      change Tree.read (if (false || tool.saves p contents) = true then _ else _) _ = _
      rw [hclean.not_saved, if_neg (by decide), Tree.read_write_of_ne htarget]

theorem Regular.throughout_iff_count (hregular : part.Regular) {t₀ : Tree Path Text}
    (hpristine : part.Pristine tool t₀) (hmarks : part.marksFirst = false) {name : Text}
    {p : PatchFile} {backup : Bool} (hguard : part.guard = some name)
    (hbody : part.body = [.patch p backup]) (hne : fromWindows name ≠ p.target) (i : ℕ)
    (history : List Stop) :
    Throughout (exec tool) (fun stop t => stop.portion i (part.commands tool t))
        (part.NotHeld tool) (part.Applied tool t₀) (Tree.restrict part.watches t₀) history ↔
      part.HoldsWhen i t₀ history := by
  have hp : p ∈ part.patches := mem_patches.mpr ⟨backup, hbody ▸ List.mem_cons_self⟩
  obtain ⟨contents, hread₀, hclean⟩ := hpristine.clean p hp
  have hread : Tree.read (Tree.restrict part.watches t₀) ⟨part.dir, p.target⟩ = some contents := by
    rw [Tree.read_restrict (watches_target hp)]
    exact hread₀
  have hcommands := hregular.commands_eq hpristine
  have hlisting : part.listing t₀ = [.patch p backup part.dir] := by
    rw [listing, hbody]
    rfl
  have hbackup : backup = true → fromWindows name ≠ backupName p.target := by
    rintro rfl heq
    rw [marksFirst, hguard, hbody] at hmarks
    have hneq : (fromWindows name == backupName p.target) = false := hmarks
    exact absurd (beq_iff_eq.mpr heq) (by rw [hneq]; exact Bool.false_ne_true)
  rw [hlisting] at hcommands
  rw [HoldsWhen, if_neg (by rw [hmarks]; exact Bool.false_ne_true)]
  refine Shell.throughout_iff_count hcommands ?_ ?_ ?_ ?_ history
  · have hunmarked : part.guarded
        (exec tool (.patch p backup part.dir) (Tree.restrict part.watches t₀)) = false := by
      have h := hpristine.unmarked
      rw [← guarded_restrict, guarded, hguard] at h
      rw [guarded, hguard]
      change Tree.present _ _ = false at h ⊢
      rw [Tree.present, read_exec_clean hread hclean (fun heq => hne (congrArg Path.name heq))
        (fun hb heq => hbackup hb (congrArg Path.name heq))]
      exact h
    rw [commands, hunmarked, if_neg Bool.false_ne_true, hbody]
    rfl
  · have halong := hregular.along_notHeld hpristine
    rw [hlisting] at halong
    exact halong.1
  · intro hnot
    have hheld := hnot p hp backup rfl (tool.apply p contents)
      (by rw [read_exec_patch, hread]; rfl)
    exact absurd (hheld.symm.trans hclean.held_behind) (by decide)
  · have hsplit : [.patch p backup part.dir] ++ [] = part.listing t₀ := by
      rw [List.append_nil, hlisting]
    exact (hregular.applied_iff hpristine hsplit).mpr fun c hc => absurd hc List.not_mem_nil

/-! ## The parts of the scripts -/

theorem apart_of_dir_ne {other : Part} (h : part.dir ≠ other.dir) : part.Apart other := by
  intro path hpath
  rw [touches, Bool.and_eq_true_iff, decide_eq_true_eq] at hpath
  rw [watches, decide_eq_false fun hdir => h (hdir.symm.trans hpath.1), Bool.false_and]

/-- A part of one patch watches three names. -/
theorem apart_of_names {other : Part} {name : Text} {p : PatchFile} {backup : Bool}
    (hguard : part.guard = some name) (hbody : part.body = [.patch p backup])
    (h : ∀ n ∈ [fromWindows name, p.target, backupName p.target],
      other.body.any (·.touches n) = false) : part.Apart other := by
  intro path hpath
  rw [touches, Bool.and_eq_true_iff] at hpath
  rw [← Bool.not_eq_true]
  intro hwatches
  rw [watches, hguard, hbody, Bool.and_eq_true_iff, Bool.or_eq_true_iff] at hwatches
  have hname : path.name ∈ [fromWindows name, p.target, backupName p.target] := by
    rcases hwatches.2 with h | h
    · rw [beq_iff_eq.mp h]
      exact List.mem_cons_self
    · rw [List.any_cons, List.any_nil, Bool.or_false, Stmt.touches, Bool.or_eq_true_iff,
        beq_iff_eq, beq_iff_eq] at h
      rcases h with h | h
      · rw [h]
        exact List.mem_cons_of_mem _ List.mem_cons_self
      · rw [h]
        exact List.mem_cons_of_mem _ (List.mem_cons_of_mem _ List.mem_cons_self)
  exact absurd hpath.2 (by rw [h _ hname]; exact Bool.false_ne_true)

theorem regular_of_single {p : PatchFile} {backup : Bool} (hbody : part.body = [.patch p backup]) :
    part.Regular := by
  have hpatches : part.patches = [p] := by
    rw [patches, hbody]
    rfl
  have hpatterns : part.patterns = [] := by
    rw [patterns, hbody]
    rfl
  refine ⟨?_, ?_, ?_⟩
  · rw [hpatches]
    exact List.nodup_singleton p
  · rw [hpatches]
    intro q hq r hr
    obtain rfl := List.mem_singleton.mp hq
    obtain rfl := List.mem_singleton.mp hr
    exact ⟨ne_backupName _, fun _ => rfl⟩
  · rw [hpatterns]
    exact fun q _ pattern hpattern => absurd hpattern List.not_mem_nil

theorem regular_doBuild (buildtype : Text) : (doBuild buildtype).Regular where
  nodup := (by decide : [configurePy, findqtdll].Nodup)
  targets := (by decide : ∀ p ∈ [configurePy, findqtdll], ∀ q ∈ [configurePy, findqtdll],
    p.target ≠ backupName q.target ∧ (p.target = q.target → p = q))
  unmatched := (by decide +kernel : ∀ p ∈ [configurePy, findqtdll],
    ∀ pattern ∈ ["*.h".toList, "*.cpp*".toList], matchesPattern pattern p.target = false ∧
      matchesPattern pattern (backupName p.target) = false)

/-- What the runs of a script ask of part number `i`. -/
def Settled (script : List Part) (i : ℕ) (part : Part) : Prop :=
  ∀ (tool : Tool) (t₀ : Tree Path Text), part.Pristine tool t₀ → ∀ history : List Stop,
    (AppliedOnce tool script part t₀ history ↔ part.HoldsWhen i t₀ history)

theorem settled_single (pre post : List Part) {name : Text} {p : PatchFile} {backup : Bool}
    (hguard : part.guard = some name) (hbody : part.body = [.patch p backup])
    (hne : fromWindows name ≠ p.target)
    (hothers : ∀ other ∈ pre ++ post, part.dir ≠ other.dir ∨
      ∀ n ∈ [fromWindows name, p.target, backupName p.target],
        other.body.any (·.touches n) = false) :
    Settled (pre ++ part :: post) pre.length part := by
  intro tool t₀ hpristine history
  have hregular := regular_of_single hbody
  have hapart : ∀ other ∈ pre ++ post, part.Apart other := fun other hother =>
    (hothers other hother).elim apart_of_dir_ne (apart_of_names hguard hbody)
  rw [appliedOnce_iff_alone hapart]
  cases hmarks : part.marksFirst with
  | true => exact hregular.throughout_iff_find hpristine hmarks _ history
  | false =>
      exact hregular.throughout_iff_count hpristine hmarks hguard hbody hne _ history

theorem settled_doBuild (pre post : List Part) (buildtype : Text)
    (hothers : ∀ other ∈ pre ++ post, (doBuild buildtype).dir ≠ other.dir) :
    Settled (pre ++ doBuild buildtype :: post) pre.length (doBuild buildtype) := by
  intro tool t₀ hpristine history
  rw [appliedOnce_iff_alone fun other hother => apart_of_dir_ne (hothers other hother)]
  exact (regular_doBuild buildtype).throughout_iff_find hpristine rfl _ history

/-- Two runs to the end are one too many for a part that does not mark. -/
theorem Settled.not_again {script : List Part} {i : ℕ} (hsettled : part.Settled script i)
    (hmarks : part.marksFirst = false) {t₀ : Tree Path Text}
    (hpristine : part.Pristine tool t₀) : ¬ AppliedOnce tool script part t₀ [none, none] := by
  rw [hsettled tool t₀ hpristine, HoldsWhen, if_neg (by rw [hmarks]; exact Bool.false_ne_true)]
  exact (by decide : ¬ 2 ≤ 1)

/-- A run that is broken off behind the first patch of `:do-build` leaves the
second one out for good. -/
theorem Settled.not_brokenOff {script : List Part} {i : ℕ} {buildtype : Text}
    (hsettled : (doBuild buildtype).Settled script i) {t₀ : Tree Path Text}
    (hpristine : (doBuild buildtype).Pristine tool t₀) :
    ¬ AppliedOnce tool script (doBuild buildtype) t₀ [some (i, 1), none] := by
  have hmarks : (doBuild buildtype).marksFirst = true := rfl
  rw [hsettled tool t₀ hpristine, HoldsWhen, if_pos hmarks]
  intro h
  have hfind : [some (i, 1), none].find? (Stop.starts i) = some (some (i, 1)) :=
    List.find?_cons_of_pos (by simp [Stop.starts])
  have homitted : Command.patch findqtdll true (doBuild buildtype).dir ∈
      Stop.omitted i (some (i, 1)) ((doBuild buildtype).listing t₀) := by
    rw [Stop.omitted, if_neg (Nat.lt_irrefl i), if_pos rfl]
    exact List.mem_cons_self
  exact h (List.mem_cons_of_mem _ List.mem_cons_self) _ hfind _ homitted

theorem settled_buildSip {i : ℕ} {part : Part} (hpart : buildSip[i]? = some part)
    (hguard : part.guard ≠ none) : Settled buildSip i part := by
  rcases i with _ | _ | _ | i
  · cases hpart
    exact absurd rfl hguard
  · cases hpart
    exact absurd rfl hguard
  · cases hpart
    exact settled_single (buildSip.take 2) [] rfl rfl (by decide) (by decide +kernel)
  · cases hpart

theorem settled_buildQscintilla2 {i : ℕ} {part : Part} (hpart : buildQscintilla2[i]? = some part) :
    Settled buildQscintilla2 i part := by
  rcases i with _ | _ | i
  · cases hpart
    exact settled_single [] (buildQscintilla2.drop 1) rfl rfl (by decide) (by decide +kernel)
  · cases hpart
    exact settled_single (buildQscintilla2.take 1) [] rfl rfl (by decide) (by decide +kernel)
  · cases hpart

theorem settled_buildPyqt5 {i : ℕ} {part : Part} (hpart : buildPyqt5[i]? = some part)
    (hguard : part.guard ≠ none) : Settled buildPyqt5 i part := by
  rcases i with _ | _ | _ | _ | _ | i
  · cases hpart
    exact absurd rfl hguard
  · cases hpart
    exact absurd rfl hguard
  · cases hpart
    exact settled_single (buildPyqt5.take 2) (buildPyqt5.drop 3) rfl rfl (by decide)
      (by decide +kernel)
  · cases hpart
    exact settled_doBuild (buildPyqt5.take 3) (buildPyqt5.drop 4) _ (by decide)
  · cases hpart
    exact settled_doBuild (buildPyqt5.take 4) [] _ (by decide)
  · cases hpart

theorem settled_fixupPython3 {i : ℕ} {part : Part} (hpart : fixupPython3[i]? = some part) :
    Settled fixupPython3 i part := by
  rcases i with _ | i
  · cases hpart
    exact settled_single [] [] rfl rfl (by decide) (by decide)
  · cases hpart

end Part

/-- Each guarded part of the four scripts is applied once, in whatever way runs
are broken off, exactly under its condition. -/
theorem appliedOnce_iff (tool : Tool) {script : List Part} (hscript : script ∈ scripts) {i : ℕ}
    {part : Part} (hpart : script[i]? = some part) (hguard : part.guard ≠ none)
    {t₀ : Tree Path Text} (hpristine : part.Pristine tool t₀) (history : List Stop) :
    AppliedOnce tool script part t₀ history ↔ part.HoldsWhen i t₀ history := by
  have hsettled : part.Settled script i := by
    simp only [scripts, List.mem_cons, List.not_mem_nil, or_false] at hscript
    rcases hscript with rfl | rfl | rfl | rfl
    · exact Part.settled_buildSip hpart hguard
    · exact Part.settled_buildQscintilla2 hpart
    · exact Part.settled_buildPyqt5 hpart hguard
    · exact Part.settled_fixupPython3 hpart
  exact hsettled tool t₀ hpristine history

/-! ## The sources of QScintilla -/

/-- The patch program on files that are no more than the lines of a hunk: the
first component becomes the second one, and everything else is refused. -/
def hunkTool (sides : PatchFile → Text × Text) : Tool where
  held p contents := if contents = (sides p).2 then 1 else 0
  apply p contents := if contents = (sides p).1 then (sides p).2 else contents
  saves p contents := contents ≠ (sides p).1

theorem clean_hunkTool {sides : PatchFile → Text × Text} {p : PatchFile}
    (h : (sides p).1 ≠ (sides p).2) : (hunkTool sides).Clean p (sides p).1 where
  held_before := if_neg h
  held_behind := by
    have happly : (hunkTool sides).apply p (sides p).1 = (sides p).2 := if_pos rfl
    rw [happly]
    exact if_pos rfl
  not_saved := decide_eq_false fun hne => hne rfl

/-- The lines of qscintilla.pro around its hunk. -/
def qscintillaProLines (config more : Text) : Text :=
  "\nTEMPLATE = lib\nTARGET = qscintilla2\nCONFIG += qt warn_off ".toList ++ config ++
    " thread exceptions\nINCLUDEPATH += . ../include ../lexlib ../src\n".toList ++ more ++
    "\nDEFINES += QSCINTILLA_MAKE_DLL SCINTILLA_QT SCI_LEXER\n".toList ++
    "greaterThan(QT_MAJOR_VERSION, 3) \x7b\n".toList

/-- The lines of InputMethod.cpp around its hunk. -/
def inputMethodLines (cast : Text) : Text :=
  "        \x7b\n            char fontName[64];\n".toList ++
    "            int style = SendScintilla(SCI_GETSTYLEAT, pos);\n".toList ++
    "            int len = SendScintilla(SCI_STYLEGETFONT, style, (".toList ++ cast ++
    ")fontName);\n            int size = SendScintilla(SCI_STYLEGETSIZE, style);\n".toList ++
    "            bool italic = SendScintilla(SCI_STYLEGETITALIC, style);\n".toList ++
    "            int weight = SendScintilla(SCI_STYLEGETBOLD, style) ? ".toList ++
    "QFont::Bold : -1;\n".toList

/-- What the two patches of QScintilla replace, and by what. -/
def qscintillaSides (p : PatchFile) : Text × Text :=
  if p = qscintillaPro then
    (qscintillaProLines "release".toList [],
     qscintillaProLines "debug_and_release build_all".toList
      ("\nwin32: OBJECTS_DIR = obj\nCONFIG(debug, debug|release) \x7b\n".toList ++
        "  win32: TARGET = $$join(TARGET,,,d)\n  win32: OBJECTS_DIR = objd\n\x7d\n".toList))
  else (inputMethodLines "sptr_t".toList, inputMethodLines "void*".toList)

def qscintillaSources : Tree Path Text :=
  [(⟨patchInputMethod.dir, inputEditorCpp.target⟩, (qscintillaSides inputEditorCpp).1),
   (⟨patchInputMethod.dir, qscintillaPro.target⟩, (qscintillaSides qscintillaPro).1)]

theorem pristine_qscintillaSources :
    patchInputMethod.Pristine (hunkTool qscintillaSides) qscintillaSources where
  unmarked := by decide +kernel
  clean p hp := by
    obtain rfl := List.mem_singleton.mp hp
    exact ⟨_, if_pos rfl, clean_hunkTool (by decide +kernel)⟩

/-- One run that gets to the patch, and others that are broken off before it. -/
theorem appliedOnce_iff_inputMethod :
    AppliedOnce (hunkTool qscintillaSides) buildQscintilla2 patchInputMethod qscintillaSources
      [some (0, 1), none, some (1, 0)] :=
  (appliedOnce_iff (hunkTool qscintillaSides) (List.mem_cons_of_mem _ List.mem_cons_self)
    (i := 1) rfl (Option.some_ne_none _) pristine_qscintillaSources _).mpr
      (by decide : ([some (0, 1), none, some (1, 0)].filter (Stop.starts 1)).length ≤ 1)

/-- The second run patches InputMethod.cpp again. -/
theorem not_appliedOnce_inputMethod :
    ¬ AppliedOnce (hunkTool qscintillaSides) buildQscintilla2 patchInputMethod qscintillaSources
      [none, none] := by
  have hsettled : patchInputMethod.Settled buildQscintilla2 1 := Part.settled_buildQscintilla2 rfl
  exact hsettled.not_again (by decide) pristine_qscintillaSources

end Patch
