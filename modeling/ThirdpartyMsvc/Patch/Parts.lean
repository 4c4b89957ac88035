import Mathlib.Data.List.Nodup
import ThirdpartyMsvc.Patch.Scripts

/-!
# The parts of a script that patch

What a command writes is told by the names in it. So the parts of a script that
watch different files go their own ways, and what a run leaves of a part can be
read off the commands of the part that it has come to: `Regular.applied_iff`.
-/

namespace Patch

open Shell Store

variable {tool : Tool}

/-! ## What a command touches -/

/-- The files that a command may write. -/
def Command.touches : Command → Path → Prop
  | .patch p _ dir, path => path = ⟨dir, p.target⟩ ∨ path = ⟨dir, backupName p.target⟩
  | .sed file, path => path = file

theorem read_exec_of_not_touches {c : Command} {path : Path} (h : ¬ c.touches path)
    (t : Tree Path Text) : Tree.read (exec tool c t) path = Tree.read t path := by
  cases c with
  | patch p backup dir =>
      have htarget : path ≠ ⟨dir, p.target⟩ := fun heq => h (.inl heq)
      have hbackup : path ≠ ⟨dir, backupName p.target⟩ := fun heq => h (.inr heq)
      rw [exec]
      split
      · rfl
      · split
        · rw [Tree.read_write_of_ne hbackup, Tree.read_write_of_ne htarget]
        · rw [Tree.read_write_of_ne htarget]
  | sed file =>
      rw [exec]
      split
      · rfl
      · exact Tree.read_write_of_ne h _ _

theorem restrict_exec_of_not {W : Path → Bool} {c : Command}
    (h : ∀ path, c.touches path → W path = false) (t : Tree Path Text) :
    Tree.restrict W (exec tool c t) = Tree.restrict W t := by
  cases c with
  | patch p backup dir =>
      have htarget := h _ (.inl rfl)
      have hbackup := h _ (.inr rfl)
      rw [exec]
      split
      · rfl
      · split
        · rw [Tree.restrict_write_of_not hbackup, Tree.restrict_write_of_not htarget]
        · rw [Tree.restrict_write_of_not htarget]
  | sed file =>
      rw [exec]
      split
      · rfl
      · exact Tree.restrict_write_of_not (h _ rfl) _ _

theorem restrict_exec {W : Path → Bool} {c : Command}
    (h : ∀ path, c.touches path → W path = true) (t : Tree Path Text) :
    Tree.restrict W (exec tool c t) = exec tool c (Tree.restrict W t) := by
  cases c with
  | patch p backup dir =>
      have htarget := h _ (.inl rfl)
      have hbackup := h _ (.inr rfl)
      rw [exec, exec, Tree.read_restrict htarget]
      split
      · rfl
      · split
        · rw [Tree.restrict_write hbackup, Tree.restrict_write htarget]
        · rw [Tree.restrict_write htarget]
  | sed file =>
      have hfile := h _ rfl
      rw [exec, exec, Tree.read_restrict hfile]
      split
      · rfl
      · exact Tree.restrict_write hfile _ _

/-- No command removes a file. -/
theorem present_exec (c : Command) {t : Tree Path Text} {path : Path}
    (h : Tree.present t path = true) : Tree.present (exec tool c t) path = true := by
  cases c with
  | patch p backup dir =>
      rw [exec]
      split
      · exact h
      · split
        · exact Tree.present_write _ _ (Tree.present_write _ _ h)
        · exact Tree.present_write _ _ h
  | sed file =>
      rw [exec]
      split
      · exact h
      · exact Tree.present_write _ _ h

/-- A command makes no file but the one that a patch saves the old contents
under. -/
theorem names_exec {M : Path → Bool} {c : Command}
    (h : ∀ p backup dir, c = .patch p backup dir → M ⟨dir, backupName p.target⟩ = false)
    (t : Tree Path Text) :
    (Tree.names (exec tool c t)).filter M = (Tree.names t).filter M := by
  have hpresent : ∀ {path : Path} {old : Text}, Tree.read t path = some old →
      Tree.present t path = true := by
    intro path old hread
    rw [Tree.present, hread]
    rfl
  cases c with
  | patch p backup dir =>
      rw [exec]
      split
      · rfl
      · rename_i old hread
        have hnames := Tree.names_write (hpresent hread) (tool.apply p old)
        split
        · rw [← Tree.names_restrict, Tree.restrict_write_of_not (h p backup dir rfl),
            Tree.names_restrict, hnames]
        · rw [hnames]
  | sed file =>
      rw [exec]
      split
      · rfl
      · rename_i old hread
        rw [Tree.names_write (hpresent hread)]

/-- A file that some commands alone may write, and all alike, has been written as
often as they have been run. -/
theorem read_after {path : Path} {P : Command → Bool} {f : Text → Text} {cs : List Command}
    (hP : ∀ c ∈ cs, P c = true → ∀ t : Tree Path Text,
      Tree.read (exec tool c t) path = (Tree.read t path).map f)
    (hothers : ∀ c ∈ cs, P c = false → ¬ c.touches path) (t : Tree Path Text) :
    Tree.read (after (exec tool) cs t) path = (Tree.read t path).map f^[cs.countP P] := by
  induction cs generalizing t with
  | nil => exact (Option.map_id_fun ▸ rfl : Tree.read t path = (Tree.read t path).map id)
  | cons c cs ih =>
      have htail := ih (fun d hd => hP d (List.mem_cons_of_mem _ hd))
        (fun d hd => hothers d (List.mem_cons_of_mem _ hd)) (exec tool c t)
      cases h : P c with
      | true =>
          rw [List.countP_cons_of_pos h, Function.iterate_succ, ← Option.map_map,
            ← hP c List.mem_cons_self h]
          exact htail
      | false =>
          rw [List.countP_cons_of_neg (by rw [h]; exact Bool.false_ne_true),
            ← read_exec_of_not_touches (hothers c List.mem_cons_self h) t]
          exact htail

theorem ne_backupName (name : Text) : name ≠ backupName name := fun h =>
  absurd (List.self_eq_append_right.mp h) (by decide)

theorem read_exec_patch (p : PatchFile) (backup : Bool) (dir : Text) (t : Tree Path Text) :
    Tree.read (exec tool (.patch p backup dir) t) ⟨dir, p.target⟩ =
      (Tree.read t ⟨dir, p.target⟩).map (tool.apply p) := by
  have hpath : (⟨dir, p.target⟩ : Path) ≠ ⟨dir, backupName p.target⟩ :=
    fun h => ne_backupName _ (congrArg Path.name h)
  rw [exec]
  split
  · rename_i h
    rw [h]
    rfl
  · rename_i old h
    rw [h]
    split
    · rw [Tree.read_write_of_ne hpath, Tree.read_write_self]
      rfl
    · rw [Tree.read_write_self]
      rfl

theorem read_exec_sed (file : Path) (t : Tree Path Text) :
    Tree.read (exec tool (.sed file) t) file = (Tree.read t file).map wrapText := by
  rw [exec]
  split
  · rename_i h
    rw [h]
    rfl
  · rename_i old h
    rw [h, Tree.read_write_self]
    rfl

/-! ## The commands of a part -/

/-- A line of a script may write a file of that name. -/
def Stmt.touches : Stmt → Text → Bool
  | .patch p _, name => name == p.target || name == backupName p.target
  | .forSed pattern, name => matchesPattern pattern name

theorem Stmt.touches_of_mem {stmt : Stmt} {dir : Text} {t : Tree Path Text} {c : Command}
    (hc : c ∈ stmt.commands dir t) {path : Path} (h : c.touches path) :
    path.dir = dir ∧ stmt.touches path.name = true := by
  cases stmt with
  | patch p backup =>
      obtain rfl := List.mem_singleton.mp hc
      rcases h with rfl | rfl
      · exact ⟨rfl, Bool.or_eq_true_iff.mpr (.inl (beq_self_eq_true _))⟩
      · exact ⟨rfl, Bool.or_eq_true_iff.mpr (.inr (beq_self_eq_true _))⟩
  | forSed pattern =>
      obtain ⟨file, hfile, rfl⟩ := List.mem_map.mp hc
      obtain rfl : path = file := h
      have hmatch := (List.mem_filter.mp hfile).2
      rw [Bool.and_eq_true_iff, decide_eq_true_eq] at hmatch
      exact hmatch

theorem mem_bodyCommands {dir : Text} {body : List Stmt} {t : Tree Path Text} {c : Command}
    (hc : c ∈ bodyCommands tool dir body t) : ∃ stmt ∈ body, ∃ t', c ∈ stmt.commands dir t' := by
  induction body generalizing t with
  | nil => exact absurd hc List.not_mem_nil
  | cons stmt body ih =>
      rcases List.mem_append.mp hc with hc | hc
      · exact ⟨stmt, List.mem_cons_self, t, hc⟩
      · obtain ⟨other, hother, h⟩ := ih hc
        exact ⟨other, List.mem_cons_of_mem _ hother, h⟩

namespace Part

/-- The part may write a file. -/
def touches (part : Part) (path : Path) : Bool :=
  path.dir = part.dir && part.body.any (·.touches path.name)

/-- The part may write a file, or asks for it. -/
def watches (part : Part) (path : Path) : Bool :=
  path.dir = part.dir &&
    (part.guard.any (fun name => path.name == fromWindows name) ||
      part.body.any (·.touches path.name))

theorem watches_of_touches {part : Part} {path : Path} (h : part.touches path = true) :
    part.watches path = true := by
  rw [touches, Bool.and_eq_true_iff] at h
  rw [watches, h.1, h.2, Bool.or_true, Bool.and_true]

theorem touches_of_stmt {part : Part} {stmt : Stmt} (hstmt : stmt ∈ part.body) {name : Text}
    (hname : stmt.touches name = true) : part.touches ⟨part.dir, name⟩ = true := by
  rw [touches, Bool.and_eq_true_iff, decide_eq_true_eq]
  exact ⟨rfl, List.any_eq_true.mpr ⟨stmt, hstmt, hname⟩⟩

theorem touches_of_mem {part : Part} {t : Tree Path Text} {c : Command}
    (hc : c ∈ part.commands tool t) {path : Path} (h : c.touches path) :
    part.touches path = true := by
  rw [commands] at hc
  split at hc
  · exact absurd hc List.not_mem_nil
  · obtain ⟨stmt, hstmt, t', hc'⟩ := mem_bodyCommands hc
    obtain ⟨dir, name⟩ := path
    obtain ⟨rfl, hname⟩ := Stmt.touches_of_mem hc' h
    exact touches_of_stmt hstmt hname

theorem mem_patches {part : Part} {p : PatchFile} :
    p ∈ part.patches ↔ ∃ backup, .patch p backup ∈ part.body := by
  rw [patches, List.mem_filterMap]
  constructor
  · rintro ⟨stmt, hstmt, h⟩
    cases stmt with
    | patch q backup =>
        cases h
        exact ⟨backup, hstmt⟩
    | forSed pattern => cases h
  · rintro ⟨backup, h⟩
    exact ⟨_, h, rfl⟩

theorem mem_patterns {part : Part} {pattern : Text} :
    pattern ∈ part.patterns ↔ .forSed pattern ∈ part.body := by
  rw [patterns, List.mem_filterMap]
  constructor
  · rintro ⟨stmt, hstmt, h⟩
    cases stmt with
    | patch q backup => cases h
    | forSed pattern' =>
        cases h
        exact hstmt
  · intro h
    exact ⟨_, h, rfl⟩

theorem watches_target {part : Part} {p : PatchFile} (hp : p ∈ part.patches) :
    part.watches ⟨part.dir, p.target⟩ = true := by
  obtain ⟨backup, hbody⟩ := mem_patches.mp hp
  exact watches_of_touches
    (touches_of_stmt hbody (Bool.or_eq_true_iff.mpr (.inl (beq_self_eq_true _))))

theorem watches_of_matches {part : Part} {pattern name : Text} (hp : pattern ∈ part.patterns)
    (hname : matchesPattern pattern name = true) : part.watches ⟨part.dir, name⟩ = true :=
  watches_of_touches (touches_of_stmt (mem_patterns.mp hp) hname)

/-- A part finds in the files that it watches what it finds in the whole. -/
theorem guarded_restrict (part : Part) (t : Tree Path Text) :
    part.guarded (Tree.restrict part.watches t) = part.guarded t := by
  cases h : part.guard with
  | none =>
      rw [guarded, guarded, h]
      rfl
  | some name =>
      have hW : part.watches ⟨part.dir, fromWindows name⟩ = true := by
        simp [watches, h]
      rw [guarded, guarded, h]
      change Tree.present _ _ = Tree.present _ _
      rw [Tree.present, Tree.read_restrict hW]
      rfl

theorem commands_restrict_stmt {W : Path → Bool} {dir : Text} {stmt : Stmt}
    (hW : ∀ name, stmt.touches name = true → W ⟨dir, name⟩ = true) (t : Tree Path Text) :
    stmt.commands dir (Tree.restrict W t) = stmt.commands dir t := by
  cases stmt with
  | patch p backup => rfl
  | forSed pattern =>
      rw [Stmt.commands, Stmt.commands, Tree.names_restrict, List.filter_filter]
      congr 1
      apply List.filter_congr
      rintro ⟨d, name⟩ -
      by_cases hd : d = dir
      · subst hd
        cases hmatch : matchesPattern pattern name with
        | true => rw [hW name hmatch, Bool.and_true]
        | false => rw [Bool.and_false, Bool.false_and]
      · rw [decide_eq_false hd, Bool.false_and, Bool.false_and]

theorem bodyCommands_restrict {W : Path → Bool} {dir : Text} {body : List Stmt}
    (hW : ∀ stmt ∈ body, ∀ name, stmt.touches name = true → W ⟨dir, name⟩ = true)
    (t : Tree Path Text) :
    bodyCommands tool dir body (Tree.restrict W t) = bodyCommands tool dir body t := by
  induction body generalizing t with
  | nil => rfl
  | cons stmt body ih =>
      have hstmt := hW stmt List.mem_cons_self
      have hexec : ∀ c ∈ stmt.commands dir t, ∀ t', Tree.restrict W (exec tool c t') =
          exec tool c (Tree.restrict W t') := by
        intro c hc t'
        refine restrict_exec (fun path hpath => ?_) t'
        obtain ⟨rfl, hname⟩ := Stmt.touches_of_mem hc hpath
        exact hstmt path.name hname
      rw [bodyCommands, bodyCommands, commands_restrict_stmt hstmt, ← view_after hexec,
        ih (fun other hother => hW other (List.mem_cons_of_mem _ hother))]

theorem commands_restrict (part : Part) (t : Tree Path Text) :
    part.commands tool (Tree.restrict part.watches t) = part.commands tool t := by
  rw [commands, commands, guarded_restrict, bodyCommands_restrict]
  exact fun stmt hstmt name hname => watches_of_touches (touches_of_stmt hstmt hname)

/-! ## A part alone -/

/-- Another part does not write what this one watches. -/
def Apart (part other : Part) : Prop :=
  ∀ path, other.touches path = true → part.watches path = false

/-- What has been applied is seen in the watched files. -/
theorem Applied.congr {part : Part} {t₀ t t' : Tree Path Text}
    (happlied : part.Applied tool t₀ t)
    (h : ∀ path, part.watches path = true → Tree.read t' path = Tree.read t path) :
    part.Applied tool t₀ t' where
  patched p hp := by
    rw [h _ (watches_target hp)]
    exact happlied.patched p hp
  substituted pattern hpattern name contents hmatch hread := by
    rw [h _ (watches_of_matches hpattern hmatch)]
    exact happlied.substituted pattern hpattern name contents hmatch hread

end Part

theorem appliedOnce_iff_alone {pre post : List Part} {part : Part}
    (hapart : ∀ other ∈ pre ++ post, part.Apart other) (t₀ : Tree Path Text)
    (history : List Stop) :
    AppliedOnce tool (pre ++ part :: post) part t₀ history ↔
      Throughout (exec tool) (fun stop t => stop.portion pre.length (part.commands tool t))
        (part.NotHeld tool) (part.Applied tool t₀) (Tree.restrict part.watches t₀) history := by
  have hread : ∀ {p}, p ∈ part.patches → ∀ t : Tree Path Text,
      Tree.read (Tree.restrict part.watches t) ⟨part.dir, p.target⟩ =
        Tree.read t ⟨part.dir, p.target⟩ :=
    fun hp t => Tree.read_restrict (Part.watches_target hp) t
  have hothers : ∀ f ∈ pre.map (Part.commands tool) ++ post.map (Part.commands tool), ∀ t,
      ∀ c ∈ f t, (∀ t', Tree.restrict part.watches (exec tool c t') =
        Tree.restrict part.watches t') ∧ ∀ t', part.NotHeld tool t' c := by
    intro f hf t c hc
    rw [← List.map_append] at hf
    obtain ⟨other, hother, rfl⟩ := List.mem_map.mp hf
    have htouches : ∀ path, c.touches path → part.watches path = false := fun path hpath =>
      hapart other hother path (Part.touches_of_mem hc hpath)
    refine ⟨restrict_exec_of_not htouches, ?_⟩
    rintro t' p hp backup rfl
    have hnot := htouches ⟨part.dir, p.target⟩ (.inl rfl)
    exact absurd (Part.watches_target hp) (by rw [hnot]; exact Bool.false_ne_true)
  rw [AppliedOnce, List.map_append, List.map_cons, throughout_iff_alone hothers,
    List.length_map]
  · exact part.commands_restrict
  · exact fun t c hc t' => restrict_exec
      (fun path hpath => Part.watches_of_touches (Part.touches_of_mem hc hpath)) t'
  · intro t c hc t'
    exact forall_congr' fun p => forall_congr' fun hp => by rw [hread hp]
  · exact fun t => ⟨fun h => h.congr fun path hpath => (Tree.read_restrict hpath t).symm,
      fun h => h.congr fun path hpath => Tree.read_restrict hpath t⟩

/-! ## The commands in the sources as they are unpacked -/

/-- A command that runs a patch. -/
def Command.runs (p : PatchFile) : Command → Bool
  | .patch q _ _ => q = p
  | .sed _ => false

namespace Part

/-- The lines of a part do not get in each other's way: a patch comes up once,
patches work on different files, and no loop goes through a file of a patch. -/
structure Regular (part : Part) : Prop where
  nodup : part.patches.Nodup
  targets : ∀ p ∈ part.patches, ∀ q ∈ part.patches,
    p.target ≠ backupName q.target ∧ (p.target = q.target → p = q)
  unmatched : ∀ p ∈ part.patches, ∀ pattern ∈ part.patterns,
    matchesPattern pattern p.target = false ∧ matchesPattern pattern (backupName p.target) = false

variable {part : Part}

theorem mem_listing {t : Tree Path Text} {c : Command} :
    c ∈ part.listing t ↔ ∃ stmt ∈ part.body, c ∈ stmt.commands part.dir t := List.mem_flatMap

theorem patch_mem_listing {t : Tree Path Text} {p : PatchFile} {backup : Bool} {dir : Text}
    (h : .patch p backup dir ∈ part.listing t) : p ∈ part.patches ∧ dir = part.dir := by
  obtain ⟨stmt, hstmt, hc⟩ := mem_listing.mp h
  cases stmt with
  | patch q backup' =>
      cases List.mem_singleton.mp hc
      exact ⟨mem_patches.mpr ⟨_, hstmt⟩, rfl⟩
  | forSed pattern =>
      obtain ⟨file, -, hfile⟩ := List.mem_map.mp hc
      cases hfile

theorem sed_mem_listing {t : Tree Path Text} {file : Path} :
    .sed file ∈ part.listing t ↔ file ∈ Tree.names t ∧ file.dir = part.dir ∧
      ∃ pattern ∈ part.patterns, matchesPattern pattern file.name = true := by
  constructor
  · intro h
    obtain ⟨stmt, hstmt, hc⟩ := mem_listing.mp h
    cases stmt with
    | patch q backup' => cases List.mem_singleton.mp hc
    | forSed pattern =>
        obtain ⟨other, hother, hfile⟩ := List.mem_map.mp hc
        cases hfile
        obtain ⟨hmem, hmatch⟩ := List.mem_filter.mp hother
        rw [Bool.and_eq_true_iff, decide_eq_true_eq] at hmatch
        exact ⟨hmem, hmatch.1, pattern, mem_patterns.mpr hstmt, hmatch.2⟩
  · rintro ⟨hmem, hdir, pattern, hpattern, hmatch⟩
    refine mem_listing.mpr ⟨_, mem_patterns.mp hpattern, List.mem_map.mpr ⟨file, ?_, rfl⟩⟩
    refine List.mem_filter.mpr ⟨hmem, ?_⟩
    rw [Bool.and_eq_true_iff, decide_eq_true_eq]
    exact ⟨hdir, hmatch⟩

/-- A patch comes up in the commands as often as in the lines. -/
theorem countP_runs_listing (p : PatchFile) (t : Tree Path Text) :
    (part.listing t).countP (Command.runs p) = part.patches.count p := by
  rw [listing, patches]
  induction part.body with
  | nil => rfl
  | cons stmt body ih =>
      rw [List.flatMap_cons, List.countP_append, ih]
      cases stmt with
      | patch q backup =>
          rw [List.filterMap_cons_some (show Stmt.patchFile? _ = some q from rfl), List.count_cons,
            Nat.add_comm, Stmt.commands, List.countP_singleton]
          rfl
      | forSed pattern =>
          have hsed : ∀ files : List Path, (files.map Command.sed).countP (Command.runs p) = 0 := by
            intro files
            rw [List.countP_map]
            exact List.countP_eq_zero.mpr fun _ _ => Bool.false_ne_true
          rw [List.filterMap_cons_none (show Stmt.patchFile? _ = none from rfl), Stmt.commands, hsed,
            Nat.zero_add]

theorem Regular.countP_runs (hregular : part.Regular) {p : PatchFile} (hp : p ∈ part.patches)
    (t : Tree Path Text) : (part.listing t).countP (Command.runs p) = 1 := by
  rw [countP_runs_listing]
  exact List.count_eq_one_of_mem hregular.nodup hp

/-- The commands of the part do not change what its loops go through. -/
theorem Regular.names_after (hregular : part.Regular) {pattern : Text}
    (hpattern : pattern ∈ part.patterns) {cs : List Command} {t₀ : Tree Path Text}
    (hcs : ∀ c ∈ cs, c ∈ part.listing t₀) (t : Tree Path Text) :
    (Stmt.forSed pattern).commands part.dir (after (exec tool) cs t) =
      (Stmt.forSed pattern).commands part.dir t := by
  have hkeep : ∀ c ∈ cs, ∀ t', (Stmt.forSed pattern).commands part.dir t' =
      (Stmt.forSed pattern).commands part.dir t →
        (Stmt.forSed pattern).commands part.dir (exec tool c t') =
          (Stmt.forSed pattern).commands part.dir t := by
    intro c hc t' ht'
    rw [← ht', Stmt.commands, Stmt.commands, names_exec]
    rintro p backup dir rfl
    have hp := (patch_mem_listing (hcs _ hc)).1
    rw [(hregular.unmatched p hp pattern hpattern).2, Bool.and_false]
  exact after_induction hkeep rfl

/-- The lines of the part do not depend on what the ones before them have done. -/
theorem Regular.bodyCommands_eq (hregular : part.Regular) (t₀ : Tree Path Text) :
    bodyCommands tool part.dir part.body t₀ = part.listing t₀ := by
  suffices h : ∀ (body : List Stmt) (t : Tree Path Text), (∀ stmt ∈ body, stmt ∈ part.body) →
      (∀ stmt ∈ part.body, stmt.commands part.dir t = stmt.commands part.dir t₀) →
      bodyCommands tool part.dir body t = body.flatMap fun stmt => stmt.commands part.dir t₀ from
    h part.body t₀ (fun _ hstmt => hstmt) (fun _ _ => rfl)
  intro body
  induction body with
  | nil => exact fun _ _ _ => rfl
  | cons stmt body ih =>
      intro t hbody ht
      have hstmt := hbody stmt List.mem_cons_self
      have hcs : ∀ c ∈ stmt.commands part.dir t, c ∈ part.listing t₀ := fun c hc =>
        mem_listing.mpr ⟨stmt, hstmt, ht stmt hstmt ▸ hc⟩
      have hafter : ∀ other ∈ part.body,
          other.commands part.dir (after (exec tool) (stmt.commands part.dir t) t) =
            other.commands part.dir t₀ := by
        intro other hother
        rw [← ht other hother]
        cases other with
        | patch p backup => rfl
        | forSed pattern => exact hregular.names_after (mem_patterns.mpr hother) hcs t
      rw [bodyCommands, List.flatMap_cons, ht stmt hstmt,
        ih _ (fun other hother => hbody other (List.mem_cons_of_mem _ hother)) (ht stmt hstmt ▸ hafter)]

/-- A patched file has gone through its patch as often as that has been run. -/
theorem Regular.read_target (hregular : part.Regular) {p : PatchFile} (hp : p ∈ part.patches)
    {cs : List Command} {t₀ : Tree Path Text} (hcs : ∀ c ∈ cs, c ∈ part.listing t₀)
    (t : Tree Path Text) :
    Tree.read (after (exec tool) cs t) ⟨part.dir, p.target⟩ =
      (Tree.read t ⟨part.dir, p.target⟩).map (tool.apply p)^[cs.countP (Command.runs p)] := by
  refine read_after (fun c hc hruns t' => ?_) (fun c hc hruns htouches => ?_) t
  · cases c with
    | patch q backup dir =>
        obtain rfl : q = p := of_decide_eq_true hruns
        obtain rfl := (patch_mem_listing (hcs _ hc)).2
        exact read_exec_patch q backup part.dir t'
    | sed file => exact absurd hruns Bool.false_ne_true
  · cases c with
    | patch q backup dir =>
        have hne : q ≠ p := of_decide_eq_false hruns
        have hq := (patch_mem_listing (hcs _ hc)).1
        obtain ⟨hbackup, htarget⟩ := hregular.targets p hp q hq
        rcases htouches with h | h
        · exact hne (htarget (congrArg Path.name h)).symm
        · exact hbackup (congrArg Path.name h)
    | sed file =>
        obtain ⟨-, -, pattern, hpattern, hmatch⟩ := sed_mem_listing.mp (hcs _ hc)
        rw [← show (⟨part.dir, p.target⟩ : Path) = file from htouches,
          (hregular.unmatched p hp pattern hpattern).1] at hmatch
        exact Bool.false_ne_true hmatch

/-- A file of a loop has gone through the substitution as often as that has been
run on it. -/
theorem Regular.read_matched (hregular : part.Regular) {pattern name : Text}
    (hpattern : pattern ∈ part.patterns) (hmatch : matchesPattern pattern name = true)
    {cs : List Command} {t₀ : Tree Path Text} (hcs : ∀ c ∈ cs, c ∈ part.listing t₀)
    (t : Tree Path Text) :
    Tree.read (after (exec tool) cs t) ⟨part.dir, name⟩ =
      (Tree.read t ⟨part.dir, name⟩).map wrapText^[cs.count (.sed ⟨part.dir, name⟩)] := by
  refine read_after (fun c hc hsed t' => ?_) (fun c hc hsed htouches => ?_) t
  · rw [beq_iff_eq.mp hsed]
    exact read_exec_sed _ t'
  · cases c with
    | patch q backup dir =>
        have hq := (patch_mem_listing (hcs _ hc)).1
        obtain ⟨htarget, hbackup⟩ := hregular.unmatched q hq pattern hpattern
        rcases htouches with h | h
        · rw [show name = q.target from congrArg Path.name h, htarget] at hmatch
          exact Bool.false_ne_true hmatch
        · rw [show name = backupName q.target from congrArg Path.name h, hbackup] at hmatch
          exact Bool.false_ne_true hmatch
    | sed file =>
        rw [← show (⟨part.dir, name⟩ : Path) = file from htouches, beq_self_eq_true] at hsed
        exact Bool.false_ne_true hsed.symm

/-- What a run has done of the part is all of it when the rest may be left out. -/
theorem Regular.applied_iff (hregular : part.Regular) {t₀ : Tree Path Text}
    (hpristine : part.Pristine tool t₀) {ds es : List Command}
    (hsplit : ds ++ es = part.listing t₀) :
    part.Applied tool t₀ (after (exec tool) ds (Tree.restrict part.watches t₀)) ↔
      ∀ c ∈ es, Spared t₀ ds c := by
  have hds : ∀ c ∈ ds, c ∈ part.listing t₀ := fun c hc => hsplit ▸ List.mem_append_left _ hc
  have hes : ∀ c ∈ es, c ∈ part.listing t₀ := fun c hc => hsplit ▸ List.mem_append_right _ hc
  have htotal : ∀ p ∈ part.patches,
      ds.countP (Command.runs p) + es.countP (Command.runs p) = 1 := by
    intro p hp
    rw [← List.countP_append, hsplit, hregular.countP_runs hp]
  have htarget : ∀ p ∈ part.patches, ∀ contents,
      Tree.read t₀ ⟨part.dir, p.target⟩ = some contents →
      Tree.read (after (exec tool) ds (Tree.restrict part.watches t₀)) ⟨part.dir, p.target⟩ =
        some ((tool.apply p)^[ds.countP (Command.runs p)] contents) := by
    intro p hp contents hread
    rw [hregular.read_target hp hds, Tree.read_restrict (watches_target hp), hread]
    rfl
  have hmatched : ∀ pattern ∈ part.patterns, ∀ name contents,
      matchesPattern pattern name = true → Tree.read t₀ ⟨part.dir, name⟩ = some contents →
      Tree.read (after (exec tool) ds (Tree.restrict part.watches t₀)) ⟨part.dir, name⟩ =
        some (wrapText^[ds.count (.sed ⟨part.dir, name⟩)] contents) := by
    intro pattern hpattern name contents hmatch hread
    rw [hregular.read_matched hpattern hmatch hds,
      Tree.read_restrict (watches_of_matches hpattern hmatch), hread]
    rfl
  constructor
  · rintro ⟨hpatched, hsubstituted⟩ c hc
    cases c with
    | patch p backup dir =>
        have hp := (patch_mem_listing (hes _ hc)).1
        obtain ⟨contents, hread, hclean⟩ := hpristine.clean p hp
        obtain ⟨contents', hread', hheld⟩ := hpatched p hp
        have hpos : 0 < es.countP (Command.runs p) :=
          List.countP_pos_iff.mpr ⟨_, hc, decide_eq_true rfl⟩
        have hzero : ds.countP (Command.runs p) = 0 := by
          have h := htotal p hp
          omega
        rw [htarget p hp contents hread, hzero] at hread'
        cases hread'
        exact absurd (hheld.symm.trans hclean.held_before) Nat.one_ne_zero
    | sed file =>
        obtain ⟨dir, name⟩ := file
        obtain ⟨-, hdir, pattern, hpattern, hmatch⟩ := sed_mem_listing.mp (hes _ hc)
        obtain rfl : dir = part.dir := hdir
        by_cases hmem : Command.sed ⟨part.dir, name⟩ ∈ ds
        · exact .inl hmem
        · refine .inr fun contents hread => ?_
          obtain ⟨k, hk, hread'⟩ := hsubstituted pattern hpattern name contents hmatch hread
          rw [hmatched pattern hpattern name contents hmatch hread,
            List.count_eq_zero.mpr hmem] at hread'
          exact wrapText_eq_of_iterate hk (Option.some.inj hread').symm
  · intro hspared
    refine ⟨fun p hp => ?_, fun pattern hpattern name contents hmatch hread => ?_⟩
    · obtain ⟨contents, hread, hclean⟩ := hpristine.clean p hp
      have hzero : es.countP (Command.runs p) = 0 := by
        refine List.countP_eq_zero.mpr fun c hc hruns => ?_
        have h := hspared c hc
        cases c with
        | patch q backup dir => exact h
        | sed file => exact Bool.false_ne_true hruns
      have hone : ds.countP (Command.runs p) = 1 := by
        have h := htotal p hp
        omega
      rw [htarget p hp contents hread, hone]
      exact ⟨_, rfl, hclean.held_behind⟩
    · rw [hmatched pattern hpattern name contents hmatch hread]
      have hlisted : Command.sed ⟨part.dir, name⟩ ∈ ds ++ es := hsplit ▸
        sed_mem_listing.mpr ⟨Tree.mem_names_of_read hread, rfl, pattern, hpattern, hmatch⟩
      by_cases hmem : Command.sed ⟨part.dir, name⟩ ∈ ds
      · exact ⟨_, List.count_pos_iff.mpr hmem, rfl⟩
      · have hc := (List.mem_append.mp hlisted).resolve_left hmem
        have hfixed := (hspared _ hc).resolve_left hmem contents hread
        rw [List.count_eq_zero.mpr hmem]
        exact ⟨1, Nat.le_refl 1, congrArg some hfixed.symm⟩

/-- In the sources as they are unpacked, no patch meets its own hunks. -/
theorem Regular.along_notHeld (hregular : part.Regular) {t₀ : Tree Path Text}
    (hpristine : part.Pristine tool t₀) :
    Along (exec tool) (part.NotHeld tool) (Tree.restrict part.watches t₀) (part.listing t₀) := by
  refine along_of_prefix fun ds c es hsplit p hp backup hc contents hread => ?_
  have hds : ∀ d ∈ ds, d ∈ part.listing t₀ := fun d hd => hsplit ▸ List.mem_append_left _ hd
  obtain ⟨contents₀, hread₀, hclean⟩ := hpristine.clean p hp
  have hzero : ds.countP (Command.runs p) = 0 := by
    have htotal := hregular.countP_runs hp t₀
    rw [hsplit, List.countP_append, List.countP_cons_of_pos (hc ▸ decide_eq_true rfl)] at htotal
    omega
  rw [hregular.read_target hp hds, Tree.read_restrict (watches_target hp), hread₀, hzero] at hread
  cases hread
  exact hclean.held_before

theorem Regular.commands_eq (hregular : part.Regular) {t₀ : Tree Path Text}
    (hpristine : part.Pristine tool t₀) :
    part.commands tool (Tree.restrict part.watches t₀) = part.listing t₀ := by
  rw [commands_restrict, commands, hpristine.unmarked, if_neg Bool.false_ne_true,
    hregular.bodyCommands_eq]

end Part

end Patch
