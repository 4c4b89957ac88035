import ThirdpartyMsvc.Config.Template

/-!
# A build in two places

The output of the scripts does not depend on the directories of a build, and
does not show them, if and only if every line of the template is covered.
Placeholders further inside a value, as in the arguments of a configure script,
are not covered.
-/

namespace Config

open Python Regex Text

/-! ## The prefix line -/

section prefixLine

variable (T : CharTable)

/-- A run of white space in front of a character that is none. -/
theorem run_spaces_literal {c : Char} (hc : T.space c = false) (w b t : Text)
    (cs : List (ℕ × Text)) (hw : ∀ d ∈ w, T.space d = true) (rs : List (Regex CharSet))
    (k : Cursor Char → Option (Cursor Char)) :
    run (CharSet.mem T) (.concat (spaces :: literal c :: rs)) ⟨b, w ++ c :: t, cs⟩ k =
      run (CharSet.mem T) (.concat rs) ⟨c :: (w.reverse ++ b), t, cs⟩ k := by
  have hspace : CharSet.mem T ⟨false, [.category .space false]⟩ = T.space := by
    funext d
    simp [CharSet.mem]
  have hone := oneSymbol_sat (β := Cursor Char) (CharSet.mem T) ⟨false, [.category .space false]⟩
  rw [hspace] at hone
  have hstar := run_star_possessive hone w b (c :: t) cs
    (fun d => run (CharSet.mem T) (.concat (literal c :: rs)) d k) hw ((stops_cons _ _ _).mpr hc)
    (by
      intro a t' d cs' ha
      have hca : c ≠ a := by
        rintro rfl
        rw [hc] at ha
        cases ha
      simp [run_concat_cons, literal, hca])
  rw [run_concat_cons]
  refine hstar.trans ?_
  simp [run_concat_cons, literal]

theorem run_literal_cons (c : Char) (b t : Text) (cs : List (ℕ × Text))
    (rs : List (Regex CharSet)) (k : Cursor Char → Option (Cursor Char)) :
    run (CharSet.mem T) (.concat (literal c :: rs)) ⟨b, c :: t, cs⟩ k =
      run (CharSet.mem T) (.concat rs) ⟨c :: b, t, cs⟩ k := by
  simp [run_concat_cons, literal]

/-- The end of a prefix line, behind the quotation mark of the value. -/
def valueEnd : List (Regex CharSet) :=
  [literal '\'', literal ',', spaces, .eos (.literal '\n')]

theorem run_spaces_eos (w b : Text) (cs : List (ℕ × Text)) (hw : ∀ d ∈ w, T.space d = true) :
    run (CharSet.mem T) (.concat [spaces, .eos (.literal '\n')]) ⟨b, w, cs⟩ some =
      some ⟨w.reverse ++ b, [], cs⟩ := by
  have hspace : CharSet.mem T ⟨false, [.category .space false]⟩ = T.space := by
    funext d
    simp [CharSet.mem]
  have hone := oneSymbol_sat (β := Cursor Char) (CharSet.mem T) ⟨false, [.category .space false]⟩
  rw [hspace] at hone
  have hstar := run_star_greedy hone w b [] cs
    (fun d => run (CharSet.mem T) (.concat [.eos (.literal '\n')]) d some)
    (x := ⟨w.reverse ++ b, [], cs⟩) hw (by simp) (by simp [run, concat])
  rw [List.append_nil] at hstar
  rw [run_concat_cons]
  exact hstar

theorem run_value (p trail b : Text) (cs : List (ℕ × Text)) (hp : '\n' ∉ p)
    (htrail : ∀ c ∈ trail, T.space c = true) :
    ∃ b', run (CharSet.mem T) (.concat (.group 1 (.concat [.star (.sat .any)]) :: valueEnd))
      ⟨b, p ++ '\'' :: ',' :: trail, cs⟩ some = some ⟨b', [], (1, p) :: cs⟩ := by
  obtain ⟨w, rest, hsplit, hw, hrest⟩ := exists_run_append (CharSet.mem T .any) ('\'' :: ',' :: trail)
  have hquote : '\'' ∉ ',' :: trail := by
    simp [Head.quote_notMem_of_space htrail]
  have hany : ∀ a ∈ p ++ w, CharSet.mem T .any a = true := by
    intro a ha
    rcases List.mem_append.mp ha with ha | ha
    · have hne : a ≠ '\n' := fun h => hp (h ▸ ha)
      simpa using hne
    · exact hw a ha
  have hcapture := Cursor.capture_append 1 ⟨b, p ++ '\'' :: ',' :: trail, cs⟩ p (p.reverse ++ b)
    ('\'' :: ',' :: trail) cs rfl
  refine ⟨trail.reverse ++ (',' :: '\'' :: (p.reverse ++ b)), ?_⟩
  have hcut := run_star_cut (oneSymbol_sat (β := Cursor Char) (CharSet.mem T) .any) p w b rest cs
    (fun d => run (CharSet.mem T) (.concat valueEnd)
      (d.capture 1 ⟨b, p ++ '\'' :: ',' :: trail, cs⟩) some)
    (x := ⟨trail.reverse ++ (',' :: '\'' :: (p.reverse ++ b)), [], (1, p) :: cs⟩) hany hrest
    (by
      rw [symbolCaps_none, List.nil_append, ← hsplit, hcapture, valueEnd, run_literal_cons,
        run_literal_cons, run_spaces_eos T trail _ _ htrail])
    (by
      intro a v₁ v₂ hv
      have hbehind : '\'' ∉ v₂ ++ rest := by
        rw [hv, List.append_assoc, List.cons_append, List.cons_eq_cons] at hsplit
        intro h
        rw [hsplit.2] at hquote
        exact hquote (List.mem_append_right _ h)
      cases hcase : v₂ ++ rest with
      | nil => rfl
      | cons c t =>
          have hc : '\'' ≠ c := fun h => hbehind (by rw [hcase, h]; exact List.mem_cons_self)
          simp [Cursor.capture, valueEnd, run_concat_cons, literal, hc])
  rw [List.append_assoc, ← hsplit] at hcut
  exact hcut

/-- The pattern of a prefix line reads its value off. -/
theorem match_keyLineRe (hd : Head T) (p : Text) {trail : Text} (hp : '\n' ∉ p)
    (htrail : ∀ c ∈ trail, T.space c = true) :
    ∃ m, (keyLineRe hd.key).match_ T (hd.text (quoted p) trail) = some m ∧ m.group 1 = some p := by
  have hquote : T.space '\'' = false := T.space_of_ascii (by decide) false (by decide)
  have hkey : hd.key.map literal = (hd.key.map CharSet.literal).map sat := by
    rw [List.map_map]
    rfl
  have htext : hd.text (quoted p) trail =
      hd.indent ++ '\'' :: (hd.key ++ '\'' :: ':' :: (hd.gap ++ '\'' :: (p ++ '\'' :: ',' :: trail))) := by
    simp [Head.text, Head.before, quoted]
  obtain ⟨b', hvalue⟩ := run_value T p trail
    ('\'' :: (hd.gap.reverse ++ (':' :: '\'' :: (hd.key.reverse ++ '\'' :: (hd.indent.reverse ++ [])))))
    [] hp htrail
  refine ⟨⟨b', [], [(1, p)]⟩, ?_, rfl⟩
  have hre : (keyLineRe hd.key).re = .concat (.bos :: spaces :: literal '\'' ::
      (hd.key.map literal ++ (literal '\'' :: literal ':' :: spaces :: literal '\'' ::
        .group 1 (.concat [.star (.sat .any)]) :: valueEnd))) := by
    simp [keyLineRe, valueEnd]
  rw [Pattern.match_, hre, htext, run_concat_cons]
  have hbos : ∀ k : Cursor Char → Option (Cursor Char), ∀ t,
      run (CharSet.mem T) (.bos : Regex CharSet) ⟨[], t, []⟩ k = k ⟨[], t, []⟩ := fun _ _ => rfl
  rw [hbos, run_spaces_literal T hquote _ _ _ _ hd.indent_space, run_concat_append, hkey]
  refine (run_word _ _ (mem_literal_iff T) _ _ _ _ _).trans ?_
  rw [run_literal_cons, run_literal_cons, run_spaces_literal T hquote _ _ _ _ hd.gap_space]
  exact hvalue

end prefixLine

/-- The first line that the pattern of `key` matches is a line of this key with
the placeholder `h` as its value. -/
def IsPrefixLine {T : CharTable} {H : Type} (key : Text) (h : H) (lines : List (TemplateLine T H))
    (σ : H → Text) : Prop :=
  ∃ before e after, lines = before ++ .entry e :: after ∧ e.key = key ∧ e.value = [.hole h] ∧
    ∀ l ∈ before, (keyLineRe key).match_ T (l.fill σ) = none

theorem IsPrefixLine.installPrefix {T : CharTable} {H : Type} {key : Text} {h : H}
    {lines : List (TemplateLine T H)} {σ : H → Text} (hbegin : IsPrefixLine key h lines σ)
    (hlocation : IsLocation (σ h)) :
    installPrefix T (keyLineRe key) (lines.map (·.fill σ)) = some (source (σ h)) := by
  obtain ⟨before, e, after, rfl, rfl, hvalue, hbefore⟩ := hbegin
  have hfill : fill σ e.value = σ h := by
    rw [hvalue, fill_hole, fill, List.flatMap_nil, List.append_nil]
  induction before with
  | nil =>
      obtain ⟨m, hm, hgroup⟩ :=
        match_keyLineRe T e.toHead (source (σ h)) hlocation.newline_notMem e.trail_space
      rw [List.nil_append, List.map_cons, Config.installPrefix, TemplateLine.fill, hfill, hm]
      exact hgroup
  | cons l before ih =>
      rw [List.cons_append, List.map_cons, Config.installPrefix, hbefore l (by simp)]
      exact ih fun l' hl' => hbefore l' (by simp [hl'])

/-! ## Whole runs -/

theorem printLines_congr {α : Type} {f g : Text → Except PatchError Text} {a b : α → Text}
    {ls : List α} (h : ∀ l ∈ ls, f (a l) = g (b l)) :
    printLines f (ls.map a) = printLines g (ls.map b) := by
  induction ls with
  | nil => rfl
  | cons l ls ih =>
      have htail := ih fun l' hl' => h l' (by simp [hl'])
      rw [List.map_cons, List.map_cons, printLines, printLines, h l (by simp), htail]

/-- Two runs on one template print the same, and neither shows its directories. -/
structure Independent {T : CharTable} {H : Type} (script : List Text → Outcome)
    (lines : List (TemplateLine T H)) (σ τ : H → Text) : Prop where
  same : script (lines.map (·.fill σ)) = script (lines.map (·.fill τ))
  hidden : ∀ out ∈ (script (lines.map (·.fill σ))).printed, Hidden σ out
  hidden' : ∀ out ∈ (script (lines.map (·.fill τ))).printed, Hidden τ out

section independent

variable {T : CharTable} {H : Type} {lines : List (TemplateLine T H)}

/-- The printed lines hide the directories if and only if every line does. -/
theorem hidden_printed_iff {σ : H → Text} {f : Text → Except PatchError Text}
    {P : TemplateLine T H → Prop}
    (hf : ∀ l ∈ lines, ∃ out, f (l.fill σ) = .ok out ∧ (Hidden σ out ↔ P l)) :
    (∀ out ∈ (printLines f (lines.map (·.fill σ))).printed, Hidden σ out) ↔
      ∀ l ∈ lines, P l := by
  induction lines with
  | nil => simp [printLines]
  | cons l lines ih =>
      obtain ⟨out, hout, hiff⟩ := hf l (by simp)
      rw [List.map_cons, printLines, hout, List.forall_mem_cons, List.forall_mem_cons, hiff,
        ih fun l' hl' => hf l' (by simp [hl'])]

/-- Two runs are independent if and only if each line is covered in both. -/
theorem independent_iff {script : List Text → Outcome} {σ τ : H → Text}
    {f g : Text → Except PatchError Text} {P Q : TemplateLine T H → Prop}
    (hscript : script (lines.map (·.fill σ)) = printLines f (lines.map (·.fill σ)))
    (hscript' : script (lines.map (·.fill τ)) = printLines g (lines.map (·.fill τ)))
    (hf : ∀ l ∈ lines, ∃ out, f (l.fill σ) = .ok out ∧ (Hidden σ out ↔ P l))
    (hg : ∀ l ∈ lines, ∃ out, g (l.fill τ) = .ok out ∧ (Hidden τ out ↔ Q l))
    (heq : ∀ l ∈ lines, P l → Q l → f (l.fill σ) = g (l.fill τ)) :
    Independent script lines σ τ ↔ ∀ l ∈ lines, P l ∧ Q l := by
  have hiff := hidden_printed_iff hf
  have hiff' := hidden_printed_iff hg
  rw [← hscript] at hiff
  rw [← hscript'] at hiff'
  constructor
  · intro h l hl
    exact ⟨hiff.mp h.hidden l hl, hiff'.mp h.hidden' l hl⟩
  · intro h
    refine ⟨?_, hiff.mpr fun l hl => (h l hl).1, hiff'.mpr fun l hl => (h l hl).2⟩
    rw [hscript, hscript']
    exact printLines_congr fun l hl => heq l hl (h l hl).1 (h l hl).2

end independent

/-! ## The scripts -/

/-- The directories of a pyqt build. -/
inductive Dir where
  | python
  | qt
deriving DecidableEq, Repr

/-- The rewriting that a line goes to covers it. -/
def PyqtCovered {T : CharTable} (σ : Dir → Text) (l : TemplateLine T Dir) : Prop :=
  if contains importSipconfig (rstrip T.space (l.fill σ)) then ¬ HasHole l
  else if contains pyqtKey (rstrip T.space (l.fill σ)) then Covered sysPrefixRewriting .python l
  else Covered qtDirRewriting .qt l

section pyqt

variable {T : CharTable} {lines : List (TemplateLine T Dir)} {σ τ : Dir → Text}

/-- The imports that the script adds to a line show no directory. -/
theorem hidden_imports_iff (hσ : Fits lines σ) (x : Text) :
    Hidden σ (x ++ imports) ↔ Hidden σ x := by
  constructor
  · exact fun h k hk => h k (hk.trans ⟨[], imports, rfl⟩)
  · rintro h k ⟨u, w, huw⟩
    have hp := (hσ.location k).beginsPath
    rw [List.append_assoc] at huw
    rcases List.append_eq_append_iff.mp huw with ⟨v, rfl, hv⟩ | ⟨v, rfl, hv⟩
    · have himports : imports = '\n' :: "import os\nimport sys".toList := rfl
      rw [himports] at hv
      have hpre := prefix_of_prefix_append_cons (hσ.location k).newline_notMem ⟨w, hv⟩
      exact h k (hpre.isInfix.trans ⟨u, [], by simp⟩)
    · have hstart : noStart (imports ++ ['\n']) = true := by decide +kernel
      rw [hv, List.append_assoc] at hstart
      refine hp.noStart hstart (by simp) (w := []) ?_
      rw [List.append_nil, List.append_assoc]
      exact List.prefix_append _ _

variable (T) in
/-- The line function of patch-pyqtconfig.py for the directories `σ`. -/
def pyqtLine (σ : Dir → Text) (line : Text) : Except PatchError Text :=
  patchPyqtLine (sre T) (prefixRe (source (σ .python)) pyqtTailRe)
    (prefixRe (source (σ .qt)) pyqtTailRe) (rstrip T.space line)

theorem exists_hidden_pyqtLine_iff (hσ : Fits lines σ) {l : TemplateLine T Dir} (hl : l ∈ lines) :
    ∃ out, pyqtLine T σ (l.fill σ) = .ok out ∧ (Hidden σ out ↔ PyqtCovered σ l) := by
  unfold pyqtLine patchPyqtLine PyqtCovered
  split
  · exact ⟨_, rfl, (hidden_imports_iff hσ _).trans (hσ.hidden_kept_iff hl)⟩
  · split
    · exact hσ.exists_hidden_iff (rewrites_patchSysPrefixLine T (source (σ .python)))
        sound_sysPrefixRewriting silent_sysPrefixRewriting hl
    · exact hσ.exists_hidden_iff (rewrites_patchQtDirLine T (source (σ .qt)))
        sound_qtDirRewriting silent_qtDirRewriting hl

theorem Covered.eq_of_hasHole {H : Type} {R R' : Rewriting} {h h' : H} {l : TemplateLine T H}
    (hc : Covered R h l) (hc' : Covered R' h' l) (hhole : HasHole l) : h = h' := by
  cases l with
  | fixed t => exact absurd hhole id
  | entry e =>
      obtain ⟨rest, hvalue, -⟩ := hc hhole
      obtain ⟨rest', hvalue', -⟩ := hc' hhole
      rw [hvalue, List.cons_eq_cons] at hvalue'
      cases hvalue'.1
      rfl

theorem pyqtLine_eq (hσ : Fits lines σ) (hτ : Fits lines τ) {l : TemplateLine T Dir}
    (hl : l ∈ lines) (hcσ : PyqtCovered σ l) (hcτ : PyqtCovered τ l) :
    pyqtLine T σ (l.fill σ) = pyqtLine T τ (l.fill τ) := by
  have hsys := fun h => hσ.eq_of_covered hτ sound_sysPrefixRewriting
    (rewrites_patchSysPrefixLine T (source (σ .python)))
    (rewrites_patchSysPrefixLine T (source (τ .python))) hl h
  have hqt := fun h => hσ.eq_of_covered hτ sound_qtDirRewriting
    (rewrites_patchQtDirLine T (source (σ .qt)))
    (rewrites_patchQtDirLine T (source (τ .qt))) hl h
  unfold pyqtLine patchPyqtLine
  unfold PyqtCovered at hcσ hcτ
  by_cases hhole : HasHole l
  · have himport : ∀ (ρ : Dir → Text) {P : Prop},
        (if contains importSipconfig (rstrip T.space (l.fill ρ)) then ¬ HasHole l else P) →
        contains importSipconfig (rstrip T.space (l.fill ρ)) = false := by
      intro ρ P h
      by_contra htrue
      rw [if_pos (by simpa using htrue)] at h
      exact h hhole
    have hσi := himport σ hcσ
    have hτi := himport τ hcτ
    rw [hσi, if_neg Bool.false_ne_true] at hcσ
    rw [hτi, if_neg Bool.false_ne_true] at hcτ
    rw [hσi, hτi, if_neg Bool.false_ne_true, if_neg Bool.false_ne_true]
    by_cases hkσ : contains pyqtKey (rstrip T.space (l.fill σ)) = true <;>
      by_cases hkτ : contains pyqtKey (rstrip T.space (l.fill τ)) = true
    · rw [if_pos hkσ] at hcσ ⊢
      rw [if_pos hkτ]
      exact hsys hcσ
    · rw [if_pos hkσ] at hcσ
      rw [if_neg hkτ] at hcτ
      cases hcσ.eq_of_hasHole hcτ hhole
    · rw [if_neg hkσ] at hcσ
      rw [if_pos hkτ] at hcτ
      cases hcσ.eq_of_hasHole hcτ hhole
    · rw [if_neg hkσ] at hcσ ⊢
      rw [if_neg hkτ]
      exact hqt hcσ
  · have hcovered : ∀ (R : Rewriting) (h : Dir), Covered R h l := by
      intro R h
      cases l with
      | fixed t => exact trivial
      | entry e => exact fun hexists => absurd hexists hhole
    have hsys := hsys (hcovered _ _)
    have hqt := hqt (hcovered _ _)
    rw [TemplateLine.fill_eq σ τ hhole] at hsys hqt ⊢
    split
    · rfl
    · split
      · exact hsys
      · exact hqt

end pyqt

theorem source_letter {c : Char} (hc : c.isAlpha = true) (t : Text) :
    source (c :: t) = c :: source t := by
  have hne : c ≠ '\\' ∧ c ≠ '\'' := by
    constructor <;>
      · rintro rfl
        exact absurd hc (by decide)
  simp [source_cons, sourceChar, hne]

/-- A directory whose drive letter occurs once in a line occurs once. -/
theorem onlyAtHoles_of_count {T : CharTable} {H : Type} {σ : H → Text} {h : H} {e : Entry T H}
    {u w : List (Piece H)} (hvalue : e.value = u ++ .hole h :: w) {c : Char} {t : Text}
    (hσ : σ h = c :: t) (hc : c.isAlpha = true)
    (hcount : ((TemplateLine.entry e).fill σ).count c = 1) : OnlyAtHoles σ h (.entry e) := by
  intro x y hxy
  have hfill : (TemplateLine.entry e).fill σ = (e.before ++ '\'' :: source (fill σ u)) ++
      c :: (source t ++ (source (fill σ w) ++ '\'' :: ',' :: e.trail)) := by
    rw [TemplateLine.fill, Head.text, hvalue, fill_append, fill_hole, source_append, source_append,
      hσ, source_letter hc, quoted]
    simp
  rw [hfill, List.count_append, List.count_cons_self] at hcount
  rw [hfill, hσ, source_letter hc, List.cons_append] at hxy
  obtain ⟨u', rfl, hu'⟩ := exists_of_append_eq (List.count_eq_zero.mp (by omega)) hxy
  cases u' with
  | nil => exact ⟨e, u, w, rfl, hvalue, by simp⟩
  | cons d u' =>
      rw [List.cons_append, List.cons_eq_cons] at hu'
      have hrest : (u' ++ c :: (source t ++ y)).count c = 0 := by
        rw [← hu'.2]
        omega
      rw [List.count_append, List.count_cons_self] at hrest
      omega

theorem onlyAtHoles_of_notMem {T : CharTable} {H : Type} {σ : H → Text} {h : H}
    {l : TemplateLine T H} {c : Char} {t : Text} (hσ : σ h = c :: t) (hc : c.isAlpha = true)
    (hl : c ∉ l.fill σ) : OnlyAtHoles σ h l := by
  intro x y hxy
  rw [hxy, hσ, source_letter hc] at hl
  exact absurd (by simp) hl

theorem apart_of_one {H : Type} (a b : Text) (h : H) (u : List (Piece H)) (h₁ h₂ : H)
    (w : List (Piece H)) :
    a.map .char ++ .hole h :: b.map .char ≠ u ++ .hole h₁ :: .hole h₂ :: w := by
  intro heq
  obtain ⟨u', -, hu'⟩ := exists_of_append_eq (by simp) heq
  cases u' with
  | nil =>
      obtain ⟨-, hb⟩ := List.cons_eq_cons.mp hu'
      have hmem : Piece.hole h₂ ∈ b.map (Piece.char : Char → Piece H) := by simp [hb]
      simp at hmem
  | cons p u' =>
      obtain ⟨-, hb⟩ := List.cons_eq_cons.mp hu'
      have hmem : Piece.hole h₁ ∈ b.map (Piece.char : Char → Piece H) := by simp [hb]
      simp at hmem

theorem quote_notMem_of_one {H : Type} {key a b : Text} (h : H) (hquote : '\'' ∉ key ++ (a ++ b)) :
    Piece.char '\'' ∉ a.map Piece.char ++ .hole h :: b.map Piece.char := by
  simp only [List.mem_append, not_or] at hquote
  simp [hquote]

theorem space_indent : ∀ c ∈ "    ".toList, CharTable.ascii.space c = true :=
  forall_mem_of_all (by decide +kernel)

theorem space_newlineOnly : ∀ c ∈ ['\n'], CharTable.ascii.space c = true :=
  forall_mem_of_all (by decide)

theorem quote_notMem_key {key r : Text} (hquote : '\'' ∉ key ++ r) : '\'' ∉ key :=
  fun hmem => hquote (List.mem_append_left _ hmem)

/-- A line of a config with one placeholder, and four spaces in front of the key
and of the value. -/
def entryOf {H : Type} (key a : Text) (h : H) (b : Text) (hquote : '\'' ∉ key ++ (a ++ b)) :
    Entry .ascii H where
  indent := "    ".toList
  key := key
  gap := "    ".toList
  indent_space := space_indent
  gap_space := space_indent
  key_quote := quote_notMem_key hquote
  value := a.map .char ++ .hole h :: b.map .char
  trail := ['\n']
  value_quote := quote_notMem_of_one h hquote
  apart := apart_of_one a b h
  trail_space := space_newlineOnly

/-- The arguments of configure.py with the prefix in the middle. -/
def sipTemplate : List (TemplateLine .ascii Unit) :=
  [.entry (entryOf "default_bin_dir".toList [] () [] (by decide +kernel)),
    .entry (entryOf "sip_config_args".toList "-d ".toList () "\\sip".toList (by decide +kernel))]

def pyqtTemplate : List (TemplateLine .ascii Dir) :=
  [.entry (entryOf "pyqt_bin_dir".toList [] .python [] (by decide +kernel)),
    .entry (entryOf "qt_dir".toList [] .qt [] (by decide +kernel))]

def firstPlace : Unit → Text := fun _ => "C:\\Py".toList

def secondPlace : Unit → Text := fun _ => "D:\\Python".toList

theorem isLocation_drive (a : Char) (t : Text) (ha : a.isAlpha = true) (hne : t ≠ [])
    (ht : ∀ c ∈ t, isLegalChar c = true) : IsLocation (a :: ':' :: t) where
  isDirPath := ⟨[a, ':'], t, rfl, .letter a t⟩
  root := ⟨a, ':', t, rfl, .inl ⟨ha, rfl, hne⟩⟩
  legal := ht

/-- Lines that end in a line feed and have no other. -/
def endInNewline (ls : List Text) : Bool :=
  ls.all fun l => !l.dropLast.contains '\n' && l.getLast? == some '\n'

theorem isLine_of_endInNewline {H : Type} {lines : List (TemplateLine .ascii H)} {σ : H → Text}
    (h : endInNewline (lines.map (·.fill σ)) = true) : ∀ l ∈ lines, IsLine (l.fill σ) := by
  intro l hl
  rw [endInNewline, List.all_eq_true] at h
  have hl' := h _ (List.mem_map_of_mem hl)
  simp only [Bool.and_eq_true, Bool.not_eq_true', List.contains_eq_mem, decide_eq_false_iff_not,
    beq_iff_eq] at hl'
  exact isLine_of_dropLast hl'.1 hl'.2

theorem fits_sipTemplate {σ : Unit → Text} {c : Char} {t : Text} (hσ : σ () = c :: t)
    (hc : c.isAlpha = true) (hlocation : IsLocation (σ ())) (hplain : isPlain (source (σ ())) = true)
    (hlines : endInNewline (sipTemplate.map (·.fill σ)) = true)
    (hcount : ∀ l ∈ sipTemplate.map (·.fill σ), l.count c = 1) : Fits sipTemplate σ where
  location _ := hlocation
  plain _ := hplain
  isLine := isLine_of_endInNewline hlines
  onlyAtHoles l hl h := by
    have hcount' := hcount _ (List.mem_map_of_mem hl)
    rcases List.mem_cons.mp hl with rfl | hl
    · exact onlyAtHoles_of_count rfl hσ hc hcount'
    · obtain rfl := List.mem_singleton.mp hl
      exact onlyAtHoles_of_count rfl hσ hc hcount'

theorem fits_firstPlace : Fits sipTemplate firstPlace :=
  fits_sipTemplate rfl (by decide)
    (isLocation_drive 'C' "\\Py".toList (by decide) (by decide +kernel)
      (forall_mem_of_all (by decide +kernel)))
    (by decide +kernel) (by decide +kernel) (by decide +kernel)

theorem fits_secondPlace : Fits sipTemplate secondPlace :=
  fits_sipTemplate rfl (by decide)
    (isLocation_drive 'D' "\\Python".toList (by decide) (by decide +kernel)
      (forall_mem_of_all (by decide +kernel)))
    (by decide +kernel) (by decide +kernel) (by decide +kernel)

theorem isPrefixLine_sipTemplate (σ : Unit → Text) :
    IsPrefixLine "default_bin_dir".toList () sipTemplate σ :=
  ⟨[], _, _, rfl, rfl, rfl, by simp⟩

def firstPair : Dir → Text
  | .python => "C:\\Py".toList
  | .qt => "D:/Qt".toList

def secondPair : Dir → Text
  | .python => "E:\\Py".toList
  | .qt => "F:\\Qt".toList

theorem fits_pyqtTemplate {σ : Dir → Text} {c c' : Char} {t t' : Text} (hσ : σ .python = c :: t)
    (hσ' : σ .qt = c' :: t') (hc : c.isAlpha = true) (hc' : c'.isAlpha = true)
    (hlocation : ∀ d, IsLocation (σ d))
    (hplain : isPlain (source (σ .python)) = true ∧ isPlain (source (σ .qt)) = true)
    (hlines : endInNewline (pyqtTemplate.map (·.fill σ)) = true)
    (hcount : (pyqtTemplate.map (·.fill σ)).map (fun l => (l.count c, l.count c')) =
      [(1, 0), (0, 1)]) : Fits pyqtTemplate σ where
  location := hlocation
  plain d := by
    cases d with
    | python => exact hplain.1
    | qt => exact hplain.2
  isLine := isLine_of_endInNewline hlines
  onlyAtHoles l hl d := by
    simp only [pyqtTemplate, List.map_cons, List.map_nil, List.cons.injEq, Prod.mk.injEq] at hcount
    obtain ⟨⟨h₁, h₂⟩, ⟨h₃, h₄⟩, -⟩ := hcount
    rcases List.mem_cons.mp hl with rfl | hl
    · cases d with
      | python => exact onlyAtHoles_of_count rfl hσ hc h₁
      | qt => exact onlyAtHoles_of_notMem hσ' hc' (List.count_eq_zero.mp h₂)
    · obtain rfl := List.mem_singleton.mp hl
      cases d with
      | python => exact onlyAtHoles_of_notMem hσ hc (List.count_eq_zero.mp h₃)
      | qt => exact onlyAtHoles_of_count rfl hσ' hc' h₄

theorem fits_firstPair : Fits pyqtTemplate firstPair :=
  fits_pyqtTemplate rfl rfl (by decide) (by decide)
    (fun d => by
      cases d with
      | python =>
          exact isLocation_drive 'C' "\\Py".toList (by decide) (by decide +kernel)
            (forall_mem_of_all (by decide +kernel))
      | qt =>
          exact isLocation_drive 'D' "/Qt".toList (by decide) (by decide +kernel)
            (forall_mem_of_all (by decide +kernel)))
    (by decide +kernel) (by decide +kernel) (by decide +kernel)

theorem fits_secondPair : Fits pyqtTemplate secondPair :=
  fits_pyqtTemplate rfl rfl (by decide) (by decide)
    (fun d => by
      cases d with
      | python =>
          exact isLocation_drive 'E' "\\Py".toList (by decide) (by decide +kernel)
            (forall_mem_of_all (by decide +kernel))
      | qt =>
          exact isLocation_drive 'F' "\\Qt".toList (by decide) (by decide +kernel)
            (forall_mem_of_all (by decide +kernel)))
    (by decide +kernel) (by decide +kernel) (by decide +kernel)

theorem isPrefixLine_pyqtTemplate {σ : Dir → Text} (h : (keyLineRe "qt_dir".toList).match_ .ascii
    ((pyqtTemplate.map (·.fill σ)).headD []) = none) :
    IsPrefixLine "pyqt_bin_dir".toList .python pyqtTemplate σ ∧
      IsPrefixLine "qt_dir".toList .qt pyqtTemplate σ := by
  refine ⟨⟨[], _, _, rfl, rfl, rfl, by simp⟩, ⟨[_], _, [], rfl, rfl, rfl, fun l hl => ?_⟩⟩
  obtain rfl := List.mem_singleton.mp hl
  exact h

end Config
