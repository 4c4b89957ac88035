import ThirdpartyMsvc.Config.Lines

/-!
# What a value denotes before and after

A value that is the prefix, or the prefix with a separator and a rest behind
it, has to become an expression for the same path, and every other value has to
stay. The scripts replace the prefix wherever it begins a value, with or without
a separator behind it, so `relocates_iff` needs the values to be unambiguous.
-/

namespace Config

open Python Text

/-- A text in single quotation marks. -/
def quoted (v : Text) : Text := '\'' :: (v ++ ['\''])

/-- A line of a key and a value in single quotation marks. -/
structure ConfigLine (T : CharTable) extends Head T where
  value : Text
  trail : Text
  value_quote : '\'' ∉ value
  trail_space : ∀ c ∈ trail, T.space c = true

/-- The line as it stands in the file. -/
def ConfigLine.raw {T : CharTable} (l : ConfigLine T) : Text :=
  l.text (quoted l.value) l.trail

/-- The separators of a path in a config. -/
def separators : List Text := [backslashes, ['/']]

/-- What relocation promises about a line whose printed form is `out`. -/
structure Relocates {T : CharTable} (R : Rewriting) (p : Text) (l : ConfigLine T) (out : Text) :
    Prop where
  base : l.value = p → out = l.line R.base
  join : ∀ sep ∈ separators, ∀ rest, l.value = p ++ (sep ++ rest) →
    out = l.line (R.join ++ (rest ++ ['\'', ')']))
  kept : l.value ≠ p → (∀ sep ∈ separators, ¬ p ++ sep <+: l.value) →
    out = l.line (quoted l.value)

/-- The key does not begin with the prefix, and a value that begins with it
goes on with a separator of the rewriting or not at all. -/
structure Unambiguous {T : CharTable} (R : Rewriting) (p : Text) (l : ConfigLine T) : Prop where
  key : ¬ p <+: l.key ++ ['\'']
  value : ∀ s, l.value = p ++ s → s = [] ∨ ∃ sep ∈ R.seps, sep <+: s

/-- The expressions of a rewriting can be told apart and are no literals. -/
structure Rewriting.Sound (R : Rewriting) : Prop where
  seps : ∀ sep ∈ R.seps, sep ∈ separators
  base : ∀ t, R.base ≠ '\'' :: t
  join : ∀ s t, R.join ++ s ≠ '\'' :: t
  distinct : ¬ R.join <+: R.base

theorem sound_sipRewriting : sipRewriting.Sound where
  seps := by decide
  base t := by
    intro h
    cases h
  join s t := by
    intro h
    cases h
  distinct := by decide

theorem sound_sysPrefixRewriting : sysPrefixRewriting.Sound where
  seps := by decide
  base t := by
    intro h
    cases h
  join s t := by
    intro h
    cases h
  distinct := by decide

theorem sound_qtDirRewriting : qtDirRewriting.Sound where
  seps := by decide
  base t := by
    intro h
    cases h
  join s t := by
    intro h
    cases h
  distinct := by decide

theorem Rewriting.Sound.value {R : Rewriting} (hR : R.Sound) (s t : Text) :
    R.value s ≠ '\'' :: t := by
  rw [Rewriting.value]
  split
  · exact hR.base t
  · exact hR.join _ t

/-! ## The line functions on a line -/

section line

variable {T : CharTable} {R : Rewriting} {p : Text} {f : Text → Except PatchError Text}

/-- A key that begins with the prefix is rewritten. -/
theorem Rewrites.line_key (hf : Rewrites R p f) (hR : R.Sound) (h : Head T) (v : Text)
    (hnewline : '\n' ∉ h.line (quoted v)) (hkey : p <+: h.key ++ ['\'']) :
    ∃ out, f (h.line (quoted v)) = .ok out ∧ ∀ expr, out ≠ h.line expr := by
  obtain ⟨t, ht⟩ := hkey
  have hrest : '\'' ∈ t ++ ':' :: (h.gap ++ (quoted v ++ [','])) := by simp [quoted]
  obtain ⟨s, post, hs, hpost⟩ := exists_last_quote hrest
  have hline : h.line (quoted v) = h.indent ++ '\'' :: (p ++ (s ++ '\'' :: post)) := by
    have hkey' : p ++ (t ++ ':' :: (h.gap ++ (quoted v ++ [',']))) =
        h.key ++ ['\''] ++ ':' :: (h.gap ++ (quoted v ++ [','])) := by
      rw [← ht, List.append_assoc]
    rw [← hs, hkey', Head.line, Head.before]
    simp
  rw [hline] at hnewline ⊢
  refine ⟨_, hf.rewritten _ s post hnewline hpost ?_, ?_⟩
  · rintro u v' huv hv ⟨r, hr⟩
    obtain ⟨c, v', rfl⟩ := List.exists_cons_of_ne_nil hv
    rw [List.cons_append, List.cons_append, List.cons_eq_cons] at hr
    apply Head.quote_notMem_of_space h.indent_space
    rw [huv, hr.1]
    exact List.mem_append_right _ List.mem_cons_self
  · intro expr hexpr
    rw [Head.line, Head.before, List.append_assoc] at hexpr
    have hvalue := List.append_cancel_left hexpr
    rcases hcase : R.value s with _ | ⟨c, w⟩
    · rw [hcase, List.nil_append] at hvalue
      apply hpost
      rw [hvalue]
      exact List.mem_cons_self
    · rw [hcase, List.cons_append, List.cons_append, List.cons_eq_cons] at hvalue
      rw [hvalue.1] at hcase
      exact hR.value s w hcase

/-- The prefix at the beginning of the value is rewritten. -/
theorem Rewrites.line_value (hf : Rewrites R p f) (hp : BeginsPath p) (h : Head T) (s : Text)
    (hnewline : '\n' ∉ h.line (quoted (p ++ s))) (hkey : ¬ p <+: h.key ++ ['\'']) :
    f (h.line (quoted (p ++ s))) = .ok (h.line (R.value s)) := by
  have hline : h.line (quoted (p ++ s)) = h.before ++ '\'' :: (p ++ (s ++ '\'' :: [','])) := by
    simp [Head.line, quoted]
  rw [hline] at hnewline ⊢
  refine hf.rewritten _ s [','] hnewline (by decide) ?_
  intro u v huv hv hpre
  exact hkey (h.prefix_before hp huv hv hpre).2

/-- In a value without quotation marks that does not begin with the prefix, the
prefix has no quotation mark around it. -/
theorem quote_notMem_of_quoted {p v u r : Text} (hquote : '\'' ∉ v) (hv : ¬ p <+: v)
    (h : quoted v ++ [','] = u ++ '\'' :: (p ++ r)) : '\'' ∉ r := by
  cases u with
  | nil =>
      have hpre : v ++ '\'' :: [','] = p ++ r := by simpa [quoted] using h
      rcases List.append_eq_append_iff.mp hpre with ⟨w, hpw, hw⟩ | ⟨w, hvw, -⟩
      · cases w with
        | nil => exact absurd ⟨[], by simpa using hpw⟩ hv
        | cons c w =>
            rw [List.cons_append, List.cons_eq_cons] at hw
            intro hr
            have hmem : '\'' ∈ w ++ r := List.mem_append_right _ hr
            rw [← hw.2] at hmem
            exact absurd hmem (by decide)
      · exact absurd ⟨w, hvw.symm⟩ hv
  | cons c u =>
      rw [quoted, List.cons_append, List.cons_append, List.cons_eq_cons] at h
      obtain ⟨u₂, -, h₂⟩ := exists_of_append_eq hquote (by simpa using h.2)
      cases u₂ with
      | nil =>
          obtain ⟨-, h₂⟩ := List.cons_eq_cons.mp h₂
          intro hr
          have hmem : '\'' ∈ p ++ r := List.mem_append_right _ hr
          rw [← h₂] at hmem
          exact absurd hmem (by decide)
      | cons d u₂ =>
          rw [List.cons_append, List.cons_eq_cons] at h₂
          have hmem : '\'' ∈ u₂ ++ '\'' :: (p ++ r) := by simp
          rw [← h₂.2] at hmem
          exact absurd hmem (by decide)

/-- A value without quotation marks that does not begin with the prefix stays. -/
theorem Rewrites.line_kept (hf : Rewrites R p f) (hp : BeginsPath p) (h : Head T) {v : Text}
    (hquote : '\'' ∉ v) (hnewline : '\n' ∉ h.line (quoted v)) (hkey : ¬ p <+: h.key ++ ['\''])
    (hv : ¬ p <+: v) : f (h.line (quoted v)) = .ok (h.line (quoted v)) := by
  apply hf.unchanged _ hnewline
  intro u r hur
  rw [Head.line] at hur
  rcases List.append_eq_append_iff.mp hur with ⟨u', rfl, htail⟩ | ⟨v', hbefore, htail⟩
  · exact quote_notMem_of_quoted hquote hv htail
  · by_cases hnil : v' = []
    · rw [hnil, List.nil_append] at htail
      exact quote_notMem_of_quoted (u := []) hquote hv htail.symm
    · have hpre : '\'' :: p <+: v' ++ (quoted v ++ [',']) := ⟨r, by simpa using htail⟩
      exact absurd (h.prefix_before hp hbefore hnil hpre).2 hkey

/-! ## When relocation keeps its promise -/

/-- The separators differ in their first characters. -/
theorem separator_unique {a b t : Text} (ha : a ∈ separators) (hb : b ∈ separators)
    (h : a <+: b ++ t) : a = b := by
  simp only [separators, List.mem_cons, List.not_mem_nil, or_false] at ha hb
  rcases ha with rfl | rfl <;> rcases hb with rfl | rfl
  · rfl
  · simp [backslashes] at h
  · simp [backslashes] at h
  · rfl

theorem value_of_mem (hR : R.Sound) {sep : Text} (hsep : sep ∈ R.seps) (t : Text) :
    R.value (sep ++ t) = R.join ++ (t ++ ['\'', ')']) := by
  have hbegin : sep.isPrefixOf (sep ++ t) = true :=
    List.isPrefixOf_iff_prefix.mpr (List.prefix_append sep t)
  rw [Rewriting.value]
  split
  · next hnone =>
      rw [List.find?_eq_none] at hnone
      exact absurd hbegin (hnone sep hsep)
  · next a ha =>
      have ha' := List.find?_some ha
      rw [separator_unique (hR.seps a (List.mem_of_find?_eq_some ha)) (hR.seps sep hsep)
        (List.isPrefixOf_iff_prefix.mp ha'), List.drop_left]

theorem Head.line_inj (h : Head T) {e e' : Text} : h.line e = h.line e' ↔ e = e' := by
  rw [Head.line, Head.line, List.append_cancel_left_eq, List.append_left_inj]

/-- A line is relocated as promised if and only if it is unambiguous. -/
theorem relocates_iff (hf : Rewrites R p f) (hR : R.Sound) (hp : BeginsPath p) (l : ConfigLine T) (hnewline : '\n' ∉ l.line (quoted l.value)) {out : Text}
    (hout : f (l.line (quoted l.value)) = .ok out) :
    Relocates R p l out ↔ Unambiguous R p l := by
  have hslash : ∀ sep ∈ separators, sep ≠ [] := by decide
  by_cases hkey : p <+: l.key ++ ['\'']
  · obtain ⟨out', hout', hne⟩ := hf.line_key hR l.toHead l.value hnewline hkey
    obtain rfl : out' = out := by simpa [hout'] using hout
    refine ⟨fun h => ?_, fun h => absurd hkey h.key⟩
    exfalso
    by_cases hbase : l.value = p
    · exact hne _ (h.base hbase)
    · by_cases hjoin : ∃ sep ∈ separators, p ++ sep <+: l.value
      · obtain ⟨sep, hsep, rest, hrest⟩ := hjoin
        exact hne _ (h.join sep hsep rest (by rw [← hrest, List.append_assoc]))
      · push Not at hjoin
        exact hne _ (h.kept hbase hjoin)
  · by_cases hpre : p <+: l.value
    · obtain ⟨s, hs⟩ := hpre
      have hline := hf.line_value hp l.toHead s (by rw [hs]; exact hnewline) hkey
      rw [hs, hout] at hline
      obtain rfl : out = l.line (R.value s) := by simpa using hline
      constructor
      · intro h
        refine ⟨hkey, fun s' hs' => ?_⟩
        obtain rfl : s = s' := by simpa using hs.trans hs'
        by_contra hcond
        push Not at hcond
        have hvalue := value_of_not_begins R hcond.2
        by_cases hjoin : ∃ sep ∈ separators, sep <+: s
        · obtain ⟨sep, hsep, rest, rfl⟩ := hjoin
          have heq := h.join sep hsep rest hs.symm
          rw [Head.line_inj, hvalue] at heq
          exact hR.distinct ⟨_, heq.symm⟩
        · push Not at hjoin
          have hkept := h.kept (fun h => hcond.1 (by simpa [h] using hs))
            fun sep hsep hpre => hjoin sep hsep (by rwa [← hs, List.prefix_append_right_inj] at hpre)
          rw [Head.line_inj, hvalue] at hkept
          exact hR.base _ hkept
      · intro h
        rcases h.value s hs.symm with rfl | ⟨sep, hsep, rest, rfl⟩
        · have hvalue : R.value [] = R.base := value_of_not_begins R fun sep hsep hnil =>
            hslash sep (hR.seps sep hsep) (List.prefix_nil.mp hnil)
          rw [List.append_nil] at hs
          refine ⟨fun _ => by rw [hvalue], fun sep hsep rest hrest => ?_, fun hne => ?_⟩
          · rw [← hs] at hrest
            have hnil : sep ++ rest = [] := by simpa using hrest
            exact absurd (List.append_eq_nil_iff.mp hnil).1 (hslash sep hsep)
          · exact absurd hs.symm hne
        · have hvalue := value_of_mem hR hsep rest
          refine ⟨fun hbase => ?_, fun sep' hsep' rest' hrest' => ?_, fun _ hnone => ?_⟩
          · rw [← hs] at hbase
            have hnil : sep ++ rest = [] := by simpa using hbase
            exact absurd (List.append_eq_nil_iff.mp hnil).1 (hslash sep (hR.seps sep hsep))
          · rw [← hs] at hrest'
            have heq := List.append_cancel_left hrest'
            obtain rfl := separator_unique hsep' (hR.seps sep hsep)
              (heq ▸ List.prefix_append sep' rest')
            rw [hvalue, List.append_cancel_left heq]
          · exact absurd ⟨rest, by rw [← hs, List.append_assoc]⟩ (hnone sep (hR.seps sep hsep))
    · have hline := hf.line_kept hp l.toHead l.value_quote hnewline hkey hpre
      obtain rfl : out = l.line (quoted l.value) := by simpa [hline] using hout.symm
      refine ⟨fun _ => ⟨hkey, fun s hs => absurd ⟨s, hs.symm⟩ hpre⟩, fun _ => ⟨?_, ?_, ?_⟩⟩
      · exact fun hbase => absurd ⟨[], by simp [hbase]⟩ hpre
      · exact fun sep _ rest hrest => absurd ⟨_, hrest.symm⟩ hpre
      · exact fun _ _ => rfl

end line

/-! ## The paths -/

/-- The path that an expression of a relocated config denotes, when the base
expression denotes the directory `d`. -/
inductive Denotes (R : Rewriting) (d : Text) : Text → Text → Prop
  | literal (w : Text) : Denotes R d (quoted (source w)) w
  | base : Denotes R d R.base d
  | join (w : Text) : Denotes R d (R.join ++ (source w ++ ['\'', ')'])) (Python.join d w)

/-- The path `w` goes on behind the directory `d` with a relative path. -/
def RelativeBehind (d w : Text) : Prop :=
  ∀ s rest, isSep s = true → w = d ++ s :: rest → IsRelative rest

theorem source_inj {v w : Text} (h : source v = source w) : v = w := by
  have happend : source w = source v ++ [] := by rw [h, List.append_nil]
  obtain ⟨u, rfl, hu⟩ := exists_of_source_append happend
  cases u with
  | nil => rw [List.append_nil]
  | cons c u =>
      rw [source_cons] at hu
      unfold sourceChar backslashes at hu
      split at hu
      · cases hu
      · split at hu <;> cases hu

theorem exists_sep_of_mem {sep : Text} (hsep : sep ∈ separators) :
    ∃ s, isSep s = true ∧ sep = sourceChar s := by
  simp only [separators, List.mem_cons, List.not_mem_nil, or_false] at hsep
  rcases hsep with rfl | rfl
  · exact ⟨'\\', rfl, rfl⟩
  · exact ⟨'/', rfl, rfl⟩

/-- A line that is relocated as promised denotes the same path as before. -/
theorem Relocates.exists_denotes {T : CharTable} {R : Rewriting} {d : Text} (hd : IsLocation d)
    {l : ConfigLine T} {out : Text} (h : Relocates R (source d) l out) {w : Text}
    (hw : l.value = source w) (hrelative : RelativeBehind d w) :
    ∃ expr w', out = l.line expr ∧ Denotes R d expr w' ∧ pathComponents w' = pathComponents w := by
  by_cases hbase : l.value = source d
  · obtain rfl : w = d := source_inj (hw.symm.trans hbase)
    exact ⟨R.base, w, h.base hbase, .base, rfl⟩
  · by_cases hjoin : ∃ sep ∈ separators, source d ++ sep <+: l.value
    · obtain ⟨sep, hsep, rest, hrest⟩ := hjoin
      rw [List.append_assoc] at hrest
      obtain ⟨s, hs, rfl⟩ := exists_sep_of_mem hsep
      obtain ⟨w₁, rfl, hw₁⟩ := exists_of_source_append (hw.symm.trans hrest.symm)
      obtain ⟨w', rfl, rfl⟩ := exists_of_sourceChar_append hw₁.symm
      have hroot : ∀ a, d ≠ [a, ':'] := by
        rintro a rfl
        obtain ⟨b, c, t, hd', hroot⟩ := hd.root
        simp only [List.cons_eq_cons] at hd'
        obtain ⟨rfl, rfl, rfl⟩ := hd'
        rcases hroot with ⟨-, -, hne⟩ | ⟨-, hcolon⟩
        · exact hne rfl
        · exact absurd hcolon (by decide)
      refine ⟨_, _, h.join _ hsep _ hrest.symm, .join w', ?_⟩
      rw [pathComponents_join hd.isDirPath hroot (hrelative s w' hs rfl),
        pathComponents_append _ _ hs]
    · push Not at hjoin
      exact ⟨_, w, h.kept hbase hjoin, hw ▸ .literal w, rfl⟩

/-! ## The scripts -/

/-- What a script does to the line `l`, for the directory `d`. -/
structure LineResult {T : CharTable} (R : Rewriting) (d : Text) (l : ConfigLine T) (out : Text) :
    Prop where
  relocates_iff : Relocates R (source d) l out ↔ Unambiguous R (source d) l
  denotes : Relocates R (source d) l out → ∀ w, l.value = source w → RelativeBehind d w →
    ∃ expr w', out = l.line expr ∧ Denotes R d expr w' ∧ pathComponents w' = pathComponents w

theorem lineResult {T : CharTable} {R : Rewriting} {d : Text} {f : Text → Except PatchError Text}
    (hf : Rewrites R (source d) f) (hR : R.Sound) (hd : IsLocation d) {l : ConfigLine T}
    (hline : IsLine l.raw) {out : Text} (hout : f (rstrip T.space l.raw) = .ok out) :
    LineResult R d l out := by
  have hstrip := l.rstrip_text (quoted l.value) l.trail_space
  have hnewline := newline_notMem_rstrip T hline
  rw [ConfigLine.raw, hstrip] at hnewline hout
  exact ⟨relocates_iff hf hR hd.beginsPath l hnewline hout,
    fun h w hw hrelative => h.exists_denotes hd hw hrelative⟩

/-- A script whose line function raises nothing prints the lines one by one. -/
theorem exists_printed {f : Text → Except PatchError Text} (lines : List Text)
    (hf : ∀ l ∈ lines, ∃ out, f l = .ok out) :
    ∃ outs, printLines f lines = ⟨outs, none⟩ ∧
      List.Forall₂ (fun l out => f l = .ok out) lines outs := by
  induction lines with
  | nil => exact ⟨[], rfl, .nil⟩
  | cons l lines ih =>
      obtain ⟨out, hout⟩ := hf l (by simp)
      obtain ⟨outs, houts, hall⟩ := ih fun l' hl' => hf l' (by simp [hl'])
      exact ⟨out :: outs, by rw [printLines, hout, houts], .cons hout hall⟩

theorem exists_getElem?_of_forall₂ {α β : Type} {r : α → β → Prop} {as : List α} {bs : List β}
    (h : List.Forall₂ r as bs) {i : ℕ} {a : α} (ha : as[i]? = some a) :
    ∃ b, bs[i]? = some b ∧ r a b := by
  induction h generalizing i with
  | nil => simp at ha
  | @cons a' b' as bs hab _ ih =>
      cases i with
      | zero =>
          obtain rfl : a' = a := by simpa using ha
          exact ⟨b', rfl, hab⟩
      | succ i => exact ih (by simpa using ha)

section scripts

variable (T : CharTable) {lines : List Text}

theorem patchSipconfig_eq {p : Text} (hplain : isPlain p = true)
    (hbegin : installPrefix T installPrefixRe lines = some p) :
    patchSipconfig (sre T) T lines =
      printLines (fun l => patchLine (sre T) (rstrip T.space l) (prefixRe p sipTailRe)) lines := by
  rw [patchSipconfig, createRegex, createPrefixRe, hbegin]
  simp only
  rw [compile_sre_sip T hplain]

theorem patchPyqtconfig_eq {p q : Text} (hp : isPlain p = true) (hq : isPlain q = true)
    (hpyqt : installPrefix T pyInstallPrefixRe lines = some p)
    (hqt : installPrefix T qtInstallPrefixRe lines = some q) :
    patchPyqtconfig (sre T) T lines =
      printLines (fun l => patchPyqtLine (sre T) (prefixRe p pyqtTailRe) (prefixRe q pyqtTailRe)
        (rstrip T.space l)) lines := by
  rw [patchPyqtconfig, createPyInstallPrefixRe, createQtInstallPrefixRe, createInstallPrefixRe,
    createInstallPrefixRe, createPrefixRe, createPrefixRe, hpyqt, hqt]
  simp only
  rw [compile_sre_pyqt T hp, compile_sre_pyqt T hq]

/-- patch-sipconfig.py on a config with a plain prefix. -/
theorem exists_patchSipconfig (hlines : ∀ l ∈ lines, IsLine l) {d : Text} (hd : IsLocation d)
    (hplain : isPlain (source d) = true)
    (hbegin : installPrefix T installPrefixRe lines = some (source d)) :
    ∃ outs, patchSipconfig (sre T) T lines = ⟨outs, none⟩ ∧
      ∀ (i : ℕ) (l : ConfigLine T), lines[i]? = some l.raw →
        ∃ out, outs[i]? = some out ∧ LineResult sipRewriting d l out := by
  have hf := rewrites_patchLine T (source d)
  obtain ⟨outs, houts, hall⟩ := exists_printed lines fun l hl =>
    hf.exists_ok (newline_notMem_rstrip T (hlines l hl))
  refine ⟨outs, (patchSipconfig_eq T hplain hbegin).trans houts, fun i l hl => ?_⟩
  obtain ⟨out, hout, hfl⟩ := exists_getElem?_of_forall₂ hall hl
  exact ⟨out, hout,
    lineResult hf sound_sipRewriting hd (hlines _ (List.mem_of_getElem? hl)) hfl⟩

/-- patch-pyqtconfig.py on a config with plain prefixes: a line goes to the
rewriting of the Python prefix or to that of the Qt prefix. -/
theorem exists_patchPyqtconfig (hlines : ∀ l ∈ lines, IsLine l) {d e : Text} (hd : IsLocation d)
    (he : IsLocation e) (hplain : isPlain (source d) = true) (hplain' : isPlain (source e) = true)
    (hpyqt : installPrefix T pyInstallPrefixRe lines = some (source d))
    (hqt : installPrefix T qtInstallPrefixRe lines = some (source e)) :
    ∃ outs, patchPyqtconfig (sre T) T lines = ⟨outs, none⟩ ∧
      ∀ (i : ℕ) (l : ConfigLine T), lines[i]? = some l.raw →
        contains importSipconfig (l.line (quoted l.value)) = false →
        ∃ out, outs[i]? = some out ∧
          if contains pyqtKey (l.line (quoted l.value)) then LineResult sysPrefixRewriting d l out
          else LineResult qtDirRewriting e l out := by
  have hf := rewrites_patchSysPrefixLine T (source d)
  have hg := rewrites_patchQtDirLine T (source e)
  have hok : ∀ l ∈ lines, ∃ out, patchPyqtLine (sre T) (prefixRe (source d) pyqtTailRe)
      (prefixRe (source e) pyqtTailRe) (rstrip T.space l) = .ok out := by
    intro l hl
    have hnewline := newline_notMem_rstrip T (hlines l hl)
    unfold patchPyqtLine
    split
    · exact ⟨_, rfl⟩
    · split
      · exact hf.exists_ok hnewline
      · exact hg.exists_ok hnewline
  obtain ⟨outs, houts, hall⟩ := exists_printed lines hok
  refine ⟨outs, (patchPyqtconfig_eq T hplain hplain' hpyqt hqt).trans houts, ?_⟩
  intro i l hl himport
  obtain ⟨out, hout, hfl⟩ := exists_getElem?_of_forall₂ hall hl
  refine ⟨out, hout, ?_⟩
  have hline := hlines _ (List.mem_of_getElem? hl)
  have hstrip : rstrip T.space l.raw = l.line (quoted l.value) :=
    l.rstrip_text (quoted l.value) l.trail_space
  unfold patchPyqtLine at hfl
  rw [hstrip, himport, if_neg (by simp), ← hstrip] at hfl
  split
  · next hkey =>
      rw [if_pos (by rw [hstrip]; exact hkey)] at hfl
      exact lineResult hf sound_sysPrefixRewriting hd hline hfl
  · next hkey =>
      rw [if_neg (by rw [hstrip]; exact hkey)] at hfl
      exact lineResult hg sound_qtDirRewriting he hline hfl

end scripts

/-! ## Configs of two builds -/

def pythonDir : Text := "C:\\Py".toList

def qtBuildDir : Text := "C:/Qt".toList

theorem isLocation_pythonDir : IsLocation pythonDir where
  isDirPath := ⟨['C', ':'], ['\\', 'P', 'y'], rfl, .letter 'C' _⟩
  root := ⟨'C', ':', ['\\', 'P', 'y'], rfl, .inl ⟨by decide, rfl, by simp⟩⟩
  legal := forall_mem_of_all (by decide +kernel)

theorem isLocation_qtBuildDir : IsLocation qtBuildDir where
  isDirPath := ⟨['C', ':'], ['/', 'Q', 't'], rfl, .letter 'C' _⟩
  root := ⟨'C', ':', ['/', 'Q', 't'], rfl, .inl ⟨by decide, rfl, by simp⟩⟩
  legal := forall_mem_of_all (by decide +kernel)

def sipLines : List Text :=
  ["    'default_bin_dir':    'C:\\\\Py',\n".toList,
    "    'default_mod_dir':    'C:\\\\Py-2.7',\n".toList]

def pyqtLines : List Text :=
  ["    'pyqt_bin_dir':    'C:\\\\Py',\n".toList, "    'qt_dir':    'C:/Qt',\n".toList]

theorem isLine_of_dropLast {l : Text} (h : '\n' ∉ l.dropLast) (hlast : '\n' ∈ l.getLast?) :
    IsLine l :=
  ⟨l.dropLast, h, .inr (List.dropLast_append_getLast? _ hlast).symm⟩

/-- The directory beside the prefix in sipLines. -/
def modDirLine : ConfigLine .ascii where
  indent := "    ".toList
  key := "default_mod_dir".toList
  gap := "    ".toList
  indent_space := forall_mem_of_all (by decide +kernel)
  gap_space := forall_mem_of_all (by decide +kernel)
  key_quote := by decide +kernel
  value := "C:\\\\Py-2.7".toList
  trail := ['\n']
  value_quote := by decide +kernel
  trail_space := forall_mem_of_all (by decide)

end Config
