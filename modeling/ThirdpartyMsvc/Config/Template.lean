import ThirdpartyMsvc.Config.Relocate

/-!
# Configs of one build in two places

A template is a config with placeholders for the directories of the build. The
scripts rewrite the placeholder at the beginning of a value, and everything
behind it only when no separator follows, so a placeholder further inside a
value stays in the output. `Covered` describes the lines whose placeholders all
go away.
-/

namespace Config

open Python Text

/-- A character of a value, or a placeholder. -/
inductive Piece (H : Type) where
  | char (c : Char)
  | hole (h : H)
deriving DecidableEq, Repr

/-- The text of a value when the placeholders stand for directories. -/
def fill {H : Type} (σ : H → Text) (v : List (Piece H)) : Text :=
  v.flatMap fun
    | .char c => [c]
    | .hole h => σ h

/-- A line of a key and a value with placeholders. Two placeholders do not
follow each other, and the characters of the value are no quotation marks. -/
structure Entry (T : CharTable) (H : Type) extends Head T where
  value : List (Piece H)
  trail : Text
  value_quote : .char '\'' ∉ value
  apart : ∀ u h h' w, value ≠ u ++ .hole h :: .hole h' :: w
  trail_space : ∀ c ∈ trail, T.space c = true

/-- A line of a template: a line without placeholders, or one with a value. -/
inductive TemplateLine (T : CharTable) (H : Type) where
  | fixed (t : Text)
  | entry (e : Entry T H)

section template

variable {T : CharTable} {H : Type}

def TemplateLine.fill (σ : H → Text) : TemplateLine T H → Text
  | .fixed t => t
  | .entry e => e.text (quoted (source (Config.fill σ e.value))) e.trail

/-- The directory of `h` occurs in a filled line at its placeholders only. -/
def OnlyAtHoles (σ : H → Text) (h : H) (l : TemplateLine T H) : Prop :=
  ∀ x y, l.fill σ = x ++ (source (σ h) ++ y) → ∃ (e : Entry T H) (u w : List (Piece H)),
    l = .entry e ∧ e.value = u ++ .hole h :: w ∧ x = e.before ++ '\'' :: source (fill σ u)

/-- The placeholders of a line go away when the placeholder `h` at the beginning
of its value is rewritten. -/
def Covered (R : Rewriting) (h : H) : TemplateLine T H → Prop
  | .fixed _ => True
  | .entry e => (∃ h', .hole h' ∈ e.value) → ∃ rest, e.value = .hole h :: rest ∧
      ∀ c rest', rest = .char c :: rest' → sourceChar c ∈ R.seps → ∀ h', .hole h' ∉ rest'

/-! ## Filling -/

theorem fill_append (σ : H → Text) (u v : List (Piece H)) :
    fill σ (u ++ v) = fill σ u ++ fill σ v := by
  simp [fill]

theorem fill_char (σ : H → Text) (c : Char) (v : List (Piece H)) :
    fill σ (.char c :: v) = c :: fill σ v := rfl

theorem fill_hole (σ : H → Text) (h : H) (v : List (Piece H)) :
    fill σ (.hole h :: v) = σ h ++ fill σ v := rfl

/-- A value without placeholders does not depend on the directories. -/
theorem fill_eq (σ τ : H → Text) {v : List (Piece H)} (hv : ∀ h, .hole h ∉ v) :
    fill σ v = fill τ v := by
  induction v with
  | nil => rfl
  | cons p v ih =>
      have hrest := ih fun h hmem => hv h (List.mem_cons_of_mem _ hmem)
      cases p with
      | char c => rw [fill_char, fill_char, hrest]
      | hole h => exact absurd List.mem_cons_self (hv h)

theorem getLast?_sourceChar (c : Char) : (sourceChar c).getLast? = some c := by
  unfold sourceChar backslashes
  split
  · next h => simp [h]
  · split
    · next h => simp [h]
    · rfl

theorem sourceChar_ne_nil (c : Char) : sourceChar c ≠ [] := by
  intro h
  have hlast := getLast?_sourceChar c
  rw [h] at hlast
  cases hlast

/-- A placeholder behind a quotation mark stands at the beginning of the value. -/
theorem Entry.eq_nil_of_quote {σ : H → Text} (e : Entry T H) {x : Text} {u w : List (Piece H)}
    {h : H} (hvalue : e.value = u ++ .hole h :: w)
    (hx : x ++ ['\''] = e.before ++ '\'' :: source (fill σ u)) : u = [] := by
  rcases List.eq_nil_or_concat u with rfl | ⟨u, p, rfl⟩
  · rfl
  · exfalso
    rw [List.concat_eq_append] at hvalue hx
    cases p with
    | hole h' => exact e.apart u h' h w (by simpa using hvalue)
    | char c =>
        have hlast := congrArg List.getLast? hx
        rw [List.getLast?_concat, fill_append, source_append, fill_char] at hlast
        have hchar : source (c :: fill σ []) = sourceChar c := by
          simp [source, fill]
        rw [hchar, ← List.cons_append, ← List.append_assoc,
          List.getLast?_append_of_ne_nil _ (sourceChar_ne_nil c), getLast?_sourceChar] at hlast
        apply e.value_quote
        rw [hvalue, Option.some.inj hlast]
        simp

/-! ## The line functions on filled lines -/

/-- Directories whose configs a template describes. -/
structure Fits (lines : List (TemplateLine T H)) (σ : H → Text) : Prop where
  location : ∀ h, IsLocation (σ h)
  plain : ∀ h, isPlain (source (σ h)) = true
  isLine : ∀ l ∈ lines, IsLine (l.fill σ)
  onlyAtHoles : ∀ l ∈ lines, ∀ h, OnlyAtHoles σ h l

theorem rstrip_prefix (p : Char → Bool) (t : Text) : rstrip p t <+: t := List.rdropWhile_prefix _ _

theorem TemplateLine.rstrip_fill (e : Entry T H) (σ : H → Text) :
    rstrip T.space ((TemplateLine.entry e).fill σ) = e.line (quoted (source (Config.fill σ e.value))) :=
  e.rstrip_text _ e.trail_space

section lines

variable {lines : List (TemplateLine T H)} {σ : H → Text} (hσ : Fits lines σ)
  {R : Rewriting} {h : H} {f : Text → Except PatchError Text}
include hσ

/-- A line whose value does not begin with the placeholder stays. -/
theorem Fits.kept (hf : Rewrites R (source (σ h)) f) {l : TemplateLine T H} (hl : l ∈ lines)
    (hvalue : ∀ e rest, l = .entry e → e.value ≠ .hole h :: rest) :
    f (rstrip T.space (l.fill σ)) = .ok (rstrip T.space (l.fill σ)) := by
  apply hf.unchanged _ (newline_notMem_rstrip T (hσ.isLine l hl))
  intro u r hur
  exfalso
  obtain ⟨t, ht⟩ := rstrip_prefix T.space (l.fill σ)
  have hfill : l.fill σ = (u ++ ['\'']) ++ (source (σ h) ++ (r ++ t)) := by
    rw [← ht, hur]
    simp
  obtain ⟨e, v, w, rfl, hv, hx⟩ := hσ.onlyAtHoles l hl h _ _ hfill
  obtain rfl := e.eq_nil_of_quote hv hx
  exact hvalue e w rfl hv

theorem Fits.not_key {e : Entry T H} (hl : .entry e ∈ lines) :
    ¬ source (σ h) <+: e.key ++ ['\''] := by
  rintro ⟨t, ht⟩
  have hfill : (TemplateLine.entry e).fill σ = (e.indent ++ ['\'']) ++ (source (σ h) ++
      (t ++ ':' :: (e.gap ++ (quoted (source (fill σ e.value)) ++ ',' :: e.trail)))) := by
    rw [← List.append_assoc (source (σ h)), ht, TemplateLine.fill, Head.text, Head.before]
    simp
  obtain ⟨e', u, w, he, -, hx⟩ := hσ.onlyAtHoles _ hl h _ _ hfill
  obtain rfl : e = e' := by simpa using he
  have hlength := congrArg List.length hx
  simp only [Head.before, List.length_append, List.length_cons, List.length_nil] at hlength
  omega

/-- A value that begins with the placeholder is rewritten. -/
theorem Fits.rewritten (hf : Rewrites R (source (σ h)) f) {e : Entry T H} (hl : .entry e ∈ lines)
    {rest : List (Piece H)} (hvalue : e.value = .hole h :: rest) :
    f (rstrip T.space ((TemplateLine.entry e).fill σ)) =
      .ok (e.line (R.value (source (fill σ rest)))) := by
  have hnewline := newline_notMem_rstrip T (hσ.isLine _ hl)
  rw [TemplateLine.rstrip_fill, hvalue, fill_hole, source_append] at hnewline ⊢
  exact hf.line_value (hσ.location h).beginsPath e.toHead _ hnewline (hσ.not_key hl)

end lines

/-! ## What is left of the directories -/

/-- No directory begins in `t` or where `t` ends. -/
def noStart : Text → Bool
  | [] => true
  | [a] => !isSep a && !a.isAlpha
  | a :: b :: t => !isSep a && b != ':' && noStart (b :: t)

theorem BeginsPath.noStart {p : Text} (hp : BeginsPath p) {u v w : Text}
    (ht : noStart (u ++ v) = true) (hv : v ≠ []) : ¬ p <+: v ++ w := by
  induction u with
  | nil =>
      obtain ⟨a, b, t, rfl, -, hab⟩ := hp
      obtain ⟨c, v, rfl⟩ := List.exists_cons_of_ne_nil hv
      intro h
      rw [List.cons_append, List.cons_prefix_cons] at h
      obtain ⟨rfl, h⟩ := h
      cases v with
      | nil =>
          simp only [List.nil_append, Config.noStart, Bool.and_eq_true, Bool.not_eq_true'] at ht
          rcases hab with ⟨ha, -⟩ | ⟨ha, -⟩
          · rw [ha] at ht
            cases ht.2
          · rw [ha] at ht
            cases ht.1
      | cons d v =>
          rw [List.cons_append, List.cons_prefix_cons] at h
          obtain ⟨rfl, -⟩ := h
          simp only [List.nil_append, Config.noStart, Bool.and_eq_true, Bool.not_eq_true',
            bne_iff_ne] at ht
          rcases hab with ⟨-, hb⟩ | ⟨ha, -⟩
          · exact ht.1.2 hb
          · rw [ha] at ht
            cases ht.1.1
  | cons c u ih =>
      apply ih
      cases huv : u ++ v with
      | nil => rfl
      | cons d t =>
          rw [List.cons_append, huv, Config.noStart, Bool.and_eq_true] at ht
          exact ht.2

theorem BeginsPath.head_not_space {p : Text} (hp : BeginsPath p) {c : Char} {t : Text}
    (h : p = c :: t) : T.space c = false := by
  obtain ⟨a, b, t', rfl, -, hab⟩ := hp
  obtain ⟨rfl, -⟩ := List.cons_eq_cons.mp h
  rcases hab with ⟨ha, -⟩ | ⟨ha, -⟩
  · exact T.not_space_of_isAlphanum (by simp [Char.isAlphanum, ha])
  · simp only [isSep, Bool.or_eq_true, beq_iff_eq] at ha
    rcases ha with rfl | rfl <;> exact T.space_of_ascii (by decide) false (by decide)

/-- A directory that begins in front of the value ends there. -/
theorem Head.prefix_of_prefix_before (hd : Head T) {p u v w : Text} (hp : BeginsPath p)
    (huv : hd.before = u ++ v) (hv : v ≠ []) (hpre : p <+: v ++ w) : p <+: v := by
  rcases List.prefix_or_prefix_of_prefix hpre (List.prefix_append v w) with h | ⟨t, rfl⟩
  · exact h
  · exfalso
    have hbefore : hd.before = (hd.indent ++ '\'' :: hd.key) ++ '\'' :: ':' :: hd.gap := by
      simp [Head.before]
    rw [hbefore] at huv
    rcases List.append_eq_append_iff.mp huv with ⟨u', rfl, h'⟩ | ⟨v', h', rfl⟩
    · cases u' with
      | nil =>
          obtain rfl : v = '\'' :: ':' :: hd.gap := by simpa using h'.symm
          exact hp.not_quote_colon [] (hd.gap ++ t) (by simp)
      | cons c u' =>
          rw [List.cons_append, List.cons_eq_cons] at h'
          obtain ⟨-, h'⟩ := h'
          cases u' with
          | nil =>
              obtain rfl : v = ':' :: hd.gap := by simpa using h'.symm
              exact hp.not_colon (hd.gap ++ t) (by simp)
          | cons c u' =>
              rw [List.cons_append, List.cons_eq_cons] at h'
              obtain ⟨d, v, rfl⟩ := List.exists_cons_of_ne_nil hv
              have hspace : T.space d = true :=
                hd.gap_space d (h'.2 ▸ List.mem_append_right _ List.mem_cons_self)
              rw [hp.head_not_space rfl] at hspace
              cases hspace
    · exact hp.not_quote_colon v' (hd.gap ++ t) (by simp)

theorem notMem_of_isPlain {p : Text} (hp : isPlain p = true) {c : Char} (hc : c ∈ metachars) :
    c ∉ p := by
  induction p with
  | nil => simp
  | cons d p ih =>
      rw [isPlain] at hp
      simp only [Bool.and_eq_true, Bool.not_eq_true', List.contains_eq_mem,
        decide_eq_false_iff_not] at hp
      rw [List.mem_cons, not_or]
      refine ⟨?_, ih hp.2⟩
      rintro rfl
      exact hp.1.1 hc

/-- The expressions of a rewriting leave no room for a directory. -/
structure Rewriting.Silent (R : Rewriting) : Prop where
  base : noStart (R.base ++ [',']) = true
  join : noStart R.join = true

section remains

variable {lines : List (TemplateLine T H)} {σ : H → Text} (hσ : Fits lines σ) {R : Rewriting}
  {h : H}
include hσ

/-- In a rewritten line a directory can only begin in the new value. -/
theorem Fits.exists_of_line_eq {e : Entry T H} (hl : .entry e ∈ lines) {expr x y : Text}
    (hline : e.line expr = x ++ (source (σ h) ++ y)) :
    ∃ x', expr ++ [','] = x' ++ (source (σ h) ++ y) := by
  rw [Head.line] at hline
  rcases List.append_eq_append_iff.mp hline with ⟨x', -, hx'⟩ | ⟨v, hbefore, hv⟩
  · exact ⟨x', hx'⟩
  · by_cases hnil : v = []
    · exact ⟨[], by rw [hv, hnil, List.nil_append, List.nil_append]⟩
    · exfalso
      have hpre : source (σ h) <+: v ++ (expr ++ [',']) := ⟨y, hv⟩
      obtain ⟨t, rfl⟩ :=
        e.prefix_of_prefix_before (hσ.location h).beginsPath hbefore hnil hpre
      have hfill : (TemplateLine.entry e).fill σ = x ++ (source (σ h) ++
          (t ++ (quoted (source (fill σ e.value)) ++ ',' :: e.trail))) := by
        rw [TemplateLine.fill, Head.text, hbefore]
        simp
      obtain ⟨e', u, w, he, -, hx⟩ := hσ.onlyAtHoles _ hl h _ _ hfill
      obtain rfl : e = e' := by simpa using he
      have hlength := congrArg List.length hx
      have hlength' := congrArg List.length hbefore
      simp only [List.length_append, List.length_cons] at hlength hlength'
      omega

theorem Fits.not_infix_base (hR : R.Silent) {e : Entry T H} (hl : .entry e ∈ lines) :
    ¬ source (σ h) <:+: e.line R.base := by
  rintro ⟨x, y, hxy⟩
  rw [List.append_assoc] at hxy
  obtain ⟨x', hx'⟩ := hσ.exists_of_line_eq hl hxy.symm
  have hne : source (σ h) ++ y ≠ [] := by
    obtain ⟨a, b, t, hp, -⟩ := (hσ.location h).beginsPath
    simp [hp]
  refine (hσ.location h).beginsPath.noStart (hx' ▸ hR.base) hne (w := []) ?_
  rw [List.append_nil]
  exact List.prefix_append _ _

theorem Fits.not_infix_join (hR : R.Silent) {e : Entry T H} (hl : .entry e ∈ lines) {k : H}
    {c : Char} {rest : List (Piece H)} (hvalue : e.value = .hole k :: .char c :: rest)
    (hrest : ∀ h', .hole h' ∉ rest) :
    ¬ source (σ h) <:+: e.line (R.join ++ (source (fill σ rest) ++ ['\'', ')'])) := by
  rintro ⟨x, y, hxy⟩
  rw [List.append_assoc] at hxy
  obtain ⟨x', hx'⟩ := hσ.exists_of_line_eq hl hxy.symm
  have hp := (hσ.location h).beginsPath
  have hne : source (σ h) ++ y ≠ [] := by
    obtain ⟨a, b, t, hp, -⟩ := hp
    simp [hp]
  rw [List.append_assoc] at hx'
  obtain ⟨x₂, hx₂⟩ : ∃ x₂, (source (fill σ rest) ++ ['\'', ')']) ++ [','] =
      x₂ ++ (source (σ h) ++ y) := by
    rcases List.append_eq_append_iff.mp hx' with ⟨x₂, -, hx₂⟩ | ⟨v, hjoin, hv⟩
    · exact ⟨x₂, hx₂⟩
    · by_cases hnil : v = []
      · exact ⟨[], by rw [hv, hnil, List.nil_append, List.nil_append]⟩
      · exact absurd ⟨y, hv⟩ (hp.noStart (hjoin ▸ hR.join) hnil)
  rw [List.append_assoc] at hx₂
  rcases List.append_eq_append_iff.mp hx₂ with ⟨x₃, -, hx₃⟩ | ⟨v, hsource, hv⟩
  · have hend : noStart (['\'', ')'] ++ [',']) = true := by decide
    refine hp.noStart (hx₃ ▸ hend) hne (w := []) ?_
    rw [List.append_nil]
    exact List.prefix_append _ _
  · -- the directory begins in the rest, so it is in the template line as well
    have hpre : source (σ h) <+: (v ++ ['\'']) ++ ')' :: [','] := ⟨y, by simpa using hv⟩
    obtain ⟨t, ht⟩ := prefix_of_prefix_append_cons
      (notMem_of_isPlain (hσ.plain h) (by decide)) hpre
    have hfill : (TemplateLine.entry e).fill σ =
        (e.before ++ '\'' :: (source (σ k) ++ (sourceChar c ++ x₂))) ++
          (source (σ h) ++ (t ++ ',' :: e.trail)) := by
      rw [← List.append_assoc (source (σ h)), ht, TemplateLine.fill, Head.text, hvalue, fill_hole,
        fill_char, source_append, source_cons, hsource, quoted]
      simp
    obtain ⟨e', u, w, he, hu, hx⟩ := hσ.onlyAtHoles _ hl h _ _ hfill
    obtain rfl : e = e' := by simpa using he
    rw [hvalue] at hu
    cases u with
    | nil =>
        have hlength := congrArg List.length hx
        have hpos := List.length_pos_iff.mpr (sourceChar_ne_nil c)
        simp only [fill, source, List.flatMap_nil, List.length_append, List.length_cons,
          List.length_nil] at hlength
        omega
    | cons a u =>
        cases u with
        | nil => simp at hu
        | cons a' u =>
            simp only [List.cons_append, List.cons_eq_cons] at hu
            apply hrest h
            rw [hu.2.2]
            simp

end remains

theorem silent_sipRewriting : sipRewriting.Silent := ⟨by decide, by decide⟩

theorem silent_sysPrefixRewriting : sysPrefixRewriting.Silent := ⟨by decide, by decide⟩

theorem silent_qtDirRewriting : qtDirRewriting.Silent := ⟨by decide, by decide⟩

/-- What the placeholder at the beginning of a value becomes: the base alone, or
the rest behind a separator joined to it. -/
theorem Entry.value_cases {R : Rewriting} (hR : R.Sound) {e : Entry T H} {h : H}
    {rest : List (Piece H)} (hvalue : e.value = .hole h :: rest) :
    ((∀ c rest', rest = .char c :: rest' → sourceChar c ∉ R.seps) ∧
      ∀ σ, R.value (source (fill σ rest)) = R.base) ∨
    ∃ c rest', rest = .char c :: rest' ∧ sourceChar c ∈ R.seps ∧
      ∀ σ, R.value (source (fill σ rest)) = R.join ++ (source (fill σ rest') ++ ['\'', ')']) := by
  have hslash : ∀ sep ∈ separators, sep ≠ [] := by decide
  cases rest with
  | nil =>
      refine .inl ⟨by simp, fun σ => value_of_not_begins R fun sep hsep hnil => ?_⟩
      exact hslash sep (hR.seps sep hsep) (List.prefix_nil.mp hnil)
  | cons p rest =>
      cases p with
      | hole h' => exact absurd hvalue (e.apart [] h h' rest)
      | char c =>
          by_cases hc : sourceChar c ∈ R.seps
          · refine .inr ⟨c, rest, rfl, hc, fun σ => ?_⟩
            rw [fill_char, source_cons, value_of_mem hR hc]
          · refine .inl ⟨?_, fun σ => value_of_not_begins R fun sep hsep hpre => ?_⟩
            · rintro c' rest' heq
              obtain ⟨hcc, -⟩ := List.cons_eq_cons.mp heq
              cases hcc
              exact hc
            · obtain ⟨s, -, rfl⟩ := exists_sep_of_mem (hR.seps sep hsep)
              obtain ⟨t, ht⟩ := hpre
              rw [fill_char, source_cons] at ht
              exact hc (sourceChar_append_inj ht ▸ hsep)

theorem infix_source_fill {σ : H → Text} {h : H} {v : List (Piece H)} (hv : .hole h ∈ v) :
    source (σ h) <:+: source (fill σ v) := by
  obtain ⟨u, w, rfl⟩ := List.append_of_mem hv
  rw [fill_append, source_append, fill_hole, source_append]
  exact ⟨source (fill σ u), source (fill σ w), by simp⟩

theorem Head.infix_line (hd : Head T) {p expr : Text} (h : p <:+: expr) : p <:+: hd.line expr :=
  h.trans ⟨hd.before, [','], by simp [Head.line]⟩

theorem infix_quoted {p v : Text} (h : p <:+: v) : p <:+: quoted v :=
  h.trans ⟨['\''], ['\''], by simp [quoted]⟩

/-- A line has a placeholder. -/
def HasHole : TemplateLine T H → Prop
  | .fixed _ => False
  | .entry e => ∃ h, .hole h ∈ e.value

/-- The directories do not show in a printed line. -/
def Hidden (σ : H → Text) (out : Text) : Prop := ∀ h, ¬ source (σ h) <:+: out

section covered

variable {lines : List (TemplateLine T H)} {σ : H → Text} (hσ : Fits lines σ) {R : Rewriting}
  {h : H} {f : Text → Except PatchError Text}
include hσ

/-- A line that stays hides the directories if and only if it has no placeholder. -/
theorem Fits.hidden_kept_iff {l : TemplateLine T H} (hl : l ∈ lines) :
    Hidden σ (rstrip T.space (l.fill σ)) ↔ ¬ HasHole l := by
  constructor
  · intro hhidden hhole
    cases l with
    | fixed t => exact hhole
    | entry e =>
        obtain ⟨k, hk⟩ := hhole
        apply hhidden k
        rw [TemplateLine.rstrip_fill]
        exact e.infix_line (infix_quoted (infix_source_fill hk))
  · rintro hhole k ⟨x, y, hxy⟩
    obtain ⟨t, ht⟩ := rstrip_prefix T.space (l.fill σ)
    have hfill : l.fill σ = x ++ (source (σ k) ++ (y ++ t)) := by
      rw [← ht, ← hxy]
      simp
    obtain ⟨e, u, w, rfl, hu, -⟩ := hσ.onlyAtHoles l hl k _ _ hfill
    exact hhole ⟨k, by rw [hu]; simp⟩

/-- The output of a line function hides the directories if and only if the line
is covered. -/
theorem Fits.exists_hidden_iff (hf : Rewrites R (source (σ h)) f) (hR : R.Sound)
    (hsilent : R.Silent) {l : TemplateLine T H} (hl : l ∈ lines) :
    ∃ out, f (rstrip T.space (l.fill σ)) = .ok out ∧ (Hidden σ out ↔ Covered R h l) := by
  by_cases hvalue : ∃ e rest, l = .entry e ∧ e.value = .hole h :: rest
  · obtain ⟨e, rest, rfl, hvalue⟩ := hvalue
    refine ⟨_, hσ.rewritten hf hl hvalue, ?_⟩
    rcases e.value_cases hR hvalue with ⟨hsep, hbase⟩ | ⟨c, rest', rfl, hc, hjoin⟩
    · rw [hbase σ]
      exact iff_of_true (fun k => hσ.not_infix_base hsilent hl) fun _ =>
        ⟨rest, hvalue, fun c rest' hrest hc => absurd hc (hsep c rest' hrest)⟩
    · rw [hjoin σ]
      constructor
      · intro hhidden _
        refine ⟨_, hvalue, fun c' rest'' hrest hc' k hk => ?_⟩
        obtain ⟨-, rfl⟩ := List.cons_eq_cons.mp hrest
        apply hhidden k
        apply e.infix_line
        exact (infix_source_fill hk).trans ⟨R.join, ['\'', ')'], by simp⟩
      · intro hcovered k
        obtain ⟨rest'', hrest, hholes⟩ := hcovered ⟨h, by rw [hvalue]; simp⟩
        obtain ⟨-, rfl⟩ := List.cons_eq_cons.mp (hvalue.symm.trans hrest)
        exact hσ.not_infix_join hsilent hl hvalue (hholes c rest' rfl hc)
  · push Not at hvalue
    refine ⟨_, hσ.kept hf hl hvalue, (hσ.hidden_kept_iff hl).trans ?_⟩
    cases l with
    | fixed t => exact iff_of_true (fun hhole => hhole) trivial
    | entry e =>
        constructor
        · exact fun hhole hexists => absurd hexists hhole
        · intro hcovered hhole
          obtain ⟨rest, hrest, -⟩ := hcovered hhole
          exact hvalue e rest rfl hrest

end covered

/-- A line without placeholders is the same for all directories. -/
theorem TemplateLine.fill_eq (σ τ : H → Text) {l : TemplateLine T H} (hl : ¬ HasHole l) :
    l.fill σ = l.fill τ := by
  cases l with
  | fixed t => rfl
  | entry e =>
      rw [TemplateLine.fill, TemplateLine.fill, Config.fill_eq σ τ fun h hmem => hl ⟨h, hmem⟩]

/-- A covered line is printed in the same way for all directories. -/
theorem Fits.eq_of_covered {lines : List (TemplateLine T H)} {σ τ : H → Text} (hσ : Fits lines σ)
    (hτ : Fits lines τ) {R : Rewriting} (hR : R.Sound) {h : H}
    {f g : Text → Except PatchError Text} (hf : Rewrites R (source (σ h)) f)
    (hg : Rewrites R (source (τ h)) g) {l : TemplateLine T H} (hl : l ∈ lines)
    (hcovered : Covered R h l) :
    f (rstrip T.space (l.fill σ)) = g (rstrip T.space (l.fill τ)) := by
  by_cases hhole : HasHole l
  · cases l with
    | fixed t => exact absurd hhole id
    | entry e =>
        obtain ⟨rest, hvalue, hholes⟩ := hcovered hhole
        rw [hσ.rewritten hf hl hvalue, hτ.rewritten hg hl hvalue]
        rcases e.value_cases hR hvalue with ⟨-, hbase⟩ | ⟨c, rest', rfl, hc, hjoin⟩
        · rw [hbase σ, hbase τ]
        · rw [hjoin σ, hjoin τ, Config.fill_eq σ τ (hholes c rest' rfl hc)]
  · have hvalue : ∀ e rest, l = .entry e → e.value ≠ .hole h :: rest := by
      rintro e rest rfl hvalue
      exact hhole ⟨h, by rw [hvalue]; simp⟩
    rw [hσ.kept hf hl hvalue, hτ.kept hg hl hvalue, TemplateLine.fill_eq σ τ hhole]

end template

end Config
