import ThirdpartyMsvc.Config.Rewrite
import ThirdpartyMsvc.Python.NtPath

/-!
# The lines of a config

A config holds directories as Python source: `source d` is the text of the
directory `d` between single quotation marks. A line of a key and a value has
four quotation marks, and the prefix of the build stands behind the third one
only, unless the key begins with the prefix.
-/

namespace Config

open Python Text

/-! ## Source forms -/

def sourceChar (c : Char) : Text :=
  if c = '\\' then backslashes else if c = '\'' then ['\\', '\''] else [c]

/-- The source form of a text in single quotation marks. -/
def source (d : Text) : Text := d.flatMap sourceChar

theorem source_cons (c : Char) (d : Text) : source (c :: d) = sourceChar c ++ source d := by
  simp [source]

theorem source_append (d e : Text) : source (d ++ e) = source d ++ source e := by
  simp [source]

theorem sourceChar_of_isSep {s : Char} (hs : isSep s = true) :
    sourceChar s = backslashes ∨ sourceChar s = ['/'] := by
  simp only [isSep, Bool.or_eq_true, beq_iff_eq] at hs
  rcases hs with rfl | rfl
  · exact .inl rfl
  · exact .inr rfl

theorem mem_sourceChar {c e : Char} (h : e ∈ sourceChar c) :
    e = '\\' ∨ e = '\'' ∨ e = c := by
  unfold sourceChar backslashes at h
  split at h
  · simp_all
  · split at h <;> simp_all

theorem notMem_source {e : Char} (hslash : e ≠ '\\') (hquote : e ≠ '\'') {d : Text} (hd : e ∉ d) :
    e ∉ source d := by
  intro h
  obtain ⟨c, hc, he⟩ := List.mem_flatMap.mp h
  rcases mem_sourceChar he with rfl | rfl | rfl
  · exact hslash rfl
  · exact hquote rfl
  · exact hd hc

theorem sourceChar_append_inj {e c : Char} {x y : Text}
    (h : sourceChar e ++ x = sourceChar c ++ y) : e = c := by
  unfold sourceChar backslashes at h
  by_cases he : e = '\\'
  · by_cases hc : c = '\\'
    · rw [he, hc]
    · by_cases hc' : c = '\''
      · simp_all
      · simp_all only [if_true, if_false]
        exact (List.cons_eq_cons.mp h).1
  · by_cases he' : e = '\''
    · by_cases hc : c = '\\'
      · simp_all
      · by_cases hc' : c = '\''
        · rw [he', hc']
        · simp_all
          exact absurd h.1.symm hc
    · by_cases hc : c = '\\'
      · simp_all
      · by_cases hc' : c = '\'' <;> simp_all

/-- Source forms are read one character at a time. -/
theorem exists_of_sourceChar_append {c : Char} {w t : Text} (h : source w = sourceChar c ++ t) :
    ∃ w', w = c :: w' ∧ t = source w' := by
  cases w with
  | nil =>
      exfalso
      unfold sourceChar at h
      split at h
      · simp [source, backslashes] at h
      · split at h <;> simp [source] at h
  | cons e w =>
      rw [source_cons] at h
      obtain rfl := sourceChar_append_inj h
      exact ⟨w, rfl, (List.append_cancel_left h).symm⟩

theorem exists_of_source_append {d w t : Text} (h : source w = source d ++ t) :
    ∃ w', w = d ++ w' ∧ t = source w' := by
  induction d generalizing w with
  | nil => exact ⟨w, rfl, by simpa [source] using h.symm⟩
  | cons c d ih =>
      rw [source_cons, List.append_assoc] at h
      obtain ⟨w₁, rfl, h₁⟩ := exists_of_sourceChar_append h
      obtain ⟨w', rfl, ht⟩ := ih h₁.symm
      exact ⟨w', rfl, ht⟩

/-! ## Directories -/

/-- The characters of a Windows path behind its drive. -/
def isLegalChar (c : Char) : Bool :=
  32 ≤ c.toNat && !(['<', '>', '\x22', '|', '?', '*', ':'].contains c)

/-- An absolute directory: a drive letter with a colon and a separator, or two
separators with a host and a share. -/
structure IsLocation (d : Text) : Prop where
  isDirPath : IsDirPath d
  root : ∃ a b t, d = a :: b :: t ∧
    ((a.isAlpha = true ∧ b = ':' ∧ t ≠ []) ∨ (isSep a = true ∧ isSep b = true))
  legal : ∀ c ∈ d.drop 2, isLegalChar c = true

/-- How the source form of a directory begins. -/
def BeginsPath (p : Text) : Prop :=
  ∃ a b t, p = a :: b :: t ∧ ':' ∉ t ∧
    ((a.isAlpha = true ∧ b = ':') ∨ (isSep a = true ∧ isSep b = true))

theorem IsLocation.newline_notMem {d : Text} (hd : IsLocation d) : '\n' ∉ source d := by
  apply notMem_source (by decide) (by decide)
  obtain ⟨a, b, t, rfl, hroot⟩ := hd.root
  have ht : '\n' ∉ t := fun h => absurd (hd.legal _ h) (by decide)
  have hab : '\n' ≠ a ∧ '\n' ≠ b := by
    rcases hroot with ⟨ha, rfl, -⟩ | ⟨ha, hb⟩
    · exact ⟨by rintro rfl; exact absurd ha (by decide), by decide⟩
    · exact ⟨by rintro rfl; exact absurd ha (by decide), by rintro rfl; exact absurd hb (by decide)⟩
  simp [hab, ht]

theorem IsLocation.beginsPath {d : Text} (hd : IsLocation d) : BeginsPath (source d) := by
  obtain ⟨a, b, t, rfl, hroot⟩ := hd.root
  have ht : ':' ∉ source t :=
    notMem_source (by decide) (by decide) fun h => absurd (hd.legal _ h) (by decide)
  rcases hroot with ⟨ha, rfl, -⟩ | ⟨ha, hb⟩
  · have hchar : sourceChar a = [a] := by
      have hne : a ≠ '\\' ∧ a ≠ '\'' := by
        constructor <;>
          · rintro rfl
            exact absurd ha (by decide)
      simp [sourceChar, hne]
    exact ⟨a, ':', source t, by rw [source_cons, source_cons, hchar]; rfl, ht, .inl ⟨ha, rfl⟩⟩
  · rw [source_cons, source_cons]
    rcases sourceChar_of_isSep ha with ha' | ha' <;> rcases sourceChar_of_isSep hb with hb' | hb' <;>
      rw [ha', hb']
    · exact ⟨'\\', '\\', _, rfl, by simp [backslashes, ht], .inr ⟨rfl, rfl⟩⟩
    · exact ⟨'\\', '\\', _, rfl, by simp [ht], .inr ⟨rfl, rfl⟩⟩
    · exact ⟨'/', '\\', _, rfl, by simp [ht], .inr ⟨rfl, rfl⟩⟩
    · exact ⟨'/', '/', _, rfl, by simp [ht], .inr ⟨rfl, rfl⟩⟩

/-- A text does not begin where a quotation mark and a colon follow. -/
theorem BeginsPath.not_quote_colon {p : Text} (hp : BeginsPath p) (u w : Text) :
    p ≠ u ++ '\'' :: ':' :: w := by
  obtain ⟨a, b, t, rfl, ht, hab⟩ := hp
  intro h
  match u, h with
  | [], h =>
      simp only [List.nil_append, List.cons_eq_cons] at h
      obtain ⟨rfl, rfl, -⟩ := h
      rcases hab with ⟨ha, -⟩ | ⟨ha, -⟩ <;> exact absurd ha (by decide)
  | [c], h =>
      simp only [List.singleton_append, List.cons_eq_cons] at h
      obtain ⟨-, rfl, rfl⟩ := h
      exact ht List.mem_cons_self
  | c :: d :: u, h =>
      simp only [List.cons_append, List.cons_eq_cons] at h
      obtain ⟨-, -, rfl⟩ := h
      exact ht (List.mem_append_right _ (List.mem_cons_of_mem _ List.mem_cons_self))

theorem BeginsPath.not_colon {p : Text} (hp : BeginsPath p) (w : Text) : ¬ p <+: ':' :: w := by
  obtain ⟨a, b, t, rfl, -, hab⟩ := hp
  rw [List.cons_prefix_cons]
  rintro ⟨rfl, -⟩
  rcases hab with ⟨ha, -⟩ | ⟨ha, -⟩ <;> exact absurd ha (by decide)

/-! ## Lines -/

/-- A line, with or without the line feed that ends it. -/
def IsLine (l : Text) : Prop := ∃ w, '\n' ∉ w ∧ (l = w ∨ l = w ++ ['\n'])

theorem isLine_cons {c : Char} {l : Text} (hc : c ≠ '\n') (h : IsLine l) : IsLine (c :: l) := by
  obtain ⟨w, hw, rfl | rfl⟩ := h
  · exact ⟨c :: l, by simp [hc.symm, hw], .inl rfl⟩
  · exact ⟨c :: w, by simp [hc.symm, hw], .inr rfl⟩

/-- The lines of a file are lines. -/
theorem isLine_of_mem_splitLines {t l : Text} (hl : l ∈ splitLines t) : IsLine l := by
  induction t generalizing l with
  | nil => simp [splitLines] at hl
  | cons c t ih =>
      rw [splitLines] at hl
      split at hl
      case isTrue hc =>
        rcases List.mem_cons.mp hl with rfl | hl
        · exact ⟨[], by simp, .inr (by simp [hc])⟩
        · exact ih hl
      case isFalse hc =>
        cases hls : splitLines t with
        | nil =>
            rw [hls, List.mem_singleton] at hl
            subst hl
            exact isLine_cons hc ⟨[], by simp, .inl rfl⟩
        | cons l' ls =>
            rw [hls, List.mem_cons] at hl
            rw [hls] at ih
            rcases hl with rfl | hl
            · exact isLine_cons hc (ih List.mem_cons_self)
            · exact ih (List.mem_cons_of_mem _ hl)

section rstrip

variable (T : CharTable)

theorem space_newline : T.space '\n' = true := T.space_of_ascii (by decide) true (by decide)

theorem newline_notMem_rstrip {l : Text} (hl : IsLine l) : '\n' ∉ rstrip T.space l := by
  obtain ⟨w, hw, rfl | rfl⟩ := hl
  · exact fun h => hw ((List.rdropWhile_prefix _ _).subset h)
  · rw [rstrip, List.rdropWhile_concat_pos _ _ _ (space_newline T)]
    exact fun h => hw ((List.rdropWhile_prefix _ _).subset h)

theorem rstrip_append_blank (w : Text) {c : Char} (hc : T.space c = false) {trail : Text}
    (ht : ∀ d ∈ trail, T.space d = true) : rstrip T.space (w ++ c :: trail) = w ++ [c] := by
  have hreverse : (w ++ c :: trail).reverse = trail.reverse ++ (c :: w.reverse) := by simp
  rw [rstrip, List.rdropWhile, hreverse,
    Regex.dropWhile_append_of_stops (by simpa using ht) ((Regex.stops_cons _ _ _).mpr hc)]
  simp

end rstrip

/-- What stands in front of the value of a line. -/
structure Head (T : CharTable) where
  indent : Text
  key : Text
  gap : Text
  indent_space : ∀ c ∈ indent, T.space c = true
  gap_space : ∀ c ∈ gap, T.space c = true
  key_quote : '\'' ∉ key

namespace Head

variable {T : CharTable} (h : Head T)

def before : Text := h.indent ++ '\'' :: (h.key ++ '\'' :: ':' :: h.gap)

/-- The line with the value `expr`, up to the comma. -/
def line (expr : Text) : Text := h.before ++ (expr ++ [','])

/-- The line with the value `expr` and white space at its end. -/
def text (expr trail : Text) : Text := h.before ++ (expr ++ ',' :: trail)

theorem quote_notMem_of_space {w : Text} (hw : ∀ c ∈ w, T.space c = true) : '\'' ∉ w := by
  intro hmem
  have hquote : T.space '\'' = false := T.space_of_ascii (by decide) false (by decide)
  rw [hw _ hmem] at hquote
  cases hquote

theorem rstrip_text (expr : Text) {trail : Text} (ht : ∀ c ∈ trail, T.space c = true) :
    rstrip T.space (h.text expr trail) = h.line expr := by
  have hcomma : T.space ',' = false := T.space_of_ascii (by decide) false (by decide)
  rw [text, ← List.append_assoc, rstrip_append_blank T _ hcomma ht, line, List.append_assoc]

end Head

/-- A symbol that is not in the first part is in the second part. -/
theorem exists_of_append_eq {α : Type} {q : α} {a b u v : List α} (ha : q ∉ a)
    (h : a ++ b = u ++ q :: v) : ∃ u', u = a ++ u' ∧ b = u' ++ q :: v := by
  rcases List.append_eq_append_iff.mp h with ⟨u', rfl, hb⟩ | ⟨a', ha', hv⟩
  · exact ⟨u', rfl, hb⟩
  · cases a' with
    | nil => exact ⟨[], by simpa using ha'.symm, by simpa using hv.symm⟩
    | cons c a' =>
        rw [List.cons_append, List.cons_eq_cons] at hv
        exact absurd (by simp [ha', hv.1]) ha

namespace Head

variable {T : CharTable} (h : Head T)

/-- Only the quotation mark in front of the key can have the prefix behind it,
as far as the part before the value goes. -/
theorem prefix_before {p : Text} (hp : BeginsPath p) {u v w : Text} (huv : h.before = u ++ v)
    (hv : v ≠ []) (hpre : '\'' :: p <+: v ++ w) : u = h.indent ∧ p <+: h.key ++ ['\''] := by
  obtain ⟨c, v, rfl⟩ := List.exists_cons_of_ne_nil hv
  rw [List.cons_append, List.cons_prefix_cons] at hpre
  obtain ⟨rfl, hpre⟩ := hpre
  obtain ⟨u₁, rfl, h₁⟩ := exists_of_append_eq (quote_notMem_of_space h.indent_space) huv
  cases u₁ with
  | nil =>
      obtain ⟨-, rfl⟩ := List.cons_eq_cons.mp h₁
      refine ⟨by simp, ?_⟩
      have hlong : p <+: h.key ++ ['\''] ++ ':' :: (h.gap ++ w) := by simpa using hpre
      rcases List.prefix_or_prefix_of_prefix hlong (List.prefix_append _ _) with hkey | ⟨t, ht⟩
      · exact hkey
      · cases t with
        | nil => simp [← ht]
        | cons d t =>
            rw [← ht, List.prefix_append_right_inj, List.cons_prefix_cons] at hlong
            rw [hlong.1, List.append_assoc, List.singleton_append] at ht
            exact absurd ht.symm (hp.not_quote_colon _ _)
  | cons d u₁ =>
      exfalso
      rw [List.cons_append, List.cons_eq_cons] at h₁
      obtain ⟨rfl, h₁⟩ := h₁
      obtain ⟨u₂, rfl, h₂⟩ := exists_of_append_eq h.key_quote h₁
      cases u₂ with
      | nil =>
          obtain ⟨-, rfl⟩ := List.cons_eq_cons.mp h₂
          exact hp.not_colon _ hpre
      | cons d u₂ =>
          rw [List.cons_append, List.cons_eq_cons] at h₂
          obtain ⟨rfl, h₂⟩ := h₂
          have hnot : '\'' ∉ ':' :: h.gap := by
            simp [quote_notMem_of_space h.gap_space]
          exact hnot (h₂ ▸ List.mem_append_right _ List.mem_cons_self)

end Head

/-! ## Every line is rewritten or kept -/

theorem exists_last_quote {r : Text} (hr : '\'' ∈ r) :
    ∃ s post, r = s ++ '\'' :: post ∧ '\'' ∉ post := by
  induction r with
  | nil => simp at hr
  | cons c r ih =>
      by_cases h : '\'' ∈ r
      · obtain ⟨s, post, rfl, hpost⟩ := ih h
        exact ⟨c :: s, post, rfl, hpost⟩
      · rcases List.mem_cons.mp hr with rfl | hr
        · exact ⟨[], r, rfl, h⟩
        · exact absurd hr h

/-- The line functions raise nothing. -/
theorem Rewrites.exists_ok {R : Rewriting} {p : Text} {f : Text → Except PatchError Text}
    (hf : Rewrites R p f) {x : Text} (hx : '\n' ∉ x) : ∃ out, f x = .ok out := by
  classical
  by_cases hmatch : ∃ n u r, u.length = n ∧ x = u ++ '\'' :: (p ++ r) ∧ '\'' ∈ r
  · obtain ⟨u, r, hlen, rfl, hr⟩ := Nat.find_spec hmatch
    obtain ⟨s, post, rfl, hpost⟩ := exists_last_quote hr
    refine ⟨_, hf.rewritten u s post hx hpost ?_⟩
    rintro u' v rfl hv ⟨r', hr'⟩
    have hshort : u'.length < Nat.find hmatch := by
      have hpos := List.length_pos_iff.mpr hv
      rw [← hlen, List.length_append]
      omega
    refine Nat.find_min hmatch hshort ⟨u', r', rfl, ?_, ?_⟩
    · rw [List.append_assoc, ← hr', List.cons_append]
    · have hsuffix : s ++ '\'' :: post <:+ r' := by
        have hr₁ : r' <:+ v ++ '\'' :: (p ++ (s ++ '\'' :: post)) := ⟨_, hr'⟩
        have hr₂ : s ++ '\'' :: post <:+ v ++ '\'' :: (p ++ (s ++ '\'' :: post)) :=
          ⟨v ++ '\'' :: p, by simp⟩
        apply List.suffix_of_suffix_length_le hr₂ hr₁
        have hlength := congrArg List.length hr'
        have hpos := List.length_pos_iff.mpr hv
        simp only [List.length_append, List.length_cons] at hlength ⊢
        omega
      exact hsuffix.subset (by simp)
  · refine ⟨x, hf.unchanged x hx ?_⟩
    intro u r hur hr
    exact hmatch ⟨u.length, u, r, rfl, hur, hr⟩

end Config
