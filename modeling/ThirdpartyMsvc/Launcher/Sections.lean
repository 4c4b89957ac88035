import ThirdpartyMsvc.Launcher.EntryPoints

/-!
# The script sections of an entry-point file

A well-formed file consists of blank lines, comments, section headers and
entries `name = module.path:attr.path [flags]`. `LineKind` is the syntax of its
lines, with the shape of each part as a field, and `expected` is the purpose of
get_entry_points in these terms: the entries whose nearest header is exactly
one of the two script sections, in file order.

`getEntryPoints` recognizes a script section by a part of its header. It
returns the expected list exactly when no entry stands under a header that
only contains the name of a script section.
-/

namespace Launcher

open Python Regex Sections Text

/-- A dotted sequence of words. -/
structure DottedName (T : CharTable) where
  parts : List Text
  ne_nil : parts ≠ []
  words : ∀ p ∈ parts, p ≠ [] ∧ ∀ c ∈ p, T.word c = true

def DottedName.text {T : CharTable} (d : DottedName T) : Text := dotted d.parts

/-- The flags group behind an entry. -/
structure Flags (T : CharTable) where
  gap : Text
  content : Text
  gap_space : ∀ c ∈ gap, T.space c = true

def Flags.text {T : CharTable} (f : Flags T) : Text := f.gap ++ '[' :: (f.content ++ [']'])

/-- An entry line `name = module.path:attr.path`, with optional flags. -/
structure EntryLine (T : CharTable) where
  name : Text
  before : Text
  behind : Text
  modpath : DottedName T
  attrpath : DottedName T
  flags : Option (Flags T)
  name_ne_nil : name ≠ []
  name_chars : ∀ c ∈ name, isNameChar T c = true
  before_space : ∀ c ∈ before, T.space c = true
  behind_space : ∀ c ∈ behind, T.space c = true

namespace EntryLine

variable {T : CharTable} (l : EntryLine T)

def callable : Text := l.modpath.text ++ ':' :: l.attrpath.text

def flagsText : Text := l.flags.elim [] Flags.text

def text : Text := l.name ++ (l.before ++ '=' :: (l.behind ++ (l.callable ++ l.flagsText)))

def entryPoint : EntryPoint := ⟨l.name, l.modpath.text, l.attrpath.text⟩

end EntryLine

/-- The kinds of lines of a well-formed file. -/
inductive LineKind (T : CharTable) where
  | blank
  | comment (mark : Char) (body : Text) (h : mark = '#' ∨ mark = ';')
  | header (section_ : Text)
  | entry (l : EntryLine T)

namespace LineKind

variable {T : CharTable}

/-- The stripped text of a line. -/
def text : LineKind T → Text
  | blank => []
  | comment mark body _ => mark :: body
  | header s => '[' :: (s ++ [']'])
  | entry l => l.text

def isHeader : LineKind T → Bool
  | header _ => true
  | _ => false

end LineKind

/-- The names of the two script sections. -/
def isScriptSection (s : Text) : Bool :=
  s == "console_scripts".toList || s == "gui_scripts".toList

/-- The entries under a header that is exactly a script section, in file order.
The first argument is the section of the nearest preceding header. -/
def expected {T : CharTable} : Option Text → List (LineKind T) → List EntryPoint
  | _, [] => []
  | _, .header s :: ks => expected (some s) ks
  | cur, .entry l :: ks =>
      if cur.any isScriptSection then l.entryPoint :: expected cur ks else expected cur ks
  | cur, _ :: ks => expected cur ks

/-! ## Reading one entry line -/

section read

variable {T : CharTable}

theorem callableRest_dotted : ∀ (ps : List Text),
    (∀ p ∈ ps, p ≠ [] ∧ ∀ c ∈ p, T.word c = true) → ∀ (rest : Text),
      callableRest T (dotted ps ++ rest) = dotted ps ++ callableRest T rest
  | [], _, _ => rfl
  | [p], hp, rest => callableRest_append T (hp p (by simp)).2 rest
  | p :: q :: ps, hp, rest => by
      have ih := callableRest_dotted (q :: ps) (fun r hr => hp r (by simp [hr])) rest
      obtain ⟨a, t, hat⟩ := List.exists_cons_of_ne_nil (hp q (by simp)).1
      have ha : T.word a = true := (hp q (by simp)).2 a (by simp [hat])
      obtain ⟨u, hu⟩ : ∃ u, dotted (q :: ps) = a :: u := by
        cases ps with
        | nil => exact ⟨t, hat⟩
        | cons r ps => exact ⟨t ++ '.' :: dotted (r :: ps), by simp [dotted, hat]⟩
      have hdot : callableRest T ('.' :: (dotted (q :: ps) ++ rest)) =
          '.' :: callableRest T (dotted (q :: ps) ++ rest) := by
        rw [hu, List.cons_append, callableRest_component T rfl ha]
      rw [dotted, List.append_assoc, callableRest_append T (hp p (by simp)).2,
        List.cons_append, hdot, ih, List.append_assoc, List.cons_append]

theorem DottedName.head_word (d : DottedName T) : ∃ a u, d.text = a :: u ∧ T.word a = true := by
  obtain ⟨p, ps, hps⟩ := List.exists_cons_of_ne_nil d.ne_nil
  have hp := d.words p (by simp [hps])
  obtain ⟨a, t, rfl⟩ := List.exists_cons_of_ne_nil hp.1
  refine ⟨a, t ++ (dotted ((a :: t) :: ps)).drop (t.length + 1), ?_, hp.2 a (by simp)⟩
  rw [DottedName.text, hps]
  cases ps with
  | nil => simp [dotted]
  | cons q ps => simp [dotted]

theorem DottedName.colon_notMem (d : DottedName T) : ':' ∉ d.text := by
  have hcolon : T.word ':' = false := T.word_of_ascii (by decide) false (by decide)
  apply notMem_dotted (by decide)
  intro p hp hmem
  rw [(d.words p hp).2 ':' hmem] at hcolon
  cases hcolon

theorem callableRest_flags (f : Option (Flags T)) :
    callableRest T (f.elim [] Flags.text) = [] := by
  cases f with
  | none => rfl
  | some f =>
      obtain ⟨gap, content, hgap⟩ := f
      have hbracket : T.word '[' = false := T.word_of_ascii (by decide) false (by decide)
      cases gap with
      | nil => simp [Flags.text, callableRest, hbracket, isSeparator]
      | cons c gap =>
          have hc : T.space c = true := hgap c (by simp)
          have hw : T.word c = false := by
            by_contra h
            rw [T.not_space_of_word c (Bool.not_eq_false _ ▸ h)] at hc
            cases hc
          have hs : isSeparator c = false := by
            by_contra h
            rw [Bool.not_eq_false, isSeparator, Bool.or_eq_true, beq_iff_eq, beq_iff_eq] at h
            rcases h with rfl | rfl
            · rw [T.space_of_ascii (by decide) false (by decide)] at hc
              cases hc
            · rw [T.space_of_ascii (by decide) false (by decide)] at hc
              cases hc
          simp [Flags.text, callableRest, hw, hs]

/-- The scan of an assignment finds its name, and looks for a callable behind
the sign. -/
theorem matchEntry_assign (name before behind t : Text) (hne : name ≠ [])
    (hname : ∀ c ∈ name, isNameChar T c = true) (hbefore : ∀ c ∈ before, T.space c = true)
    (hbehind : ∀ c ∈ behind, T.space c = true) (ht : Stops T.space t) :
    matchEntry T (name ++ (before ++ '=' :: (behind ++ t))) =
      (scanCallable T t).map fun callable => (name, callable) := by
  have hstop : Stops (isNameChar T) (before ++ '=' :: (behind ++ t)) := by
    cases before with
    | nil => simpa using not_isNameChar_equals T
    | cons c before =>
        rw [List.cons_append, stops_cons]
        by_contra h
        have hs := not_space_of_isNameChar T (Bool.not_eq_false _ ▸ h)
        rw [hbefore c (by simp)] at hs
        cases hs
  rw [matchEntry_eq_scanEntry, scanEntry, takeWhile_append_of_stops hname hstop, if_neg hne,
    dropWhile_append_of_stops hname hstop,
    dropWhile_append_of_stops hbefore (by simpa using not_space_equals T)]
  simp only
  rw [dropWhile_append_of_stops hbehind ht]

/-- The scan of an entry line finds its name and its callable. -/
theorem EntryLine.matchEntry_text (l : EntryLine T) :
    matchEntry T l.text = some (l.name, l.callable) := by
  obtain ⟨a, u, hau, ha⟩ := l.modpath.head_word
  have hcallable : l.callable ++ l.flagsText =
      a :: (u ++ ':' :: (l.attrpath.text ++ l.flagsText)) := by
    simp [EntryLine.callable, hau]
  have hrest : callableRest T (l.callable ++ l.flagsText) = l.callable := by
    obtain ⟨a', u', hau', ha'⟩ := l.attrpath.head_word
    rw [EntryLine.callable, List.append_assoc, DottedName.text,
      callableRest_dotted _ l.modpath.words, List.cons_append, hau', List.cons_append,
      callableRest_component T rfl ha', ← List.cons_append, ← hau', DottedName.text,
      callableRest_dotted _ l.attrpath.words, EntryLine.flagsText, callableRest_flags,
      List.append_nil]
  have hstop : Stops T.space (l.callable ++ l.flagsText) := by
    rw [hcallable, stops_cons]
    exact T.not_space_of_word a ha
  rw [EntryLine.text, matchEntry_assign _ _ _ _ l.name_ne_nil l.name_chars l.before_space
    l.behind_space hstop, scanCallable, if_pos (by simp [hcallable, ha]), hrest]
  rfl

theorem EntryLine.splitOn_callable (l : EntryLine T) :
    l.callable.splitOn ':' = [l.modpath.text, l.attrpath.text] := by
  rw [EntryLine.callable, List.splitOn_append_cons_self_of_not_mem l.modpath.colon_notMem,
    List.splitOn_eq_singleton l.attrpath.colon_notMem]

theorem EntryLine.readEntry_text (l : EntryLine T) :
    readEntry T l.text = .ok (some l.entryPoint) :=
  (readEntry_eq_some_iff T l.text l.entryPoint).mpr
    ⟨l.callable, l.matchEntry_text, l.splitOn_callable⟩

theorem EntryLine.isHeader_text (l : EntryLine T) : Launcher.isHeader l.text = false := by
  obtain ⟨a, t, hat⟩ := List.exists_cons_of_ne_nil l.name_ne_nil
  have ha : isNameChar T a = true := l.name_chars a (by simp [hat])
  have hne : a ≠ '[' := by
    rintro rfl
    have hw : T.word '[' = false := T.word_of_ascii (by decide) false (by decide)
    simp [isNameChar, hw] at ha
  simp [Launcher.isHeader, EntryLine.text, hat, hne]

theorem LineKind.isHeader_text (k : LineKind T) : Launcher.isHeader k.text = k.isHeader := by
  cases k with
  | blank => rfl
  | comment mark body h =>
      rcases h with rfl | rfl
      · rfl
      · rfl
  | header s => rfl
  | entry l => exact l.isHeader_text

/-- A comment is not an entry, in whatever section it stands. -/
theorem readEntry_comment (mark : Char) (body : Text) (h : mark = '#' ∨ mark = ';') :
    readEntry T (mark :: body) = .ok none := by
  have hmark : isNameChar T mark = false := by
    rcases h with rfl | rfl
    · simp [isNameChar, T.word_of_ascii (c := '#') (by decide) false (by decide)]
    · simp [isNameChar, T.word_of_ascii (c := ';') (by decide) false (by decide)]
  rw [readEntry, matchEntry_eq_scanEntry, scanEntry, List.takeWhile_cons, hmark]
  simp

end read

/-! ## The scanner on a well-formed file -/

section scan

variable {T : CharTable}

/-- The flag of the loop behind the header of a section. -/
def flagOf (T : CharTable) (cur : Option Text) : Bool :=
  cur.any fun s => isScriptHeader (LineKind.header s : LineKind T).text

/-- The entries that the flag selects. -/
def collected : Bool → List (LineKind T) → List EntryPoint
  | _, [] => []
  | _, .header s :: ks => collected (flagOf T (some s)) ks
  | b, .entry l :: ks => if b then l.entryPoint :: collected b ks else collected b ks
  | b, _ :: ks => collected b ks

theorem scanLines_text (b : Bool) (ks : List (LineKind T)) :
    scanLines T b (ks.map LineKind.text) = .ok (collected b ks) := by
  induction ks generalizing b with
  | nil => rfl
  | cons k ks ih =>
      rw [List.map_cons]
      cases k with
      | blank => exact (scanLines_blank T _).trans (ih b)
      | header s => exact (scanLines_header T _ rfl).trans (ih _)
      | comment mark body h =>
          have hh := LineKind.isHeader_text (LineKind.comment mark body h : LineKind T)
          cases b with
          | false => exact (scanLines_outside T _ hh).trans (ih false)
          | true =>
              rw [scanLines_entry T _ hh, LineKind.text, readEntry_comment mark body h, ih]
              rfl
      | entry l =>
          have hh := l.isHeader_text
          cases b with
          | false => exact (scanLines_outside T _ hh).trans (ih false)
          | true =>
              change scanLines T true (l.text :: _) = _
              rw [scanLines_entry T _ hh, l.readEntry_text, ih]
              rfl

/-- The name of a script section inside brackets contains itself. -/
theorem flagOf_of_isScriptSection {cur : Option Text}
    (h : cur.any isScriptSection = true) : flagOf T cur = true := by
  obtain ⟨s, rfl, hs⟩ := (Option.any_eq_true _ _).mp h
  have hinfix : s <:+: '[' :: (s ++ [']']) := ⟨['['], [']'], rfl⟩
  simp only [isScriptSection, Bool.or_eq_true, beq_iff_eq] at hs
  simp only [flagOf, Option.any_some, isScriptHeader, LineKind.text, Text.contains,
    Bool.or_eq_true]
  rcases hs with rfl | rfl
  · exact Or.inl (decide_eq_true hinfix)
  · exact Or.inr (decide_eq_true hinfix)

theorem length_expected_le (cur : Option Text) (ks : List (LineKind T)) :
    (expected cur ks).length ≤ (collected (flagOf T cur) ks).length := by
  induction ks generalizing cur with
  | nil => exact le_rfl
  | cons k ks ih =>
      cases k with
      | header s => exact ih (some s)
      | blank => exact ih cur
      | comment => exact ih cur
      | entry l =>
          rw [expected, collected]
          by_cases hc : cur.any isScriptSection = true
          · rw [if_pos hc, if_pos (flagOf_of_isScriptSection hc)]
            exact Nat.succ_le_succ (ih cur)
          · rw [if_neg hc]
            split
            · exact (ih cur).trans (Nat.le_succ _)
            · exact ih cur

/-- The flag selects the expected entries exactly when no entry stands under a
header that only looks like a script section. The induction carries the
section that is open at the start of the remaining lines. -/
theorem collected_eq_expected_iff (cur : Option Text) (ks : List (LineKind T)) :
    collected (flagOf T cur) ks = expected cur ks ↔
      (∀ l, Leads LineKind.isHeader ks (.entry l) → flagOf T cur = true →
        cur.any isScriptSection = true) ∧
      ∀ s l, Governs LineKind.isHeader ks (.header s) (.entry l) →
        flagOf T (some s) = true → isScriptSection s = true := by
  induction ks generalizing cur with
  | nil => simp [collected, expected, Leads, Governs]
  | cons k ks ih =>
      cases k with
      | header s =>
          rw [collected, expected, ih (some s)]
          simp only [not_leads_cons_of_header (p := LineKind.isHeader)
            (x := (LineKind.header s : LineKind T)) rfl, false_imp_iff, implies_true, true_and,
            governs_cons_of_header (p := LineKind.isHeader)
            (x := (LineKind.header s : LineKind T)) rfl, LineKind.header.injEq]
          constructor
          · rintro ⟨hlead, hgov⟩ s' l (⟨rfl, hl⟩ | hl)
            · exact hlead l hl
            · exact hgov s' l hl
          · intro h
            exact ⟨fun l hl => h s l (Or.inl ⟨rfl, hl⟩), fun s' l hl => h s' l (Or.inr hl)⟩
      | blank =>
          rw [collected, expected, ih cur]
          · simp [leads_cons_of_not_header (p := LineKind.isHeader)
              (x := (LineKind.blank : LineKind T)) rfl, governs_cons_of_not_header
              (p := LineKind.isHeader) (x := (LineKind.blank : LineKind T)) rfl]
          all_goals simp
      | comment mark body h =>
          rw [collected, expected, ih cur]
          · simp [leads_cons_of_not_header (p := LineKind.isHeader)
              (x := (LineKind.comment mark body h : LineKind T)) rfl, governs_cons_of_not_header
              (p := LineKind.isHeader) (x := (LineKind.comment mark body h : LineKind T)) rfl]
          all_goals simp
      | entry l =>
          have hx : LineKind.isHeader (LineKind.entry l) = false := rfl
          simp only [collected, expected, leads_cons_of_not_header hx,
            governs_cons_of_not_header hx, LineKind.entry.injEq]
          by_cases hflag : flagOf T cur = true
          · rw [if_pos hflag]
            by_cases hc : cur.any isScriptSection = true
            · rw [if_pos hc, List.cons.injEq, ih cur]
              simp [hc]
            · rw [if_neg hc]
              constructor
              · intro heq
                have hlen := length_expected_le (T := T) cur ks
                rw [← heq, List.length_cons] at hlen
                omega
              · rintro ⟨hlead, -⟩
                exact absurd (hlead l (Or.inl rfl) hflag) hc
          · have hc : ¬ cur.any isScriptSection = true :=
              fun h => hflag (flagOf_of_isScriptSection h)
            rw [if_neg hflag, if_neg hc, ih cur]
            simp [hflag]

end scan

/-- On a well-formed file, get_entry_points returns the entries of the script
sections in file order, and no others, exactly when every entry whose header
contains the name of a script section stands under that very section. -/
theorem getEntryPoints_eq_expected_iff (T : CharTable) (text : Text) (ks : List (LineKind T))
    (h : strippedLines T text = ks.map LineKind.text) :
    getEntryPoints T text = .ok (expected none ks) ↔
      ∀ s l, Governs LineKind.isHeader ks (.header s) (.entry l) →
        isScriptHeader ('[' :: (s ++ [']'])) = true → isScriptSection s = true := by
  have hnone : flagOf T none = false := rfl
  rw [getEntryPoints, h, scanLines_text, Except.ok.injEq, ← hnone,
    collected_eq_expected_iff none ks]
  simp [flagOf, LineKind.text]

/-- The entry `foo = bar:baz`. -/
def fooEntry : EntryLine .ascii where
  name := "foo".toList
  before := [' ']
  behind := [' ']
  modpath := ⟨["bar".toList], by decide,
    List.forall_mem_singleton.mpr ⟨by decide, forall_mem_of_all (by decide)⟩⟩
  attrpath := ⟨["baz".toList], by decide,
    List.forall_mem_singleton.mpr ⟨by decide, forall_mem_of_all (by decide)⟩⟩
  flags := none
  name_ne_nil := by decide
  name_chars := forall_mem_of_all (by decide)
  before_space := forall_mem_of_all (by decide)
  behind_space := forall_mem_of_all (by decide)

theorem getEntryPoints_console_scripts :
    getEntryPoints .ascii "[console_scripts]\nfoo = bar:baz\n".toList =
      .ok (expected none [.header "console_scripts".toList, .entry fooEntry]) ↔
    ∀ s l, Governs LineKind.isHeader [.header "console_scripts".toList, .entry fooEntry]
        (.header s) (.entry l) →
      isScriptHeader ('[' :: (s ++ [']'])) = true → isScriptSection s = true :=
  getEntryPoints_eq_expected_iff .ascii _ _ (by decide)

/-- A plugin section whose name contains the name of a script section is read
as one. -/
theorem getEntryPoints_my_console_scripts :
    strippedLines .ascii "[my_console_scripts]\nfoo = bar:baz\n".toList =
      [LineKind.header "my_console_scripts".toList, .entry fooEntry].map LineKind.text ∧
    expected none [LineKind.header "my_console_scripts".toList, .entry fooEntry] = [] ∧
    getEntryPoints .ascii "[my_console_scripts]\nfoo = bar:baz\n".toList =
      .ok [⟨"foo".toList, "bar".toList, "baz".toList⟩] := by
  have h : strippedLines .ascii "[my_console_scripts]\nfoo = bar:baz\n".toList =
      [LineKind.header "my_console_scripts".toList, .entry fooEntry].map LineKind.text := by
    decide
  refine ⟨h, rfl, ?_⟩
  rw [getEntryPoints, h, scanLines_text]
  rfl

end Launcher
