import ThirdpartyMsvc.Launcher.EntryRe
import ThirdpartyMsvc.Text.Sections

/-!
# Reading an entry-point file

`getEntryPoints` is get_entry_points of write-launcher-script.py: it walks over
the stripped lines of the file with one flag, which every line that begins with
a bracket sets or clears, and reads the other lines with the entry pattern
while the flag is set.

A line stands in the section of a header when that header is the last one
before it (`Governs`). `mem_getEntryPoints_iff` describes the result by that
relation alone, without the flag.
-/

namespace Launcher

open Python Sections

/-- A script of a package: its name, and the object that it runs. -/
structure EntryPoint where
  name : Text
  modname : Text
  entryFunc : Text
deriving DecidableEq, Repr

/-- The unpacking of entry_point.split into two values failed. -/
inductive ValueError where
  | unpack
deriving DecidableEq, Repr

/-- startswith with an opening bracket. -/
def isHeader (line : Text) : Bool := line.head? == some '['

/-- The test that sets the script_section flag at a header. -/
def isScriptHeader (line : Text) : Bool :=
  Text.contains "console_scripts".toList line || Text.contains "gui_scripts".toList line

/-- The body of the loop for a line of a script section. -/
def readEntry (T : CharTable) (line : Text) : Except ValueError (Option EntryPoint) :=
  match matchEntry T line with
  | none => .ok none
  | some (name, callable) =>
      match callable.splitOn ':' with
      | [modname, entryFunc] => .ok (some ⟨name, modname, entryFunc⟩)
      | _ => .error .unpack

/-- The loop of get_entry_points over stripped lines. -/
def scanLines (T : CharTable) : Bool → List Text → Except ValueError (List EntryPoint)
  | _, [] => .ok []
  | scriptSection, line :: lines =>
      if line = [] then scanLines T scriptSection lines
      else if isHeader line then scanLines T (isScriptHeader line) lines
      else if !scriptSection then scanLines T scriptSection lines
      else do
        let spec ← readEntry T line
        let specs ← scanLines T scriptSection lines
        return spec.toList ++ specs

/-- The stripped lines of a file. -/
def strippedLines (T : CharTable) (text : Text) : List Text :=
  (Text.readLines text).map (Text.strip T.space)

/-- get_entry_points, on the text of the file. -/
def getEntryPoints (T : CharTable) (text : Text) : Except ValueError (List EntryPoint) :=
  scanLines T false (strippedLines T text)

/-! ## One line at a time -/

section step

variable (T : CharTable) {b : Bool} {line : Text} (lines : List Text)

theorem scanLines_nil (b : Bool) : scanLines T b [] = .ok [] := rfl

theorem scanLines_blank : scanLines T b ([] :: lines) = scanLines T b lines := by
  rw [scanLines, if_pos rfl]

theorem scanLines_header (h : isHeader line = true) :
    scanLines T b (line :: lines) = scanLines T (isScriptHeader line) lines := by
  have hne : line ≠ [] := by
    rintro rfl
    cases h
  rw [scanLines, if_neg hne, if_pos h]

theorem scanLines_outside (h : isHeader line = false) :
    scanLines T false (line :: lines) = scanLines T false lines := by
  rw [scanLines]
  by_cases hne : line = []
  · rw [if_pos hne]
  · rw [if_neg hne, if_neg (by simp [h]), if_pos (by rfl)]

theorem matchEntry_nil : matchEntry T [] = none := by
  rw [matchEntry_eq_scanEntry]
  rfl

theorem scanLines_entry (h : isHeader line = false) :
    scanLines T true (line :: lines) = do
      let spec ← readEntry T line
      let specs ← scanLines T true lines
      return spec.toList ++ specs := by
  rw [scanLines]
  by_cases hne : line = []
  · subst hne
    rw [if_pos rfl, readEntry, matchEntry_nil]
    cases scanLines T true lines <;> rfl
  · rw [if_neg hne, if_neg (by simp [h]), if_neg (by simp)]

end step

theorem readEntry_eq_some_iff (T : CharTable) (line : Text) (e : EntryPoint) :
    readEntry T line = .ok (some e) ↔
      ∃ callable, matchEntry T line = some (e.name, callable) ∧
        callable.splitOn ':' = [e.modname, e.entryFunc] := by
  rw [readEntry]
  cases hm : matchEntry T line with
  | none => simp
  | some p =>
      obtain ⟨name, callable⟩ := p
      constructor
      · intro h
        refine ⟨callable, ?_⟩
        dsimp only at h
        split at h
        case h_1 modname entryFunc heq =>
          obtain rfl := Option.some.inj (Except.ok.inj h)
          exact ⟨rfl, heq⟩
        case h_2 => cases h
      · rintro ⟨c, hc, hsplit⟩
        obtain ⟨rfl, rfl⟩ := Prod.mk.inj (Option.some.inj hc)
        simp [hsplit]

/-- The name of an entry is a nonempty text of name characters. -/
theorem matchEntry_name {T : CharTable} {line name callable : Text}
    (h : matchEntry T line = some (name, callable)) :
    name ≠ [] ∧ ∀ c ∈ name, isNameChar T c = true := by
  rw [matchEntry_eq_scanEntry, scanEntry] at h
  split at h
  case isTrue => cases h
  case isFalse hne =>
    split at h
    case h_2 => cases h
    case h_1 =>
      obtain ⟨c, -, hpair⟩ := Option.map_eq_some_iff.mp h
      obtain ⟨rfl, -⟩ := Prod.mk.inj hpair
      exact ⟨hne, fun d hd => List.mem_takeWhile_imp hd⟩

/-! ## The lines of the script sections -/

/-- The entries that the loop collects: those of the lines that a script header
governs, and of the leading lines if the flag is set at the start. -/
theorem mem_scanLines_iff (T : CharTable) (b : Bool) (lines : List Text)
    {es : List EntryPoint} (hes : scanLines T b lines = .ok es) (e : EntryPoint) :
    e ∈ es ↔ ∃ l, readEntry T l = .ok (some e) ∧
      ((b = true ∧ Leads isHeader lines l) ∨
        ∃ h, Governs isHeader lines h l ∧ isScriptHeader h = true) := by
  induction lines generalizing b es with
  | nil =>
      obtain rfl := Except.ok.inj hes
      simp [Leads, Governs]
  | cons x lines ih =>
      cases hx : isHeader x with
      | true =>
          rw [scanLines_header T lines hx] at hes
          rw [ih _ hes]
          simp only [not_leads_cons_of_header hx, and_false, false_or,
            governs_cons_of_header hx]
          apply exists_congr
          intro l
          apply and_congr_right
          intro _
          constructor
          · rintro (⟨hb, hl⟩ | ⟨h, hh, hs⟩)
            · exact ⟨x, Or.inl ⟨rfl, hl⟩, hb⟩
            · exact ⟨h, Or.inr hh, hs⟩
          · rintro ⟨h, ⟨rfl, hl⟩ | hh, hs⟩
            · exact Or.inl ⟨hs, hl⟩
            · exact Or.inr ⟨h, hh, hs⟩
      | false =>
          simp only [leads_cons_of_not_header hx, governs_cons_of_not_header hx]
          cases b with
          | false =>
              rw [scanLines_outside T lines hx] at hes
              rw [ih _ hes]
              simp
          | true =>
              rw [scanLines_entry T lines hx] at hes
              obtain ⟨spec, specs, hspec, hspecs, rfl⟩ : ∃ spec specs,
                  readEntry T x = .ok spec ∧ scanLines T true lines = .ok specs ∧
                    es = spec.toList ++ specs := by
                cases hr : readEntry T x with
                | error => rw [hr] at hes; cases hes
                | ok spec =>
                    cases hs : scanLines T true lines with
                    | error => rw [hr, hs] at hes; cases hes
                    | ok specs =>
                        rw [hr, hs] at hes
                        exact ⟨spec, specs, rfl, rfl, (Except.ok.inj hes).symm⟩
              rw [List.mem_append, ih _ hspecs, Option.mem_toList]
              constructor
              · rintro (he | ⟨l, hl, ⟨-, hlead⟩ | hgov⟩)
                · exact ⟨x, by rw [hspec, Option.mem_def.mp he], Or.inl ⟨rfl, Or.inl rfl⟩⟩
                · exact ⟨l, hl, Or.inl ⟨rfl, Or.inr hlead⟩⟩
                · exact ⟨l, hl, Or.inr hgov⟩
              · rintro ⟨l, hl, ⟨-, rfl | hlead⟩ | hgov⟩
                · rw [hspec] at hl
                  exact Or.inl (Except.ok.inj hl)
                · exact Or.inr ⟨l, hl, Or.inl ⟨rfl, hlead⟩⟩
                · exact Or.inr ⟨l, hl, Or.inr hgov⟩

/-- The loop ends without an error exactly when every line that it reads can be
unpacked. -/
theorem exists_scanLines_iff (T : CharTable) (b : Bool) (lines : List Text) :
    (∃ es, scanLines T b lines = .ok es) ↔
      ∀ l, ((b = true ∧ Leads isHeader lines l) ∨
        ∃ h, Governs isHeader lines h l ∧ isScriptHeader h = true) →
        ∃ spec, readEntry T l = .ok spec := by
  induction lines generalizing b with
  | nil => simp [scanLines_nil, Leads, Governs]
  | cons x lines ih =>
      cases hx : isHeader x with
      | true =>
          rw [scanLines_header T lines hx, ih]
          simp only [not_leads_cons_of_header hx, and_false, false_or,
            governs_cons_of_header hx]
          apply forall_congr'
          intro l
          apply imp_congr_left
          constructor
          · rintro (⟨hb, hl⟩ | ⟨h, hh, hs⟩)
            · exact ⟨x, Or.inl ⟨rfl, hl⟩, hb⟩
            · exact ⟨h, Or.inr hh, hs⟩
          · rintro ⟨h, ⟨rfl, hl⟩ | hh, hs⟩
            · exact Or.inl ⟨hs, hl⟩
            · exact Or.inr ⟨h, hh, hs⟩
      | false =>
          simp only [leads_cons_of_not_header hx, governs_cons_of_not_header hx]
          cases b with
          | false =>
              rw [scanLines_outside T lines hx, ih]
              simp
          | true =>
              have hsplit : (∃ es, scanLines T true (x :: lines) = .ok es) ↔
                  (∃ spec, readEntry T x = .ok spec) ∧
                    ∃ specs, scanLines T true lines = .ok specs := by
                rw [scanLines_entry T lines hx]
                cases readEntry T x with
                | error => simp [bind, Except.bind]
                | ok spec =>
                    cases scanLines T true lines with
                    | error => simp [bind, Except.bind]
                    | ok specs => simp [bind, Except.bind, pure, Except.pure]
              rw [hsplit, ih]
              constructor
              · rintro ⟨hspec, hrest⟩ l (⟨-, rfl | hl⟩ | hl)
                · exact hspec
                · exact hrest l (Or.inl ⟨rfl, hl⟩)
                · exact hrest l (Or.inr hl)
              · intro h
                refine ⟨h x (Or.inl ⟨rfl, Or.inl rfl⟩), fun l hl => h l ?_⟩
                rcases hl with ⟨hb, hl⟩ | hl
                · exact Or.inl ⟨hb, Or.inr hl⟩
                · exact Or.inr hl

/-- The file is accepted exactly when every line that a script header governs
can be unpacked. -/
theorem exists_getEntryPoints_iff (T : CharTable) (text : Text) :
    (∃ es, getEntryPoints T text = .ok es) ↔
      ∀ h l, Governs isHeader (strippedLines T text) h l → isScriptHeader h = true →
        ∃ spec, readEntry T l = .ok spec := by
  rw [getEntryPoints, exists_scanLines_iff]
  constructor
  · intro h s l hs hscript
    exact h l (Or.inr ⟨s, hs, hscript⟩)
  · rintro h l (⟨hb, -⟩ | ⟨s, hs, hscript⟩)
    · cases hb
    · exact h s l hs hscript

/-- The entries that are returned are those of the lines that a script header
governs. -/
theorem mem_getEntryPoints_iff (T : CharTable) (text : Text) {es : List EntryPoint}
    (hes : getEntryPoints T text = .ok es) (e : EntryPoint) :
    e ∈ es ↔ ∃ h l, Governs isHeader (strippedLines T text) h l ∧ isScriptHeader h = true ∧
      readEntry T l = .ok (some e) := by
  rw [mem_scanLines_iff T false _ hes]
  constructor
  · rintro ⟨l, hl, ⟨hb, -⟩ | ⟨h, hh, hs⟩⟩
    · cases hb
    · exact ⟨h, l, hh, hs, hl⟩
  · rintro ⟨h, l, hh, hs, hl⟩
    exact ⟨l, hl, Or.inr ⟨h, hh, hs⟩⟩

theorem name_of_mem_getEntryPoints {T : CharTable} {text : Text} {es : List EntryPoint}
    (hes : getEntryPoints T text = .ok es) {e : EntryPoint} (he : e ∈ es) :
    e.name ≠ [] ∧ ∀ c ∈ e.name, isNameChar T c = true := by
  obtain ⟨h, l, -, -, hl⟩ := (mem_getEntryPoints_iff T text hes e).mp he
  obtain ⟨callable, hm, -⟩ := (readEntry_eq_some_iff T l e).mp hl
  exact matchEntry_name hm

end Launcher
