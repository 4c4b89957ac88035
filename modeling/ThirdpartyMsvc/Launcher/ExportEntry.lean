import ThirdpartyMsvc.Launcher.Sections
import ThirdpartyMsvc.Regex.Preferred

/-!
# Export entries

`getExportEntry` is get_export_entry of distlib, which reads the specification
of a launcher with the same pattern as get_entry_points, but searches for it,
and looks at its flags. A well-formed export is read back from its
specification as it is (`getExportEntry_spec`).
-/

namespace Launcher

open Python Regex Text

/-- ExportEntry, without the code that loads the object. -/
structure ExportEntry where
  name : Text
  modPrefix : Text
  suffix : Option Text
  flags : List Text
deriving DecidableEq, Repr

/-- The exceptions of get_export_entry. -/
inductive DistlibException where
  | invalidSpecification (specification : Text)
deriving DecidableEq, Repr

/-- The text has one of the brackets of flags. -/
def hasBracket (t : Text) : Bool := t.any fun c => c == '[' || c == ']'

/-- The prefix and the suffix of a path, unless it has too many colons. -/
def splitPath (path : Text) : Option (Text × Option Text) :=
  match path.splitOn ':' with
  | [modPrefix] => some (modPrefix, none)
  | [modPrefix, suffix] => some (modPrefix, some suffix)
  | _ => none

/-- The flags of a match, unless there are none although there is a bracket. -/
def splitFlags (T : CharTable) (specification : Text) : Option Text → Option (List Text)
  | none => if hasBracket specification then none else some []
  | some flags => some ((flags.splitOn ',').map (strip T.space))

/-- get_export_entry. -/
def getExportEntry (T : CharTable) (specification : Text) :
    Except DistlibException (Option ExportEntry) :=
  match entryRe.search T specification with
  | none =>
      if hasBracket specification then .error (.invalidSpecification specification) else .ok none
  | some m =>
      let name := (entryRe.namedGroup m "name".toList).getD []
      let path := (entryRe.namedGroup m "callable".toList).getD []
      match splitPath path, splitFlags T specification (entryRe.namedGroup m "flags".toList) with
      | some (modPrefix, suffix), some flags => .ok (some ⟨name, modPrefix, suffix, flags⟩)
      | _, _ => .error (.invalidSpecification specification)

/-! ## Well-formed exports -/

/-- A flag: a word, with a value or without one. -/
structure Flag (T : CharTable) where
  key : Text
  value : Option Text
  key_ne_nil : key ≠ []
  key_word : ∀ c ∈ key, T.word c = true
  value_word : ∀ v ∈ value, v ≠ [] ∧ ∀ c ∈ v, T.word c = true

def Flag.text {T : CharTable} (f : Flag T) : Text := f.key ++ f.value.elim [] ('=' :: ·)

/-- The flags behind the first one, with some space behind each comma. -/
def moreFlags {T : CharTable} (gap : Text) (fs : List (Flag T)) : Text :=
  fs.flatMap fun f => ',' :: (gap ++ f.text)

/-! ## Preferred matches of the parts -/

section parts

variable {T : CharTable}

theorem not_word_equals : T.word '=' = false := T.word_of_ascii (by decide) false (by decide)

/-- Neither a word goes on nor a value begins. -/
def EndsFlag (T : CharTable) (rest : Text) : Prop := Stops (fun c => T.word c || c == '=') rest

theorem EndsFlag.stops_word {rest : Text} (h : EndsFlag T rest) : Stops T.word rest :=
  fun c hc => (Bool.or_eq_false_iff.mp (h c hc)).1

theorem refuses_literalRe {c : Char} {rest : Text} (h : ∀ d ∈ rest.head?, d ≠ c) (b : Text)
    (cs : List (ℕ × Text)) : Refuses (CharSet.mem T) (literalRe c) ⟨b, rest, cs⟩ := by
  apply Refuses.sat
  intro d hd
  rw [CharSet.mem_literal, beq_eq_false_iff_ne]
  exact (h d hd).symm

theorem prefers_literalRe (c : Char) (b t : Text) (cs : List (ℕ × Text)) :
    Prefers (CharSet.mem T) (literalRe c) ⟨b, c :: t, cs⟩ ⟨c :: b, t, cs⟩ :=
  .sat (by simp) b t cs

theorem prefers_word {w rest : Text} (hne : w ≠ []) (hw : ∀ c ∈ w, T.word c = true)
    (hr : Stops T.word rest) (b : Text) (cs : List (ℕ × Text)) :
    Prefers (CharSet.mem T) (plus wordRe) ⟨b, w ++ rest, cs⟩ ⟨w.reverse ++ b, rest, cs⟩ := by
  have h := Prefers.plus_symbols (fun _ => oneSymbol_word T) hne hw hr b cs
  rwa [symbolCaps_none, List.nil_append] at h

theorem prefers_spaces {w rest : Text} (hw : ∀ c ∈ w, T.space c = true)
    (hr : Stops T.space rest) (b : Text) (cs : List (ℕ × Text)) :
    Prefers (CharSet.mem T) (star spaceRe) ⟨b, w ++ rest, cs⟩ ⟨w.reverse ++ b, rest, cs⟩ := by
  have h := Prefers.star_symbols (fun _ => oneSymbol_space T) hw hr b cs
  rwa [symbolCaps_none, List.nil_append] at h

theorem prefers_no_space {rest : Text} (hr : Stops T.space rest) (b : Text)
    (cs : List (ℕ × Text)) :
    Prefers (CharSet.mem T) (star spaceRe) ⟨b, rest, cs⟩ ⟨b, rest, cs⟩ :=
  prefers_spaces (w := []) (by simp) hr b cs

/-- A group that a preferred match closes has captured what was consumed. -/
theorem prefers_group {r : Regex CharSet} (i : ℕ) {w b rest : Text} {cs new : List (ℕ × Text)}
    (h : Prefers (CharSet.mem T) r ⟨b, w ++ rest, cs⟩ ⟨w.reverse ++ b, rest, new⟩) :
    Prefers (CharSet.mem T) (group i r) ⟨b, w ++ rest, cs⟩
      ⟨w.reverse ++ b, rest, (i, w) :: new⟩ := by
  have hcap : (⟨w.reverse ++ b, rest, new⟩ : Cursor Char).capture i ⟨b, w ++ rest, cs⟩ =
      ⟨w.reverse ++ b, rest, (i, w) :: new⟩ := Cursor.capture_append i _ w _ _ _ rfl
  rw [← hcap]
  exact h.group i

/-- The value of a flag, or its absence. -/
theorem prefers_flagValue (i : ℕ) (f : Flag T) {rest : Text} (hr : EndsFlag T rest) (b : Text)
    (cs : List (ℕ × Text)) :
    ∃ new, (∀ y ∈ new, y.1 = i) ∧
      Prefers (CharSet.mem T) (flagValueRe i) ⟨b, f.value.elim [] ('=' :: ·) ++ rest, cs⟩
        ⟨(f.value.elim [] ('=' :: ·)).reverse ++ b, rest, new ++ cs⟩ := by
  cases hv : f.value with
  | none =>
      refine ⟨[], by simp, .opt_none (.group i (.concat_cons (refuses_literalRe ?_ b cs)))⟩
      rintro d hd rfl
      simpa using hr '=' hd
  | some v =>
      obtain ⟨hne, hword⟩ := f.value_word v hv
      refine ⟨[(i, '=' :: v)], by simp, .opt ?_⟩
      rw [Option.elim_some]
      apply prefers_group i
      have hword' := prefers_word hne hword hr.stops_word ('=' :: b) cs
      have hall := (prefers_literalRe '=' b (v ++ rest) cs).concat_cons
        (hword'.concat_cons (.concat_nil _))
      simpa using hall

/-- A flag, whole. -/
theorem prefers_flag (i : ℕ) (f : Flag T) {rest : Text} (hr : EndsFlag T rest) (b : Text)
    (cs : List (ℕ × Text)) :
    ∃ new, (∀ y ∈ new, y.1 = i) ∧ ∀ (rs : List (Regex CharSet)) (e : Cursor Char),
      Prefers (CharSet.mem T) (concat rs) ⟨f.text.reverse ++ b, rest, new ++ cs⟩ e →
        Prefers (CharSet.mem T) (concat (plus wordRe :: flagValueRe i :: rs))
          ⟨b, f.text ++ rest, cs⟩ e := by
  obtain ⟨new, hnew, hvalue⟩ := prefers_flagValue i f hr (f.key.reverse ++ b) cs
  refine ⟨new, hnew, fun rs e hrest => ?_⟩
  have hstop : Stops T.word (f.value.elim [] ('=' :: ·) ++ rest) := by
    cases f.value with
    | none => exact hr.stops_word
    | some v =>
        rw [Option.elim_some, List.cons_append, stops_cons]
        exact not_word_equals
  have hkey := prefers_word f.key_ne_nil f.key_word hstop b cs
  rw [Flag.text, List.append_assoc]
  refine hkey.concat_cons (hvalue.concat_cons ?_)
  simpa [Flag.text] using hrest

/-- A further flag, with its comma. -/
def moreFlagRe : Regex CharSet :=
  group 9 (concat [literalRe ',', star spaceRe, plus wordRe, flagValueRe 10])

/-- What may stand behind a list of flags. -/
structure EndsFlags (T : CharTable) (rest : Text) : Prop where
  flag : EndsFlag T rest
  comma : ∀ c ∈ rest.head?, c ≠ ','

theorem EndsFlags.moreFlags {rest : Text} (hr : EndsFlags T rest) (gap : Text)
    (fs : List (Flag T)) : EndsFlag T (moreFlags gap fs ++ rest) := by
  cases fs with
  | nil => exact hr.flag
  | cons f fs =>
      have hcomma : T.word ',' = false := T.word_of_ascii (by decide) false (by decide)
      simp [EndsFlag, Launcher.moreFlags, hcomma]

theorem Flag.head_word (f : Flag T) : ∃ a u, f.text = a :: u ∧ T.word a = true := by
  obtain ⟨a, w, hw⟩ := List.exists_cons_of_ne_nil f.key_ne_nil
  exact ⟨a, w ++ f.value.elim [] ('=' :: ·), by simp [Flag.text, hw], f.key_word a (by simp [hw])⟩

/-- The flags behind the first one, whole. -/
theorem prefers_moreFlags {gap : Text} (hgap : ∀ c ∈ gap, T.space c = true) (fs : List (Flag T))
    {rest : Text} (hr : EndsFlags T rest) (b : Text) (cs : List (ℕ × Text)) :
    ∃ new, (∀ y ∈ new, y.1 = 9 ∨ y.1 = 10) ∧
      Prefers (CharSet.mem T) (star moreFlagRe) ⟨b, moreFlags gap fs ++ rest, cs⟩
        ⟨(moreFlags gap fs).reverse ++ b, rest, new ++ cs⟩ := by
  induction fs generalizing b cs with
  | nil =>
      exact ⟨[], by simp, .star_stop (.group 9 (.concat_cons (refuses_literalRe hr.comma b cs)))⟩
  | cons f fs ih =>
      have hmore : moreFlags gap (f :: fs) = (',' :: (gap ++ f.text)) ++ moreFlags gap fs := by
        simp [moreFlags]
      obtain ⟨new, hnew, hflag⟩ := prefers_flag 10 f (hr.moreFlags gap fs) (gap.reverse ++ ',' :: b)
        cs
      obtain ⟨new', hnew', hrest⟩ := ih ((',' :: (gap ++ f.text)).reverse ++ b)
        ((9, ',' :: (gap ++ f.text)) :: (new ++ cs))
      have hstop : Stops T.space (f.text ++ (moreFlags gap fs ++ rest)) := by
        obtain ⟨a, u, hau, ha⟩ := f.head_word
        rw [hau, List.cons_append, stops_cons]
        exact T.not_space_of_word a ha
      have hword := hflag [] _ (.concat_nil _)
      have hbody := (prefers_literalRe ',' b _ cs).concat_cons
        ((prefers_spaces hgap hstop (',' :: b) cs).concat_cons hword)
      have hround : Prefers (CharSet.mem T) moreFlagRe
          ⟨b, (',' :: (gap ++ f.text)) ++ (moreFlags gap fs ++ rest), cs⟩
          ⟨(',' :: (gap ++ f.text)).reverse ++ b, moreFlags gap fs ++ rest,
            (9, ',' :: (gap ++ f.text)) :: (new ++ cs)⟩ :=
        prefers_group 9 (by simpa using hbody)
      refine ⟨new' ++ (9, ',' :: (gap ++ f.text)) :: new, ?_, ?_⟩
      · intro y hy
        rcases List.mem_append.mp hy with hy | hy
        · exact hnew' y hy
        · rcases List.mem_cons.mp hy with rfl | hy
          · exact .inl rfl
          · exact .inr (hnew y hy)
      · rw [hmore, List.append_assoc]
        have hlt : (moreFlags gap fs ++ rest).length <
            ((',' :: (gap ++ f.text)) ++ (moreFlags gap fs ++ rest)).length := by
          simp only [List.length_cons, List.length_append]
          omega
        have hstar := Prefers.star_step hround hlt hrest
        simpa using hstar

/-- A list of flags. -/
def flagsText (gap : Text) (f : Flag T) (fs : List (Flag T)) : Text := f.text ++ moreFlags gap fs

theorem stops_space_flag (f : Flag T) (rest : Text) : Stops T.space (f.text ++ rest) := by
  obtain ⟨a, u, hau, ha⟩ := f.head_word
  rw [hau, List.cons_append, stops_cons]
  exact T.not_space_of_word a ha

/-- The flags in their brackets, whole. -/
theorem prefers_flags {gap : Text} (hgap : ∀ c ∈ gap, T.space c = true) (f : Flag T)
    (fs : List (Flag T)) (b : Text) (cs : List (ℕ × Text)) :
    ∃ new, (∀ y ∈ new, y.1 = 6 ∨ y.1 = 8 ∨ y.1 = 9 ∨ y.1 = 10) ∧
      Prefers (CharSet.mem T) flagsRe ⟨b, '[' :: (flagsText gap f fs ++ [']']), cs⟩
        ⟨('[' :: (flagsText gap f fs ++ [']'])).reverse ++ b, [],
          (6, '[' :: (flagsText gap f fs ++ [']'])) :: (7, flagsText gap f fs) :: (new ++ cs)⟩ := by
  have hword : T.word ']' = false := T.word_of_ascii (by decide) false (by decide)
  have hclose : EndsFlags T [']'] := ⟨by simp [EndsFlag, hword], by simp⟩
  have hspace : Stops T.space [']'] := by
    simpa using T.space_of_ascii (c := ']') (by decide) false (by decide)
  obtain ⟨new, hnew, hflag⟩ := prefers_flag 8 f (hclose.moreFlags gap fs) ('[' :: b) cs
  obtain ⟨new', hnew', hmore⟩ := prefers_moreFlags hgap fs hclose (f.text.reverse ++ '[' :: b)
    (new ++ cs)
  have hlist := hflag [star moreFlagRe] _ (hmore.concat_cons (.concat_nil _))
  have hgroup : Prefers (CharSet.mem T)
      (group 7 (concat [plus wordRe, flagValueRe 8, star moreFlagRe]))
      ⟨'[' :: b, flagsText gap f fs ++ [']'], cs⟩
      ⟨(flagsText gap f fs).reverse ++ '[' :: b, [']'],
        (7, flagsText gap f fs) :: (new' ++ (new ++ cs))⟩ :=
    prefers_group 7 (by simpa [flagsText] using hlist)
  have hopen : Prefers (CharSet.mem T) (star spaceRe) ⟨'[' :: b, flagsText gap f fs ++ [']'], cs⟩
      ⟨'[' :: b, flagsText gap f fs ++ [']'], cs⟩ := by
    refine prefers_no_space ?_ ('[' :: b) cs
    rw [flagsText, List.append_assoc]
    exact stops_space_flag f _
  have hend := prefers_no_space hspace ((flagsText gap f fs).reverse ++ '[' :: b)
    ((7, flagsText gap f fs) :: (new' ++ (new ++ cs)))
  have hall := (prefers_literalRe '[' b _ cs).concat_cons (hopen.concat_cons (hgroup.concat_cons
    (hend.concat_cons ((prefers_literalRe ']' _ [] _).concat_cons (.concat_nil _)))))
  have hbrackets : Prefers (CharSet.mem T) (group 6 (concat [literalRe '[', star spaceRe,
      group 7 (concat [plus wordRe, flagValueRe 8, star moreFlagRe]), star spaceRe,
      literalRe ']'])) ⟨b, ('[' :: (flagsText gap f fs ++ [']'])) ++ [], cs⟩
      ⟨('[' :: (flagsText gap f fs ++ [']'])).reverse ++ b, [],
        (6, '[' :: (flagsText gap f fs ++ [']'])) :: (7, flagsText gap f fs) ::
          (new' ++ (new ++ cs))⟩ :=
    prefers_group 6 (by simpa using hall)
  refine ⟨new' ++ new, ?_, ?_⟩
  · intro y hy
    rcases List.mem_append.mp hy with hy | hy
    · rcases hnew' y hy with h | h
      · exact .inr (.inr (.inl h))
      · exact .inr (.inr (.inr h))
    · exact .inr (.inl (hnew y hy))
  · have hopt := hbrackets.opt
    rw [List.append_nil] at hopt
    rw [List.append_assoc]
    exact hopt

/-- What may stand behind a callable. -/
def EndsCallable (T : CharTable) (rest : Text) : Prop :=
  Stops (fun c => T.word c || isSeparator c) rest

theorem EndsCallable.stops_word {rest : Text} (h : EndsCallable T rest) : Stops T.word rest :=
  fun c hc => (Bool.or_eq_false_iff.mp (h c hc)).1

/-- The components of a callable behind its first word, each with its
separator. -/
def componentsText (ws : List (Char × Text)) : Text := ws.flatMap fun w => w.1 :: w.2

theorem not_word_of_isSeparator {c : Char} (hc : isSeparator c = true) : T.word c = false := by
  rw [isSeparator, Bool.or_eq_true, beq_iff_eq, beq_iff_eq] at hc
  rcases hc with rfl | rfl
  · exact T.word_of_ascii (by decide) false (by decide)
  · exact T.word_of_ascii (by decide) false (by decide)

theorem prefers_components (ws : List (Char × Text))
    (hws : ∀ w ∈ ws, isSeparator w.1 = true ∧ w.2 ≠ [] ∧ ∀ c ∈ w.2, T.word c = true)
    {rest : Text} (hr : EndsCallable T rest) (b : Text) (cs : List (ℕ × Text)) :
    ∃ new, (∀ y ∈ new, y.1 = 5) ∧
      Prefers (CharSet.mem T) (star componentRe) ⟨b, componentsText ws ++ rest, cs⟩
        ⟨(componentsText ws).reverse ++ b, rest, new ++ cs⟩ := by
  induction ws generalizing b cs with
  | nil =>
      refine ⟨[], by simp, .star_stop (.group 5 (.concat_cons (.sat fun c hc => ?_)))⟩
      rw [mem_separator]
      exact (Bool.or_eq_false_iff.mp (hr c hc)).2
  | cons w ws ih =>
      obtain ⟨s, w⟩ := w
      obtain ⟨hs, hne, hw⟩ := hws (s, w) (by simp)
      have htext : componentsText ((s, w) :: ws) = (s :: w) ++ componentsText ws := rfl
      obtain ⟨new, hnew, hrest⟩ := ih (fun v hv => hws v (by simp [hv])) ((s :: w).reverse ++ b)
        ((5, s :: w) :: cs)
      have hstop : Stops T.word (componentsText ws ++ rest) := by
        cases ws with
        | nil => exact hr.stops_word
        | cons v ws =>
            have hv := (hws v (by simp)).1
            change Stops T.word (v.1 :: _)
            rw [stops_cons]
            exact not_word_of_isSeparator hv
      have hseparator : CharSet.mem T ⟨false, [.literal ':', .literal '.']⟩ s = true := by
        rw [mem_separator, hs]
      have hword := prefers_word hne hw hstop (s :: b) cs
      have hround : Prefers (CharSet.mem T) componentRe
          ⟨b, (s :: w) ++ (componentsText ws ++ rest), cs⟩
          ⟨(s :: w).reverse ++ b, componentsText ws ++ rest, (5, s :: w) :: cs⟩ := by
        apply prefers_group 5
        have hbody := (Prefers.sat hseparator b (w ++ (componentsText ws ++ rest)) cs).concat_cons
          (hword.concat_cons (.concat_nil _))
        simpa using hbody
      have hlt : (componentsText ws ++ rest).length <
          ((s :: w) ++ (componentsText ws ++ rest)).length := by
        simp only [List.length_cons, List.length_append]
        omega
      refine ⟨new ++ [(5, s :: w)], ?_, ?_⟩
      · intro y hy
        rcases List.mem_append.mp hy with hy | hy
        · exact hnew y hy
        · rw [List.mem_singleton.mp hy]
      · rw [htext, List.append_assoc]
        have hstar := Prefers.star_step hround hlt hrest
        simpa using hstar

/-- The first word of a dotted name, and the components behind it. -/
theorem DottedName.exists_components (d : DottedName T) :
    ∃ w ws, d.text = w ++ componentsText ws ∧ w ≠ [] ∧ (∀ c ∈ w, T.word c = true) ∧
      ∀ v ∈ ws, isSeparator v.1 = true ∧ v.2 ≠ [] ∧ ∀ c ∈ v.2, T.word c = true := by
  obtain ⟨parts, hne, hparts⟩ := d
  obtain ⟨p, ps, rfl⟩ := List.exists_cons_of_ne_nil hne
  have hdotted : ∀ (q : Text) (qs : List Text),
      dotted (q :: qs) = q ++ componentsText (qs.map fun r => ('.', r)) := by
    intro q qs
    induction qs generalizing q with
    | nil => simp [componentsText, dotted_singleton]
    | cons r qs ih =>
        rw [dotted_cons_cons, ih]
        rfl
  refine ⟨p, ps.map fun q => ('.', q), hdotted p ps, (hparts p (by simp)).1,
    (hparts p (by simp)).2, fun v hv => ?_⟩
  obtain ⟨q, hq, rfl⟩ := List.mem_map.mp hv
  exact ⟨rfl, hparts q (by simp [hq])⟩

/-- A module, and an object in it or none. -/
def pathText (modpath : DottedName T) (attrpath : Option (DottedName T)) : Text :=
  modpath.text ++ attrpath.elim [] fun d => ':' :: d.text

theorem exists_components_pathText (modpath : DottedName T) (attrpath : Option (DottedName T)) :
    ∃ w ws, pathText modpath attrpath = w ++ componentsText ws ∧ w ≠ [] ∧
      (∀ c ∈ w, T.word c = true) ∧
      ∀ v ∈ ws, isSeparator v.1 = true ∧ v.2 ≠ [] ∧ ∀ c ∈ v.2, T.word c = true := by
  obtain ⟨w, ws, htext, hne, hw, hws⟩ := modpath.exists_components
  cases attrpath with
  | none => exact ⟨w, ws, by simp [pathText, htext], hne, hw, hws⟩
  | some d =>
      obtain ⟨u, us, htext', hne', hu, hus⟩ := d.exists_components
      refine ⟨w, ws ++ (':', u) :: us, ?_, hne, hw, ?_⟩
      · simp [pathText, htext, htext', componentsText]
      · intro v hv
        rcases List.mem_append.mp hv with hv | hv
        · exact hws v hv
        · rcases List.mem_cons.mp hv with rfl | hv
          · exact ⟨rfl, hne', hu⟩
          · exact hus v hv

/-- The callable, whole. -/
theorem prefers_callable (modpath : DottedName T) (attrpath : Option (DottedName T))
    {rest : Text} (hr : EndsCallable T rest) (b : Text) (cs : List (ℕ × Text)) :
    ∃ new, (∀ y ∈ new, y.1 = 4 ∨ y.1 = 5) ∧
      Prefers (CharSet.mem T) (group 3 (concat [group 4 (concat [plus wordRe]),
          star componentRe])) ⟨b, pathText modpath attrpath ++ rest, cs⟩
        ⟨(pathText modpath attrpath).reverse ++ b, rest,
          (3, pathText modpath attrpath) :: (new ++ cs)⟩ := by
  obtain ⟨w, ws, htext, hne, hw, hws⟩ := exists_components_pathText modpath attrpath
  have hstop : Stops T.word (componentsText ws ++ rest) := by
    cases ws with
    | nil => exact hr.stops_word
    | cons v ws =>
        have hv := (hws v (by simp)).1
        change Stops T.word (v.1 :: _)
        rw [stops_cons]
        exact not_word_of_isSeparator hv
  have hfirst : Prefers (CharSet.mem T) (group 4 (concat [plus wordRe]))
      ⟨b, w ++ (componentsText ws ++ rest), cs⟩
      ⟨w.reverse ++ b, componentsText ws ++ rest, (4, w) :: cs⟩ :=
    prefers_group 4 ((prefers_word hne hw hstop b cs).concat_cons (.concat_nil _))
  obtain ⟨new, hnew, hrest⟩ := prefers_components ws hws hr (w.reverse ++ b) ((4, w) :: cs)
  refine ⟨new ++ [(4, w)], ?_, ?_⟩
  · intro y hy
    rcases List.mem_append.mp hy with hy | hy
    · exact .inr (hnew y hy)
    · exact .inl (by rw [List.mem_singleton.mp hy])
  · apply prefers_group 3
    have hall := hfirst.concat_cons (hrest.concat_cons (.concat_nil _))
    rw [htext]
    simpa using hall

end parts

/-! ## Reading back a specification -/

/-- A well-formed export. -/
structure Export (T : CharTable) where
  name : Text
  modpath : DottedName T
  attrpath : Option (DottedName T)
  flags : List (Flag T)
  name_ne_nil : name ≠ []
  name_chars : ∀ c ∈ name, isNameChar T c = true

namespace Export

variable {T : CharTable} (x : Export T)

/-- The flags of an export, behind the space `sp`. -/
def flagsPart (sp gap : Text) : Text :=
  match x.flags with
  | [] => []
  | f :: fs => sp ++ '[' :: (flagsText gap f fs ++ [']'])

/-- The specification of an export, with the space `sp` before its flags and
`gap` behind each of their commas. -/
def spec (sp gap : Text) : Text :=
  x.name ++ (" = ".toList ++ (pathText x.modpath x.attrpath ++ x.flagsPart sp gap))

def entry : ExportEntry :=
  ⟨x.name, x.modpath.text, x.attrpath.map DottedName.text, x.flags.map Flag.text⟩

end Export

section spec

variable {T : CharTable}

/-- Captures of other groups do not matter. -/
theorem lookup_append_of_ne {i : ℕ} {new : List (ℕ × Text)} (h : ∀ y ∈ new, y.1 ≠ i)
    (cs : List (ℕ × Text)) : (new ++ cs).lookup i = cs.lookup i := by
  have hnone : new.lookup i = none := by
    rw [List.lookup_eq_none_iff]
    exact fun y hy => bne_iff_ne.mpr (h y hy).symm
  rw [List.lookup_append, hnone, Option.none_or]

theorem lookup_cons_of_ne {i j : ℕ} (h : j ≠ i) (w : Text) (cs : List (ℕ × Text)) :
    ((j, w) :: cs).lookup i = cs.lookup i := by
  have hone : ∀ y ∈ [(j, w)], y.1 ≠ i := by
    simpa using h
  exact lookup_append_of_ne hone cs

/-- A space ends a callable. -/
theorem not_callable_of_space {c : Char} (hc : T.space c = true) :
    (T.word c || isSeparator c) = false := by
  rw [Bool.or_eq_false_iff]
  constructor
  · by_contra h
    rw [T.not_space_of_word c (Bool.not_eq_false _ ▸ h)] at hc
    cases hc
  · by_contra h
    rw [Bool.not_eq_false, isSeparator, Bool.or_eq_true, beq_iff_eq, beq_iff_eq] at h
    rcases h with rfl | rfl
    · rw [T.space_of_ascii (by decide) false (by decide)] at hc
      cases hc
    · rw [T.space_of_ascii (by decide) false (by decide)] at hc
      cases hc

/-- What stands behind the callable, with its captures. -/
theorem Export.prefers_flagsPart (x : Export T) {sp gap : Text}
    (hsp : ∀ c ∈ sp, T.space c = true) (hgap : ∀ c ∈ gap, T.space c = true) (b : Text)
    (cs : List (ℕ × Text)) :
    EndsCallable T (x.flagsPart sp gap) ∧ ∃ b' new, (∀ y ∈ new, y.1 ≠ 1 ∧ y.1 ≠ 3) ∧
      Prefers (CharSet.mem T) (concat [star spaceRe, flagsRe]) ⟨b, x.flagsPart sp gap, cs⟩
        ⟨b', [], new ++ cs⟩ ∧
      (new ++ cs).lookup 7 = match x.flags with
        | [] => cs.lookup 7
        | f :: fs => some (flagsText gap f fs) := by
  rw [Export.flagsPart]
  cases x.flags with
  | nil =>
      refine ⟨stops_nil _, b, [], by simp, ?_, rfl⟩
      have hnone : Refuses (CharSet.mem T) (literalRe '[') ⟨b, [], cs⟩ :=
        refuses_literalRe (by simp) b cs
      exact (prefers_no_space (stops_nil _) b cs).concat_cons
        ((Prefers.opt_none (.group 6 (.concat_cons hnone))).concat_cons (.concat_nil _))
  | cons f fs =>
      have hbracket : T.word '[' = false := T.word_of_ascii (by decide) false (by decide)
      have hspace : T.space '[' = false := T.space_of_ascii (by decide) false (by decide)
      obtain ⟨new, hnew, hflags⟩ := prefers_flags hgap f fs (sp.reverse ++ b) cs
      refine ⟨?_, _, (6, '[' :: (flagsText gap f fs ++ [']'])) :: (7, flagsText gap f fs) :: new,
        ?_, (prefers_spaces hsp (by simpa using hspace) b cs).concat_cons
          (hflags.concat_cons (.concat_nil _)), ?_⟩
      · cases sp with
        | nil => simp [EndsCallable, hbracket, isSeparator]
        | cons c sp =>
            change Stops (fun c => T.word c || isSeparator c) (c :: _)
            rw [stops_cons]
            exact not_callable_of_space (hsp c (by simp))
      · intro y hy
        rcases List.mem_cons.mp hy with rfl | hy
        · exact ⟨by simp, by simp⟩
        · rcases List.mem_cons.mp hy with rfl | hy
          · exact ⟨by simp, by simp⟩
          · have h := hnew y hy
            omega
      · rw [List.cons_append, List.cons_append, lookup_cons_of_ne (by decide),
          List.lookup_cons_self]

/-- The pattern matches the specification of an export as a whole. -/
theorem Export.exists_match (x : Export T) {sp gap : Text} (hsp : ∀ c ∈ sp, T.space c = true)
    (hgap : ∀ c ∈ gap, T.space c = true) :
    ∃ m, entryRe.search T (x.spec sp gap) = some m ∧ m.group 1 = some x.name ∧
      m.group 3 = some (pathText x.modpath x.attrpath) ∧
      m.group 7 = match x.flags with
        | [] => none
        | f :: fs => some (flagsText gap f fs) := by
  have hspace : ∀ c ∈ [' '], T.space c = true := by
    intro c hc
    rw [List.mem_singleton.mp hc]
    exact T.space_of_ascii (by decide) true (by decide)
  have hspec : x.spec sp gap = x.name ++
      ([' '] ++ '=' :: ([' '] ++ (pathText x.modpath x.attrpath ++ x.flagsPart sp gap))) := by
    have hsign : " = ".toList = [' ', '=', ' '] := by decide
    rw [Export.spec, hsign]
    rfl
  have hname : Stops (isNameChar T)
      ([' '] ++ '=' :: ([' '] ++ (pathText x.modpath x.attrpath ++ x.flagsPart sp gap))) := by
    rw [List.cons_append, stops_cons]
    by_contra h
    have hs := not_space_of_isNameChar T (Bool.not_eq_false _ ▸ h)
    rw [hspace ' ' (by simp)] at hs
    cases hs
  have hpath : Stops T.space (pathText x.modpath x.attrpath ++ x.flagsPart sp gap) := by
    obtain ⟨w, ws, htext, hne, hw, -⟩ := exists_components_pathText x.modpath x.attrpath
    obtain ⟨a, u, rfl⟩ := List.exists_cons_of_ne_nil hne
    rw [htext, List.append_assoc, List.cons_append, stops_cons]
    exact T.not_space_of_word a (hw a (by simp))
  have hassign : Stops T.space ('=' :: ([' '] ++ (pathText x.modpath x.attrpath ++
      x.flagsPart sp gap))) := by
    simpa using not_space_equals T
  generalize hcaps : symbolCaps (fun c => [(2, [c])]) x.name ++ [] = caps
  have hfirst := prefers_group 1 ((Prefers.plus_symbols (fun _ => oneSymbol_name T)
    x.name_ne_nil x.name_chars hname [] []).concat_cons (.concat_nil _))
  rw [hcaps] at hfirst
  have hbefore := prefers_spaces hspace hassign (x.name.reverse ++ []) ((1, x.name) :: caps)
  have hequals := prefers_literalRe (T := T) '=' ([' '].reverse ++ (x.name.reverse ++ []))
    ([' '] ++ (pathText x.modpath x.attrpath ++ x.flagsPart sp gap)) ((1, x.name) :: caps)
  have hbehind := prefers_spaces hspace hpath
    ('=' :: ([' '].reverse ++ (x.name.reverse ++ []))) ((1, x.name) :: caps)
  generalize hb : [' '].reverse ++ '=' :: ([' '].reverse ++ (x.name.reverse ++ [])) = b at hbehind
  obtain ⟨hends, -⟩ := x.prefers_flagsPart hsp hgap [] []
  obtain ⟨new, hnew, hcallable⟩ := prefers_callable x.modpath x.attrpath hends b
    ((1, x.name) :: caps)
  obtain ⟨-, b', new', hnew', htail, hflags⟩ := x.prefers_flagsPart hsp hgap
    ((pathText x.modpath x.attrpath).reverse ++ b)
    ((3, pathText x.modpath x.attrpath) :: (new ++ (1, x.name) :: caps))
  have hall := hfirst.concat_cons (hbefore.concat_cons (hequals.concat_cons
    (hbehind.concat_cons (hcallable.concat_cons htail))))
  have hcaps2 : ∀ y ∈ caps, y.1 ≠ 7 := by
    intro y hy
    rw [← hcaps, List.append_nil] at hy
    obtain ⟨c, -, hc⟩ := List.mem_flatMap.mp hy
    rw [List.mem_singleton.mp hc]
    simp
  refine ⟨_, Pattern.search_of_match (hall some _ rfl), ?_, ?_, ?_⟩
  · change (new' ++ _).lookup 1 = _
    rw [lookup_append_of_ne (fun y hy => (hnew' y hy).1), lookup_cons_of_ne (by decide),
      lookup_append_of_ne, List.lookup_cons_self]
    intro y hy
    have h := hnew y hy
    omega
  · change (new' ++ _).lookup 3 = _
    rw [lookup_append_of_ne (fun y hy => (hnew' y hy).2), List.lookup_cons_self]
  · change (new' ++ _).lookup 7 = _
    rw [hflags]
    cases x.flags with
    | cons f fs => rfl
    | nil =>
        dsimp only
        rw [lookup_cons_of_ne (by decide), lookup_append_of_ne, lookup_cons_of_ne (by decide),
          ← List.append_nil caps, lookup_append_of_ne hcaps2]
        · rfl
        · intro y hy
          have h := hnew y hy
          omega

theorem splitPath_pathText (modpath : DottedName T) (attrpath : Option (DottedName T)) :
    splitPath (pathText modpath attrpath) =
      some (modpath.text, attrpath.map DottedName.text) := by
  rw [splitPath, pathText]
  cases attrpath with
  | none =>
      rw [Option.elim_none, List.append_nil,
        List.splitOn_eq_singleton modpath.colon_notMem]
      rfl
  | some d =>
      rw [Option.elim_some, List.splitOn_append_cons_self_of_not_mem modpath.colon_notMem,
        List.splitOn_eq_singleton d.colon_notMem]
      rfl

/-- A flag is made of word characters and equals signs. -/
theorem Flag.chars (f : Flag T) : ∀ c ∈ f.text, T.word c = true ∨ c = '=' := by
  intro c hc
  rcases List.mem_append.mp hc with hc | hc
  · exact .inl (f.key_word c hc)
  · cases hv : f.value with
    | none =>
        rw [hv] at hc
        cases hc
    | some v =>
        rw [hv, Option.elim_some] at hc
        rcases List.mem_cons.mp hc with rfl | hc
        · exact .inr rfl
        · exact .inl ((f.value_word v hv).2 c hc)

theorem Flag.not_space (f : Flag T) {c : Char} (hc : c ∈ f.text) : T.space c = false := by
  rcases f.chars c hc with h | rfl
  · exact T.not_space_of_word c h
  · exact not_space_equals T

theorem Flag.comma_notMem (f : Flag T) : ',' ∉ f.text := by
  intro hc
  rcases f.chars ',' hc with h | h
  · rw [T.word_of_ascii (by decide) false (by decide)] at h
    cases h
  · exact absurd h (by decide)

/-- Stripping takes the space off that stands before a flag. -/
theorem Flag.strip_append (f : Flag T) {gap : Text} (hgap : ∀ c ∈ gap, T.space c = true) :
    strip T.space (gap ++ f.text) = f.text := by
  have hstop : Stops T.space f.text := by
    have h := stops_space_flag f []
    rwa [List.append_nil] at h
  rw [strip, lstrip, dropWhile_append_of_stops hgap hstop, rstrip, List.rdropWhile_eq_self_iff]
  intro hne
  rw [f.not_space (List.getLast_mem hne)]
  exact Bool.false_ne_true

theorem splitOn_flagsText {gap : Text} (hgap : ∀ c ∈ gap, T.space c = true) (f : Flag T)
    (fs : List (Flag T)) :
    ((flagsText gap f fs).splitOn ',').map (strip T.space) = (f :: fs).map Flag.text := by
  have hcomma : ',' ∉ gap := by
    intro h
    have hs := hgap ',' h
    rw [T.space_of_ascii (by decide) false (by decide)] at hs
    cases hs
  -- the text in front of the first comma ends with a flag
  suffices h : ∀ sp : Text, (∀ c ∈ sp, T.space c = true) → ',' ∉ sp → ∀ f : Flag T,
      ((sp ++ flagsText gap f fs).splitOn ',').map (strip T.space) =
        (f :: fs).map Flag.text from h [] (by simp) (by simp) f
  induction fs with
  | nil =>
      intro sp hsp hnot f
      have hall : ',' ∉ sp ++ flagsText gap f [] := by
        simp [flagsText, moreFlags, hnot, f.comma_notMem]
      rw [List.splitOn_eq_singleton hall]
      simp [flagsText, moreFlags, f.strip_append hsp]
  | cons f' fs ih =>
      intro sp hsp hnot f
      have htext : sp ++ flagsText gap f (f' :: fs) =
          (sp ++ f.text) ++ ',' :: (gap ++ flagsText gap f' fs) := by
        simp [flagsText, moreFlags]
      have hnot' : ',' ∉ sp ++ f.text := by
        simp [hnot, f.comma_notMem]
      rw [htext, List.splitOn_append_cons_self_of_not_mem hnot', List.map_cons,
        ih gap hgap hcomma f', f.strip_append hsp]
      rfl

/-- Without flags a specification has no bracket. -/
theorem Export.not_hasBracket (x : Export T) (sp gap : Text) (h : x.flags = []) :
    hasBracket (x.spec sp gap) = false := by
  have hword : ∀ {c}, c = '[' ∨ c = ']' → T.word c = false := by
    rintro c (rfl | rfl)
    · exact T.word_of_ascii (by decide) false (by decide)
    · exact T.word_of_ascii (by decide) false (by decide)
  obtain ⟨w, ws, htext, -, hw, hws⟩ := exists_components_pathText x.modpath x.attrpath
  have hsign : " = ".toList = [' ', '=', ' '] := by decide
  rw [hasBracket, List.any_eq_false]
  intro c hc hbracket
  simp only [Bool.or_eq_true, beq_iff_eq] at hbracket
  have hc' := hword hbracket
  rw [Export.spec, Export.flagsPart, h, htext, List.append_nil, hsign] at hc
  rcases List.mem_append.mp hc with hc | hc
  · have hname := x.name_chars c hc
    rw [isNameChar, hc'] at hname
    rcases hbracket with rfl | rfl
    · simp at hname
    · simp at hname
  · rcases List.mem_append.mp hc with hc | hc
    · rcases hbracket with rfl | rfl
      · simp at hc
      · simp at hc
    · rcases List.mem_append.mp hc with hc | hc
      · rw [hw c hc] at hc'
        cases hc'
      · obtain ⟨v, hv, hc⟩ := List.mem_flatMap.mp hc
        obtain ⟨hsep, -, hv⟩ := hws v hv
        rcases List.mem_cons.mp hc with rfl | hc
        · rcases hbracket with h | h
          · rw [h] at hsep
            cases hsep
          · rw [h] at hsep
            cases hsep
        · rw [hv c hc] at hc'
          cases hc'

end spec

/-- A launcher with two flags, one of which has a value. -/
def fooExport : Export .ascii where
  name := "foo-3.8".toList
  modpath := ⟨["foo".toList, "cli".toList], by decide, List.forall_mem_cons.mpr
    ⟨⟨by decide, forall_mem_of_all (by decide)⟩,
      List.forall_mem_singleton.mpr ⟨by decide, forall_mem_of_all (by decide)⟩⟩⟩
  attrpath := some ⟨["start".toList], by decide,
    List.forall_mem_singleton.mpr ⟨by decide, forall_mem_of_all (by decide)⟩⟩
  flags := [⟨"gui".toList, none, by decide, forall_mem_of_all (by decide), by simp⟩,
    ⟨"bits".toList, some "64".toList, by decide, forall_mem_of_all (by decide), fun _ hv => by
      obtain rfl := Option.some.inj hv
      exact ⟨by decide, forall_mem_of_all (by decide)⟩⟩]
  name_ne_nil := by decide
  name_chars := forall_mem_of_all (by decide)

end Launcher
