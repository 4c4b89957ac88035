import ThirdpartyMsvc.Launcher.Sections
import ThirdpartyMsvc.Launcher.Writers
import ThirdpartyMsvc.Regex.Language

/-!
# Rejected entry points

get_entry_points unpacks the callable of a line into a module and a function,
and raises when it does not have exactly one colon. The callable that decides
is the longest one of all the matches of `ENTRY_RE` (`LongestCallable`), which
is what the search of the engine reports (`longestCallable_iff`).

The entry points are all read before the first launcher is written, so a file
that is rejected leaves the scripts as they were.
-/

namespace Launcher

open Python Regex Sections Text

/-- Some match of ENTRY_RE at the beginning of the line has this callable. -/
def CallablePart (T : CharTable) (line callable : Text) : Prop :=
  ∃ d, Matches (CharSet.mem T) entryRe.re ⟨[], line, []⟩ d ∧
    entryRe.namedGroup d "callable".toList = some callable

/-- A callable of the line, and no other one is longer. -/
def LongestCallable (T : CharTable) (line callable : Text) : Prop :=
  CallablePart T line callable ∧
    ∀ c, CallablePart T line c → c.length ≤ callable.length

/-! ## The words of the parts -/

section words

variable {T : CharTable}

theorem mem_language_wordRe {w : Text} (h : w ∈ language (CharSet.mem T) wordRe) :
    ∃ a, T.word a = true ∧ w = [a] := by
  obtain ⟨a, ha, rfl⟩ := mem_language_sat.mp h
  exact ⟨a, by simpa using ha, rfl⟩

theorem mem_language_spaces : ∀ w ∈ language (CharSet.mem T) (star spaceRe),
    ∀ c ∈ w, T.space c = true := by
  apply forall_mem_of_language_star
  intro u hu c hc
  obtain ⟨a, ha, rfl⟩ := mem_language_sat.mp hu
  obtain rfl := List.mem_singleton.mp hc
  simpa using ha

theorem mem_language_literalRe {c : Char} {w : Text}
    (h : w ∈ language (CharSet.mem T) (literalRe c)) : w = [c] := by
  obtain ⟨a, ha, rfl⟩ := mem_language_sat.mp h
  obtain rfl : c = a := by simpa [CharSet.mem, CharSet.literal] using ha
  rfl

/-- The words of `\w+`. -/
theorem mem_language_plus_word {w : Text} (h : w ∈ language (CharSet.mem T) (plus wordRe)) :
    ∃ a u, w = a :: u ∧ ∀ c ∈ a :: u, T.word c = true := by
  obtain ⟨u, hu, v, hv, rfl⟩ := mem_language_seq.mp h
  obtain ⟨a, ha, rfl⟩ := mem_language_wordRe hu
  have hword : ∀ x ∈ language (CharSet.mem T) wordRe, ∀ c ∈ x, T.word c = true := by
    intro x hx c hc
    obtain ⟨b, hb, rfl⟩ := mem_language_wordRe hx
    obtain rfl := List.mem_singleton.mp hc
    exact hb
  refine ⟨a, v, rfl, ?_⟩
  intro c hc
  rcases List.mem_cons.mp hc with rfl | hc
  · exact ha
  · exact forall_mem_of_language_star hword v hv c hc

theorem mem_language_nameRe {w : Text} (h : w ∈ language (CharSet.mem T) nameRe) :
    ∃ a, isNameChar T a = true ∧ w = [a] := by
  rcases h with h | h
  · obtain ⟨u, hu, v, rfl, rfl⟩ := mem_language_seq.mp h
    obtain ⟨a, ha, rfl⟩ := mem_language_wordRe hu
    exact ⟨a, by simp [isNameChar, ha], rfl⟩
  · obtain ⟨u, hu, v, rfl, rfl⟩ := mem_language_seq.mp h
    obtain ⟨a, ha, rfl⟩ := mem_language_sat.mp hu
    rw [mem_dash] at ha
    exact ⟨a, by rw [isNameChar, ha, Bool.or_true], rfl⟩

theorem mem_language_name {w : Text}
    (h : w ∈ language (CharSet.mem T) (concat [plus nameRe])) :
    w ≠ [] ∧ ∀ c ∈ w, isNameChar T c = true := by
  obtain ⟨w, hw, v, rfl, rfl⟩ := mem_language_seq.mp h
  obtain ⟨u, hu, v, hv, rfl⟩ := mem_language_seq.mp hw
  obtain ⟨a, ha, rfl⟩ := mem_language_nameRe hu
  have hname : ∀ x ∈ language (CharSet.mem T) nameRe, ∀ c ∈ x, isNameChar T c = true := by
    intro x hx c hc
    obtain ⟨b, hb, rfl⟩ := mem_language_nameRe hx
    obtain rfl := List.mem_singleton.mp hc
    exact hb
  refine ⟨by simp, ?_⟩
  intro c hc
  rw [List.append_nil] at hc
  rcases List.mem_append.mp hc with hc | hc
  · obtain rfl := List.mem_singleton.mp hc
    exact ha
  · exact forall_mem_of_language_star hname v hv c hc

/-- The longest continuation runs through every component. -/
theorem callableRest_componentRe {u : Text} (h : u ∈ language (CharSet.mem T) componentRe)
    (rest : Text) : callableRest T (u ++ rest) = u ++ callableRest T rest := by
  obtain ⟨s, hs, x, hx, rfl⟩ := mem_language_seq.mp h
  obtain ⟨c, hc, rfl⟩ := mem_language_sat.mp hs
  rw [mem_separator] at hc
  obtain ⟨w, hw, v, rfl, rfl⟩ := mem_language_seq.mp hx
  obtain ⟨a, w, rfl, hword⟩ := mem_language_plus_word hw
  have hrest : callableRest T ((a :: w) ++ rest) = (a :: w) ++ callableRest T rest :=
    callableRest_append T hword rest
  rw [List.append_nil, List.singleton_append, List.cons_append, List.cons_append,
    callableRest_component T hc (hword a (by simp)), ← List.cons_append, hrest]
  rfl

/-- The longest continuation runs through every callable, which begins with a
word character. -/
theorem callableRest_callable {w : Text}
    (h : w ∈ language (CharSet.mem T) (concat [group 4 (concat [plus wordRe]),
      star componentRe])) :
    w.head?.any T.word = true ∧ ∀ rest, callableRest T (w ++ rest) = w ++ callableRest T rest := by
  obtain ⟨x, hx, y, hy, rfl⟩ := mem_language_seq.mp h
  obtain ⟨u, hu, _, rfl, rfl⟩ := mem_language_seq.mp hx
  obtain ⟨v, hv, _, rfl, rfl⟩ := mem_language_seq.mp hy
  obtain ⟨a, u, rfl, hword⟩ := mem_language_plus_word hu
  refine ⟨by simpa using hword a (by simp), ?_⟩
  have hcomponents : ∀ rest, callableRest T (v ++ rest) = v ++ callableRest T rest := by
    refine language_star_induction (P := fun v => ∀ rest, callableRest T (v ++ rest) =
      v ++ callableRest T rest) (fun _ => rfl) ?_ v hv
    intro x hx y hy rest
    rw [List.append_assoc, callableRest_componentRe hx, hy, List.append_assoc]
  intro rest
  rw [List.append_nil, List.append_nil, List.append_assoc, callableRest_append T hword,
    hcomponents, List.append_assoc]

end words

theorem matchEntry_of_callablePart {T : CharTable} {line callable : Text}
    (h : CallablePart T line callable) :
    ∃ name rest, matchEntry T line = some (name, callable ++ callableRest T rest) := by
  obtain ⟨e, he, hcallable⟩ := h
  obtain ⟨c₁, h₁, he⟩ := matches_concat_cons.mp he
  obtain ⟨c₂, h₂, he⟩ := matches_concat_cons.mp he
  obtain ⟨c₃, h₃, he⟩ := matches_concat_cons.mp he
  obtain ⟨c₄, h₄, he⟩ := matches_concat_cons.mp he
  obtain ⟨c₅, h₅, he⟩ := matches_concat_cons.mp he
  obtain ⟨name, hname, hw₁, -⟩ := h₁.group_consumed
  obtain ⟨before, hbefore, hw₂⟩ := h₂.exists_consumed
  obtain ⟨sign, hsign, hw₃⟩ := h₃.exists_consumed
  obtain ⟨behind, hbehind, hw₄⟩ := h₄.exists_consumed
  obtain ⟨w, hw, hw₅, hgroup⟩ := h₅.group_consumed
  obtain rfl := mem_language_literalRe hsign
  obtain rfl : w = callable := by
    have hkept : e.group 3 = some w := (he.group_eq 3 (by decide)).trans hgroup
    exact Option.some.inj (hkept.symm.trans hcallable)
  obtain ⟨hne, hchars⟩ := mem_language_name hname
  obtain ⟨hhead, hrest⟩ := callableRest_callable hw
  obtain ⟨a, u, rfl⟩ : ∃ a u, w = a :: u := by
    cases w with
    | nil => simp at hhead
    | cons a u => exact ⟨a, u, rfl⟩
  have ha : T.word a = true := by simpa using hhead
  have hline : line = name ++ (before ++ '=' :: (behind ++ ((a :: u) ++ c₅.after))) := by
    have hafter := hw₁.after
    rw [hw₂.after, hw₃.after, hw₄.after, hw₅.after] at hafter
    exact hafter
  refine ⟨name, c₅.after, ?_⟩
  rw [hline, matchEntry_assign name before behind _ hne hchars (mem_language_spaces _ hbefore)
    (mem_language_spaces _ hbehind), scanCallable, if_pos, hrest]
  · rfl
  · simpa using ha
  · exact (stops_cons _ _ _).mpr (T.not_space_of_word a ha)

theorem callablePart_of_matchEntry {T : CharTable} {line name callable : Text}
    (h : matchEntry T line = some (name, callable)) : CallablePart T line callable := by
  rw [matchEntry, Option.bind_eq_some_iff] at h
  obtain ⟨m, hm, h⟩ := h
  obtain ⟨_, -, h⟩ := Option.bind_eq_some_iff.mp h
  obtain ⟨c, hc, hpair⟩ := Option.map_eq_some_iff.mp h
  obtain ⟨-, rfl⟩ := Prod.mk.inj hpair
  obtain ⟨d, hd, hsome⟩ := run_sound hm
  obtain rfl := Option.some.inj hsome
  exact ⟨d, hd, hc⟩

/-- The callable that the search reports is the longest one of all matches. -/
theorem longestCallable_iff (T : CharTable) (line callable : Text) :
    LongestCallable T line callable ↔ ∃ name, matchEntry T line = some (name, callable) := by
  constructor
  · rintro ⟨hpart, hlongest⟩
    obtain ⟨name, rest, hm⟩ := matchEntry_of_callablePart hpart
    have hlength := hlongest _ (callablePart_of_matchEntry hm)
    have hnil : callableRest T rest = [] := by
      rw [List.length_append] at hlength
      exact List.eq_nil_of_length_eq_zero (by omega)
    exact ⟨name, by rw [hm, hnil, List.append_nil]⟩
  · rintro ⟨name, hm⟩
    refine ⟨callablePart_of_matchEntry hm, ?_⟩
    intro c hc
    obtain ⟨name', rest, hm'⟩ := matchEntry_of_callablePart hc
    obtain ⟨-, rfl⟩ := Prod.mk.inj (Option.some.inj (hm.symm.trans hm'))
    simp

/-! ## Rejected lines -/

theorem exists_error_iff {ε α : Type*} (x : Except ε α) :
    (∃ e, x = .error e) ↔ ¬ ∃ a, x = .ok a := by
  cases x with
  | error e => simp
  | ok a => simp

theorem readEntry_error_iff (T : CharTable) (line : Text) :
    (∃ e, readEntry T line = .error e) ↔
      ∃ name callable, matchEntry T line = some (name, callable) ∧ callable.count ':' ≠ 1 := by
  rw [readEntry]
  cases matchEntry T line with
  | none => simp
  | some p =>
      obtain ⟨name, callable⟩ := p
      have hlength := length_splitOn ':' callable
      dsimp only
      split
      case h_1 modname entryFunc heq =>
        rw [heq] at hlength
        have hcount : callable.count ':' = 1 := by simpa using hlength.symm
        simp [hcount]
      case h_2 hne =>
        have hcount : callable.count ':' ≠ 1 := by
          intro hcount
          rw [hcount] at hlength
          obtain ⟨modname, entryFunc, heq⟩ := List.length_eq_two.mp hlength
          exact hne modname entryFunc heq
        simpa [hcount] using ⟨ValueError.unpack⟩

/-- A file is rejected exactly when some line of a script section has a longest
callable without exactly one colon, and a rejected file leaves every file as it
was. -/
theorem getEntryPoints_rejects_iff (T : CharTable) (text : Text) :
    ((∃ e, getEntryPoints T text = .error e) ↔
      ∃ h l callable, Governs isHeader (strippedLines T text) h l ∧ isScriptHeader h = true ∧
        LongestCallable T l callable ∧ callable.count ':' ≠ 1) ∧
    ∀ e, getEntryPoints T text = .error e → ∀ targetDir rmExe w,
      writeConsoleScripts T text targetDir rmExe w = (.error .valueError, w) := by
  constructor
  · rw [exists_error_iff, exists_getEntryPoints_iff]
    push Not
    simp only [longestCallable_iff]
    constructor
    · rintro ⟨h, l, hgov, hh, hok⟩
      obtain ⟨e, he⟩ := (exists_error_iff _).mpr (not_exists.mpr hok)
      obtain ⟨name, callable, hm, hcount⟩ := (readEntry_error_iff T l).mp ⟨e, he⟩
      exact ⟨h, l, callable, hgov, hh, ⟨name, hm⟩, hcount⟩
    · rintro ⟨h, l, callable, hgov, hh, ⟨name, hm⟩, hcount⟩
      refine ⟨h, l, hgov, hh, ?_⟩
      have he := (readEntry_error_iff T l).mpr ⟨name, callable, hm, hcount⟩
      exact not_exists.mp ((exists_error_iff _).mp he)
  · intro e he targetDir rmExe w
    rw [writeConsoleScripts, he]
    rfl

/-- A valid entry, and one without a function. -/
def bareModuleText : Text := "[console_scripts]\nfoo = bar:baz\nqux = bar\n".toList

theorem getEntryPoints_rejects_bareModule :
    (∃ h l callable, Governs isHeader (strippedLines .ascii bareModuleText) h l ∧
      isScriptHeader h = true ∧ LongestCallable .ascii l callable ∧ callable.count ':' ≠ 1) ∧
    ∀ w, writeConsoleScripts .ascii bareModuleText "C:\\Scripts".toList true w =
      (.error .valueError, w) := by
  have herror : getEntryPoints .ascii bareModuleText = .error .unpack := by
    decide +kernel
  exact ⟨(getEntryPoints_rejects_iff .ascii bareModuleText).1.mp ⟨_, herror⟩,
    (getEntryPoints_rejects_iff .ascii bareModuleText).2 _ herror _ true⟩

end Launcher
