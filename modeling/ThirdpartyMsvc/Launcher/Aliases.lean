import ThirdpartyMsvc.Launcher.Sections

/-!
# Version aliases of a script

The docstring of get_entry_points promises to leave out `pip3` and `pip3.4`
when `pip` is listed. `Filtered` states that promise for any list of names, and
`filtered_getEntryPoints_iff` says for which files it is kept: the body of the
function never looks at the end of a name, so these are the files that list no
script together with an alias of it.
-/

namespace Launcher

open Python Regex Sections Text

/-- A version specifier: an optional hyphen, and digits separated by dots. -/
structure Version where
  hyphen : Bool
  parts : List Text
  ne_nil : parts ≠ []
  digits : ∀ p ∈ parts, p ≠ [] ∧ ∀ c ∈ p, c.isDigit = true

def Version.text (v : Version) : Text :=
  (if v.hyphen then ['-'] else []) ++ dotted v.parts

/-- The headers of the script sections. -/
def isScriptSectionHeader (line : Text) : Bool :=
  line == "[console_scripts]".toList || line == "[gui_scripts]".toList

/-- The name `n` is listed in a script section. -/
def Listed (T : CharTable) (text : Text) (n : Text) : Prop :=
  ∃ h l callable, Governs isHeader (strippedLines T text) h l ∧
    isScriptSectionHeader h = true ∧ matchEntry T l = some (n, callable)

/-- A listed script is kept and its aliases are left out, and no script whose
name does not end in a digit is lost. -/
def Filtered (listed : Text → Prop) (names : List Text) : Prop :=
  (∀ b (v : Version), listed b → listed (b ++ v.text) →
    b ∈ names ∧ b ++ v.text ∉ names) ∧
  ∀ n, listed n → (∀ c ∈ n.getLast?, c.isDigit = false) → n ∈ names

/-- A list that loses no listed name is filtered only when there was nothing to
filter. -/
theorem filtered_iff_of_forall_mem {listed : Text → Prop} {names : List Text}
    (h : ∀ n, listed n → n ∈ names) :
    Filtered listed names ↔ ¬ ∃ b, ∃ v : Version, listed b ∧ listed (b ++ v.text) := by
  constructor
  · rintro ⟨hpairs, -⟩ ⟨b, v, hb, hbv⟩
    exact (hpairs b v hb hbv).2 (h _ hbv)
  · intro hnone
    refine ⟨fun b v hb hbv => absurd ⟨b, v, hb, hbv⟩ hnone, fun n hn _ => h n hn⟩

theorem isScriptHeader_of_isScriptSectionHeader {line : Text}
    (h : isScriptSectionHeader line = true) : isScriptHeader line = true := by
  simp only [isScriptSectionHeader, Bool.or_eq_true, beq_iff_eq] at h
  rcases h with rfl | rfl
  · decide
  · decide

/-- The loop returns every listed name, whatever its ending. -/
theorem mem_names_of_listed {T : CharTable} {text : Text} {es : List EntryPoint}
    (hes : getEntryPoints T text = .ok es) {n : Text} (hn : Listed T text n) :
    n ∈ es.map EntryPoint.name := by
  obtain ⟨h, l, callable, hgov, hh, hm⟩ := hn
  have hscript := isScriptHeader_of_isScriptSectionHeader hh
  obtain ⟨spec, hspec⟩ := (exists_getEntryPoints_iff T text).mp ⟨es, hes⟩ h l hgov hscript
  have he : ∃ e : EntryPoint, spec = some e ∧ e.name = n := by
    rw [readEntry, hm] at hspec
    dsimp only at hspec
    split at hspec
    case h_1 modname entryFunc _ => exact ⟨_, (Except.ok.inj hspec).symm, rfl⟩
    case h_2 => cases hspec
  obtain ⟨e, rfl, rfl⟩ := he
  have hmem := (mem_getEntryPoints_iff T text hes e).mpr ⟨h, l, hgov, hscript, hspec⟩
  exact List.mem_map_of_mem hmem

/-- get_entry_points keeps the promise of its docstring exactly for the files
that it accepts and that list no script together with an alias of it. -/
theorem filtered_getEntryPoints_iff (T : CharTable) (text : Text) :
    (∃ es, getEntryPoints T text = .ok es ∧
        Filtered (Listed T text) (es.map EntryPoint.name)) ↔
      (∀ h l, Governs isHeader (strippedLines T text) h l → isScriptHeader h = true →
        ∃ spec, readEntry T l = .ok spec) ∧
      ¬ ∃ b, ∃ v : Version, Listed T text b ∧ Listed T text (b ++ v.text) := by
  rw [← exists_getEntryPoints_iff]
  constructor
  · rintro ⟨es, hes, hfiltered⟩
    refine ⟨⟨es, hes⟩, ?_⟩
    exact (filtered_iff_of_forall_mem fun n => mem_names_of_listed hes).mp hfiltered
  · rintro ⟨⟨es, hes⟩, hnone⟩
    refine ⟨es, hes, ?_⟩
    exact (filtered_iff_of_forall_mem fun n => mem_names_of_listed hes).mpr hnone

/-- The file of the docstring. -/
def pipText : Text :=
  "[console_scripts]\npip = pip:main\npip3 = pip:main\npip3.4 = pip:main\n".toList

/-- On its own example the function returns the aliases as well. -/
theorem not_filtered_pipText :
    getEntryPoints .ascii pipText = .ok
      [⟨"pip".toList, "pip".toList, "main".toList⟩, ⟨"pip3".toList, "pip".toList, "main".toList⟩,
        ⟨"pip3.4".toList, "pip".toList, "main".toList⟩] ∧
    ¬ Filtered (Listed .ascii pipText) ["pip".toList, "pip3".toList, "pip3.4".toList] := by
  have hlines : strippedLines .ascii pipText = ["[console_scripts]".toList,
      "pip = pip:main".toList, "pip3 = pip:main".toList, "pip3.4 = pip:main".toList] := by
    decide
  refine ⟨by decide +kernel, fun h => ?_⟩
  have hpip : Listed .ascii pipText "pip".toList :=
    ⟨"[console_scripts]".toList, "pip = pip:main".toList, "pip:main".toList,
      ⟨[], [], _, hlines, by decide, by decide⟩, by decide, by decide +kernel⟩
  have hpip3 : Listed .ascii pipText "pip3".toList :=
    ⟨"[console_scripts]".toList, "pip3 = pip:main".toList, "pip:main".toList,
      ⟨[], ["pip = pip:main".toList], _, hlines, by decide, by decide⟩, by decide,
      by decide +kernel⟩
  have hdigits : ∀ p ∈ [['3']], p ≠ [] ∧ ∀ c ∈ p, c.isDigit = true :=
    List.forall_mem_singleton.mpr ⟨by decide, forall_mem_of_all (by decide)⟩
  have hnot : ¬ "pip3".toList ∈ ["pip".toList, "pip3".toList, "pip3.4".toList] :=
    (h.1 "pip".toList ⟨false, [['3']], by decide, hdigits⟩ hpip hpip3).2
  exact hnot (by decide)

end Launcher
