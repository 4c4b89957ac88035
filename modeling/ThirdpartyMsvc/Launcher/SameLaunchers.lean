import ThirdpartyMsvc.Launcher.Wheel
import Mathlib.Data.List.Perm.Basic

/-!
# The launchers of pip and the launchers that replace them

pip and write-launcher-script.py read the same entry-point files in different
ways. pip keeps a dictionary of sections, reads an entry with the pattern of
pkg_resources, writes it out again, and reads it once more with the pattern of
distlib; the script looks for the names of two sections in the headers, and
reads each line once. `launchers_perm_iff` says for which files the two come to
the same launchers.
-/

namespace Wheel

open Python Regex Sections Text Launcher

/-! ## Lines -/

section lines

variable {T : CharTable}

theorem strip_strip (p : Char → Bool) (t : Text) : strip p (strip p t) = strip p t := by
  have hhead : Stops p (strip p t) := by
    intro a ha
    obtain ⟨u, hu⟩ := List.rdropWhile_prefix p (lstrip p t)
    have hlead := stops_dropWhile p t
    rw [strip, rstrip] at ha
    apply hlead a
    change a ∈ (lstrip p t).head?
    rw [← hu, List.head?_append, Option.mem_def.mp ha]
    rfl
  have hleft : lstrip p (strip p t) = strip p t := by
    rw [lstrip]
    cases hs : strip p t with
    | nil => rfl
    | cons a u =>
        rw [hs, stops_cons] at hhead
        rw [List.dropWhile_cons, hhead, if_neg Bool.false_ne_true]
  rw [strip, hleft, rstrip, strip, rstrip, List.rdropWhile_idempotent]

theorem splitLines_unlines (ls : List Text) (h : ∀ l ∈ ls, '\n' ∉ l) :
    splitLines (unlines ls) = ls.map (· ++ ['\n']) := by
  induction ls with
  | nil => rfl
  | cons l ls ih =>
      have hrest := ih fun l' hl' => h l' (by simp [hl'])
      have hcons : unlines (l :: ls) = l ++ '\n' :: unlines ls := by simp [unlines]
      have hl := h l (by simp)
      rw [hcons, List.map_cons, ← hrest]
      clear hcons hrest ih h
      induction l with
      | nil => rw [List.nil_append, splitLines, if_pos rfl]; rfl
      | cons c l ihl =>
          rw [List.mem_cons, not_or] at hl
          rw [List.cons_append, splitLines, if_neg (Ne.symm hl.1), ihl hl.2]
          rfl

/-- No line breaks of splitlines. -/
def OneLine (t : Text) : Prop := ∀ c ∈ t, isLineBreak c = false

theorem OneLine.newline_notMem {t : Text} (h : OneLine t) : '\n' ∉ t := by
  intro hmem
  have hbreak := h '\n' hmem
  rw [show isLineBreak '\n' = true by decide] at hbreak
  cases hbreak

theorem splitlines_of_not_break {c : Char} (hc : isLineBreak c = false) {t l : Text}
    (ht : splitlines t = [l] ∨ t = [] ∧ l = []) : splitlines (c :: t) = [c :: l] := by
  have hreturn : c ≠ '\r' := by
    rintro rfl
    exact absurd hc (by decide)
  rw [splitlines, hc, if_neg Bool.false_ne_true]
  · rcases ht with ht | ⟨rfl, rfl⟩
    · rw [ht]
    · rfl
  · exact fun u hu _ => absurd hu hreturn

theorem splitlines_newline (t : Text) (h : OneLine t) : splitlines (t ++ ['\n']) = [t] := by
  induction t with
  | nil => rfl
  | cons c t ih =>
      exact splitlines_of_not_break (h c (by simp)) (.inl (ih fun d hd => h d (by simp [hd])))

theorem splitlines_oneLine (t : Text) (h : OneLine t) (hne : t ≠ []) : splitlines t = [t] := by
  induction t with
  | nil => exact absurd rfl hne
  | cons c t ih =>
      apply splitlines_of_not_break (h c (by simp))
      by_cases ht : t = []
      · exact .inr ⟨ht, ht⟩
      · exact .inl (ih (fun d hd => h d (by simp [hd])) ht)

/-- The lines that yield_lines keeps. -/
def keep (t : Text) : Bool := t ≠ [] && t.head? != some '#'

theorem yieldText_of_splitlines {t s : Text} (ht : splitlines t = [s])
    (hs : strip T.space s = s) : yieldText T t = [s].filter keep := by
  rw [yieldText, ht, List.map_singleton, hs]
  rfl

/-- Of stripped lines, yield_lines drops the empty ones and the comments. -/
theorem yieldLines_newline (ls : List Text)
    (h : ∀ l ∈ ls, OneLine l ∧ strip T.space l = l) :
    yieldLines T (ls.map (· ++ ['\n'])) = ls.filter keep := by
  induction ls with
  | nil => rfl
  | cons l ls ih =>
      obtain ⟨hone, hstrip⟩ := h l (by simp)
      rw [List.map_cons, yieldLines, List.flatMap_cons,
        yieldText_of_splitlines (splitlines_newline l hone) hstrip, ← yieldLines,
        ih fun l' hl' => h l' (by simp [hl']), ← List.filter_append, List.singleton_append]

theorem yieldLines_keep (ls : List Text)
    (h : ∀ l ∈ ls, OneLine l ∧ strip T.space l = l ∧ keep l = true) : yieldLines T ls = ls := by
  induction ls with
  | nil => rfl
  | cons l ls ih =>
      obtain ⟨hone, hstrip, hkeep⟩ := h l (by simp)
      have hne : l ≠ [] := by
        rintro rfl
        cases hkeep
      rw [yieldLines, List.flatMap_cons,
        yieldText_of_splitlines (splitlines_oneLine l hone hne) hstrip, ← yieldLines,
        ih fun l' hl' => h l' (by simp [hl']), List.filter_cons, hkeep]
      rfl

end lines

/-! ## Reading one entry -/

section entry

variable {T : CharTable}

/-- The line has none of the parts that only one of the two readers knows. -/
def Plain (k : LineKind T) : Prop :=
  OneLine k.text ∧ match k with
    | .blank => True
    | .comment mark _ _ => mark = '#'
    | .header s => strip T.space s = s
    | .entry l => l.flags = none

/-- The characters of a dotted name. -/
def isPathChar (T : CharTable) (c : Char) : Bool := T.word c || c == '.'

theorem oneSymbol_path {β : Type} :
    OneSymbol (β := β) (CharSet.mem T) pathRe (isPathChar T) fun _ => [] := by
  have hmem : CharSet.mem T ⟨false, [.category .word false, .literal '.']⟩ = isPathChar T := by
    funext c
    simp [CharSet.mem, isPathChar, Bool.beq_comm (a := c)]
  have h := oneSymbol_sat (β := β) (CharSet.mem T) ⟨false, [.category .word false, .literal '.']⟩
  rwa [hmem] at h

theorem prefers_path {w rest : Text} (hne : w ≠ []) (hw : ∀ c ∈ w, isPathChar T c = true)
    (hr : Stops (isPathChar T) rest) (b : Text) (cs : List (ℕ × Text)) :
    Prefers (CharSet.mem T) (plus pathRe) ⟨b, w ++ rest, cs⟩ ⟨w.reverse ++ b, rest, cs⟩ := by
  have h := Prefers.plus_symbols (fun _ => oneSymbol_path (T := T)) hne hw hr b cs
  rwa [symbolCaps_none, List.nil_append] at h

theorem isPathChar_of_mem_dotted (ps : List Text)
    (hps : ∀ p ∈ ps, p ≠ [] ∧ ∀ c ∈ p, T.word c = true) {c : Char} (hc : c ∈ dotted ps) :
    isPathChar T c = true := by
  by_contra h
  rw [Bool.not_eq_true, isPathChar, Bool.or_eq_false_iff] at h
  refine notMem_dotted (by simpa using h.2) ps (fun p hp hmem => ?_) hc
  rw [(hps p hp).2 c hmem] at h
  exact Bool.noConfusion h.1

theorem isPathChar_of_mem (d : DottedName T) {c : Char} (hc : c ∈ d.text) :
    isPathChar T c = true := isPathChar_of_mem_dotted d.parts d.words hc

theorem dottedName_ne_nil (d : DottedName T) : d.text ≠ [] := by
  obtain ⟨a, u, hau, -⟩ := d.head_word
  rw [hau]
  simp

/-- A dotted name in a group of its own. -/
theorem prefers_dotted (i : ℕ) (d : DottedName T) {rest : Text} (hr : Stops (isPathChar T) rest)
    (b : Text) (cs : List (ℕ × Text)) :
    Prefers (CharSet.mem T) (group i (concat [plus pathRe])) ⟨b, d.text ++ rest, cs⟩
      ⟨d.text.reverse ++ b, rest, (i, d.text) :: cs⟩ :=
  prefers_group i ((prefers_path (dottedName_ne_nil d) (fun _ hc => isPathChar_of_mem d hc) hr b
    cs).concat_cons (.concat_nil _))

theorem stops_space_dotted (d : DottedName T) (rest : Text) :
    Stops T.space (d.text ++ rest) := by
  obtain ⟨a, u, hau, ha⟩ := d.head_word
  rw [hau, List.cons_append, stops_cons]
  exact T.not_space_of_word a ha

/-- The attribute path, with its colon. -/
theorem prefers_attr (d : DottedName T) (b : Text) (cs : List (ℕ × Text)) :
    Prefers (CharSet.mem T) attrRe ⟨b, ':' :: d.text, cs⟩
      ⟨(':' :: d.text).reverse ++ b, [], (2, ':' :: d.text) :: (3, d.text) :: cs⟩ := by
  have hstop : Stops T.space d.text := by
    simpa using stops_space_dotted d []
  have hpath := prefers_dotted 3 d (stops_nil _) (':' :: b) cs
  rw [List.append_nil] at hpath
  have hall := (prefers_literalRe ':' b d.text cs).concat_cons
    ((prefers_no_space hstop (':' :: b) cs).concat_cons (hpath.concat_cons (.concat_nil _)))
  have hgroup : Prefers (CharSet.mem T)
      (group 2 (concat [literalRe ':', star spaceRe, group 3 (concat [plus pathRe])]))
      ⟨b, (':' :: d.text) ++ [], cs⟩
      ⟨(':' :: d.text).reverse ++ b, [], (2, ':' :: d.text) :: (3, d.text) :: cs⟩ :=
    prefers_group 2 (by simpa using hall)
  rw [List.append_nil] at hgroup
  exact hgroup.opt

/-- There is nothing behind the attribute path. -/
theorem prefers_end (b : Text) (cs : List (ℕ × Text)) :
    Prefers (CharSet.mem T) (concat [star spaceRe, extrasRe, star spaceRe, eos (.literal '\n')])
      ⟨b, [], cs⟩ ⟨b, [], cs⟩ := by
  have hnone : Refuses (CharSet.mem T) (literalRe '[') ⟨b, [], cs⟩ :=
    refuses_literalRe (by simp) b cs
  have hspace := prefers_no_space (T := T) (stops_nil _) b cs
  exact hspace.concat_cons ((Prefers.opt_none (.group 4 (.concat_cons hnone))).concat_cons
    (hspace.concat_cons ((Prefers.eos_end _ b cs).concat_cons (.concat_nil _))))

/-- The module and the attribute path of an entry without flags, behind its
name. -/
theorem run_behindNameRe (l : EntryLine T) (b : Text) :
    ∃ m, run (CharSet.mem T) behindNameRe.re
        ⟨b, l.before ++ '=' :: (l.behind ++ l.callable), []⟩ some = some m ∧
      m.group 1 = some l.modpath.text ∧ m.group 3 = some l.attrpath.text ∧ m.group 4 = none := by
  have hequals : Stops T.space ('=' :: (l.behind ++ l.callable)) := by
    simpa using not_space_equals T
  have hcolon : Stops (isPathChar T) (':' :: l.attrpath.text) := by
    rw [stops_cons, isPathChar, T.word_of_ascii (by decide) false (by decide)]
    rfl
  have hcolonspace : Stops T.space (':' :: l.attrpath.text) := by
    simpa using T.space_of_ascii (c := ':') (by decide) false (by decide)
  have hbefore := prefers_spaces l.before_space hequals b []
  have hsign := prefers_literalRe (T := T) '=' (l.before.reverse ++ b) (l.behind ++ l.callable) []
  have hbehind := prefers_spaces l.behind_space (stops_space_dotted l.modpath (':' :: l.attrpath.text))
    ('=' :: (l.before.reverse ++ b)) []
  have hmodule := prefers_dotted 1 l.modpath hcolon
    (l.behind.reverse ++ '=' :: (l.before.reverse ++ b)) []
  have hgap := prefers_no_space hcolonspace
    (l.modpath.text.reverse ++ (l.behind.reverse ++ '=' :: (l.before.reverse ++ b)))
    [(1, l.modpath.text)]
  have hall := hbefore.concat_cons (hsign.concat_cons (hbehind.concat_cons (hmodule.concat_cons
    (hgap.concat_cons ((prefers_attr l.attrpath _ _).concat_cons (prefers_end _ _))))))
  exact ⟨_, hall some _ rfl, rfl, rfl, rfl⟩

/-- Nothing behind a part of the name can match. -/
theorem refuses_behindNameRe {a : Char} (ha : isNameChar T a = true) (b rest : Text) :
    Refuses (CharSet.mem T) behindNameRe.re ⟨b, a :: rest, []⟩ := by
  have hspace : Refuses (CharSet.mem T) spaceRe ⟨b, a :: rest, []⟩ := by
    apply Refuses.sat
    rw [stops_cons, mem_space]
    exact not_space_of_isNameChar T ha
  refine Refuses.star_concat hspace (.concat_cons (refuses_literalRe ?_ b []))
  rintro d hd rfl
  obtain rfl : a = '=' := Option.some.inj hd
  rw [isNameChar, T.word_of_ascii (by decide) false (by decide)] at ha
  simp at ha

/-- The pattern of pkg_resources reads an entry without flags like the one of
distlib. -/
theorem matchPoint_text (l : EntryLine T) (hflags : l.flags = none) (hone : OneLine l.text) :
    ∃ m, matchPoint T l.text = some (l.name, m) ∧ m.group 1 = some l.modpath.text ∧
      m.group 3 = some l.attrpath.text ∧ m.group 4 = none := by
  have htext : l.text = l.name ++ (l.before ++ '=' :: (l.behind ++ l.callable)) := by
    rw [EntryLine.text, EntryLine.flagsText, hflags, Option.elim_none, List.append_nil]
  have hstop : Stops T.space l.text := by
    obtain ⟨a, u, hau⟩ := List.exists_cons_of_ne_nil l.name_ne_nil
    rw [htext, hau, List.cons_append, stops_cons]
    exact not_space_of_isNameChar T (l.name_chars a (by simp [hau]))
  have hdot : ∀ a ∈ l.name, CharSet.mem T .any a = true := by
    intro a ha
    rw [CharSet.mem_any, bne_iff_ne]
    rintro rfl
    exact hone.newline_notMem (by rw [htext]; exact List.mem_append_left _ ha)
  obtain ⟨m, hm, hgroups⟩ := run_behindNameRe l (l.name.reverse ++ [])
  refine ⟨m, ?_, hgroups⟩
  refine prefers_no_space hstop [] [] _ _ ?_
  dsimp only
  rw [htext]
  refine runLazyPlus_cut (oneSymbol_sat _ _) l.name_ne_nil [] _ [] _ hdot ?_ ?_
  · intro u a v _ huv
    have ha : isNameChar T a = true := l.name_chars a (by simp [huv])
    rw [refuses_behindNameRe ha]
    rfl
  · rw [hm]
    simp [List.take_of_length_le]

theorem splitOn_dotted (ps : List Text) (hne : ps ≠ []) (hps : ∀ p ∈ ps, '.' ∉ p) :
    (dotted ps).splitOn '.' = ps := by
  induction ps with
  | nil => exact absurd rfl hne
  | cons p ps ih =>
      cases ps with
      | nil => rw [dotted_singleton, List.splitOn_eq_singleton (hps p (by simp))]
      | cons q ps =>
          rw [dotted_cons_cons, List.splitOn_append_cons_self_of_not_mem (hps p (by simp)),
            ih (by simp) fun r hr => hps r (by simp [hr])]

theorem splitOn_dottedName (d : DottedName T) : d.text.splitOn '.' = d.parts := by
  refine splitOn_dotted d.parts d.ne_nil fun p hp hdot => ?_
  have hword := (d.words p hp).2 '.' hdot
  rw [T.word_of_ascii (by decide) false (by decide)] at hword
  cases hword

/-- The EntryPoint of an entry without flags. -/
def pointOf (l : EntryLine T) : Point := ⟨l.name, l.modpath.text, l.attrpath.parts, []⟩

theorem parse_text (parseExtras : Text → Except InstallError (List Text)) (l : EntryLine T)
    (hflags : l.flags = none) (hone : OneLine l.text) :
    parse T parseExtras l.text =
      if isModule T l.modpath.text then .ok (pointOf l) else .error .valueError := by
  obtain ⟨m, hm, h1, h3, h4⟩ := matchPoint_text l hflags hone
  have hmodule : behindNameRe.namedGroup m "module".toList = some l.modpath.text := h1
  have hattr : behindNameRe.namedGroup m "attr".toList = some l.attrpath.text := h3
  have hextras : behindNameRe.namedGroup m "extras".toList = none := h4
  rw [parse, hm]
  simp only [hmodule, hattr, hextras, splitOn_dottedName, Option.getD_some]
  rfl

/-- A name has no character of the texts around it. -/
theorem notMem_name (l : EntryLine T) {c : Char} (hc : isNameChar T c = false) : c ∉ l.name :=
  fun hmem => by
    rw [l.name_chars c hmem] at hc
    cases hc

theorem notMem_callable (l : EntryLine T) {c : Char} (hc : isPathChar T c = false)
    (hcolon : c ≠ ':') : c ∉ l.callable := by
  intro hmem
  rw [EntryLine.callable, List.mem_append, List.mem_cons] at hmem
  rcases hmem with hmem | rfl | hmem
  · rw [isPathChar_of_mem l.modpath hmem] at hc
    cases hc
  · exact hcolon rfl
  · rw [isPathChar_of_mem l.attrpath hmem] at hc
    cases hc

/-- An entry is written out as its name and its callable. -/
theorem splitEp_pointOf (l : EntryLine T) : splitEp (pointOf l) = .ok (l.name, l.callable) := by
  have hword : ∀ {c : Char}, c = ' ' ∨ c = '=' → T.word c = false := by
    rintro c (rfl | rfl)
    · exact T.word_of_ascii (by decide) false (by decide)
    · exact T.word_of_ascii (by decide) false (by decide)
  have hname : ∀ {c : Char}, c = ' ' ∨ c = '=' → c ∉ l.name := by
    intro c hc
    apply notMem_name l
    rw [isNameChar, hword hc]
    rcases hc with rfl | rfl
    · decide
    · decide
  have hcallable : ∀ {c : Char}, c = ' ' ∨ c = '=' → c ∉ l.callable := by
    intro c hc
    apply notMem_callable l
    · rw [isPathChar, hword hc]
      rcases hc with rfl | rfl
      · decide
      · decide
    · rcases hc with rfl | rfl
      · decide
      · decide
  have hkeep : ∀ t : Text, ' ' ∉ t → t.filter (· ≠ ' ') = t := by
    intro t ht
    rw [List.filter_eq_self]
    intro c hc
    have hne : c ≠ ' ' := fun h => ht (h ▸ hc)
    simpa using hne
  have hstr : (pointOf l).str = l.name ++ (" = ".toList ++ l.callable) := by
    have hparts : l.attrpath.parts ≠ [] := l.attrpath.ne_nil
    simp [Point.str, pointOf, EntryLine.callable, DottedName.text, hparts]
  have hsign : (" = ".toList).filter (· ≠ ' ') = ['='] := by decide
  rw [splitEp, hstr, List.filter_append, List.filter_append, hkeep _ (hname (.inl rfl)),
    hkeep _ (hcallable (.inl rfl)), hsign, List.singleton_append,
    List.splitOn_append_cons_self_of_not_mem (hname (.inr rfl)),
    List.splitOn_eq_singleton (hcallable (.inr rfl))]

/-- The launcher of an entry. -/
def exportOf (l : EntryLine T) : ExportEntry :=
  ⟨l.name, l.modpath.text, some l.attrpath.text, []⟩

/-- What pip has written out for an entry, distlib reads back. -/
theorem make_specification (l : EntryLine T) :
    make T (Environment.specification l.name l.callable) = .ok [exportOf l] := by
  set x : Export T := ⟨l.name, l.modpath, some l.attrpath, [], l.name_ne_nil, l.name_chars⟩ with hx
  have hspec : Environment.specification l.name l.callable = x.spec [] [] := by
    simp [Environment.specification, Export.spec, hx, Export.flagsPart, pathText,
      EntryLine.callable]
  have hgap : ∀ c ∈ ([] : Text), T.space c = true := by simp
  obtain ⟨m, hm, h1, h3, h7⟩ := x.exists_match hgap hgap
  have hname : entryRe.namedGroup m "name".toList = some l.name := h1
  have hpath : entryRe.namedGroup m "callable".toList =
      some (pathText l.modpath (some l.attrpath)) := h3
  have hflags : entryRe.namedGroup m "flags".toList = none := h7
  have hread : getExportEntry T (x.spec [] []) = .ok (some (exportOf l)) := by
    rw [getExportEntry, hm]
    simp only [hname, hpath, hflags, Option.getD_some, splitPath_pathText, splitFlags,
      x.not_hasBracket [] [] rfl]
    rfl
  rw [make, hspec, hread]
  rfl

end entry

/-! ## Sections and dictionaries -/

section dictionaries

variable {T : CharTable}

/-- The sections of a file with their entries, behind an open one. -/
def sections : Option Text → List (EntryLine T) → List (LineKind T) →
    List (Option Text × List (EntryLine T))
  | open_, ls, [] => [(open_, ls)]
  | open_, ls, .header s :: ks =>
      (if open_.any (· ≠ []) ∨ ls.isEmpty = false then [(open_, ls)] else []) ++
        sections (some s) [] ks
  | open_, ls, .entry l :: ks => sections open_ (ls ++ [l]) ks
  | open_, ls, _ :: ks => sections open_ ls ks

theorem keep_entry (l : EntryLine T) : keep l.text = true := by
  obtain ⟨a, u, hau⟩ := List.exists_cons_of_ne_nil l.name_ne_nil
  have hne : a ≠ '#' := by
    rintro rfl
    have hname := l.name_chars '#' (by simp [hau])
    rw [isNameChar, T.word_of_ascii (by decide) false (by decide)] at hname
    exact absurd hname (by decide)
  simp [keep, EntryLine.text, hau, hne]

theorem splitSections_header (open_ : Option Text) (content lines : List Text) (s : Text) :
    splitSections T open_ content (('[' :: (s ++ [']'])) :: lines) =
      (splitSections T (some (strip T.space s)) [] lines).map fun rest =>
        (if open_.any (· ≠ []) ∨ content ≠ [] then [(open_, content)] else []) ++ rest := by
  have hhead : ('[' :: (s ++ [']'])).head? = some '[' := rfl
  have hlast : ('[' :: (s ++ [']'])).getLast? = some ']' := by
    simp [List.getLast?_cons]
  rw [splitSections, if_pos hhead, if_pos hlast, List.drop_succ_cons, List.drop_zero,
    List.dropLast_concat]
  cases splitSections T (some (strip T.space s)) [] lines <;> rfl

/-- split_sections finds the sections of a plain file. -/
theorem splitSections_text (ks : List (LineKind T)) (hks : ∀ k ∈ ks, Plain k)
    (open_ : Option Text) (ls : List (EntryLine T)) :
    splitSections T open_ (ls.map EntryLine.text) ((ks.map LineKind.text).filter keep) =
      .ok ((sections open_ ls ks).map fun p => (p.1, p.2.map EntryLine.text)) := by
  induction ks generalizing open_ ls with
  | nil => rfl
  | cons k ks ih =>
      have hrest := ih fun k' hk' => hks k' (by simp [hk'])
      have hk := (hks k (by simp)).2
      rw [List.map_cons, List.filter_cons]
      cases k with
      | blank => exact hrest open_ ls
      | comment mark body h =>
          obtain rfl : mark = '#' := hk
          exact hrest open_ ls
      | header s =>
          have hs : strip T.space s = s := hk
          have hkeep : keep (LineKind.header s : LineKind T).text = true := by
            simp [keep, LineKind.text]
          rw [if_pos hkeep, LineKind.text, splitSections_header, hs, sections]
          have hopen := hrest (some s) []
          rw [List.map_nil] at hopen
          rw [hopen]
          cases ls with
          | nil => simp [Except.map, apply_ite (List.map _)]
          | cons l ls => simp [Except.map]
      | entry l =>
          have hhead : l.text.head? ≠ some '[' := by
            have hh := l.isHeader_text
            simpa [isHeader] using hh
          rw [LineKind.text, keep_entry, if_pos rfl, splitSections, if_neg hhead]
          have hmap : ls.map EntryLine.text ++ [l.text] = (ls ++ [l]).map EntryLine.text := by simp
          rw [hmap]
          exact hrest open_ (ls ++ [l])

/-- What get_entrypoints has read a plain entry from. -/
def PlainEntry (l : EntryLine T) : Prop :=
  l.flags = none ∧ OneLine l.text ∧ strip T.space l.text = l.text

/-- A group that parse_group accepts holds its entries under their names, each
name once. -/
theorem parseLines_ok (parseExtras : Text → Except InstallError (List Text))
    (ls : List (EntryLine T)) (hls : ∀ l ∈ ls, PlainEntry l)
    {this res : List (Text × Point)} (hthis : (this.map Prod.fst).Nodup)
    (h : parseLines T parseExtras this (ls.map EntryLine.text) = .ok res) :
    res = this ++ ls.map (fun l => (l.name, pointOf l)) ∧ (res.map Prod.fst).Nodup := by
  induction ls generalizing this with
  | nil =>
      obtain rfl := Except.ok.inj h
      exact ⟨by simp, hthis⟩
  | cons l ls ih =>
      obtain ⟨hflags, hone, -⟩ := hls l (by simp)
      rw [List.map_cons, parseLines, parse_text parseExtras l hflags hone] at h
      by_cases hmodule : isModule T l.modpath.text = true
      case neg =>
        rw [if_neg hmodule] at h
        cases h
      case pos =>
        rw [if_pos hmodule] at h
        change (if this.any (·.1 = l.name) then _ else _) = _ at h
        by_cases hdup : this.any (·.1 = l.name) = true
        · rw [if_pos hdup] at h
          cases h
        · rw [if_neg hdup] at h
          have hnew : l.name ∉ this.map Prod.fst := by
            simpa using hdup
          obtain ⟨hres, hnodup⟩ := ih (fun l' hl' => hls l' (by simp [hl'])) (by
            rw [List.map_append, List.nodup_append]
            refine ⟨hthis, by simp, ?_⟩
            rintro a ha b hb rfl
            obtain rfl : a = l.name := by simpa [pointOf] using hb
            exact hnew ha) h
          exact ⟨by rw [hres]; simp [pointOf], hnodup⟩

/-- The items of a section. -/
def itemsOf (ls : List (EntryLine T)) : List (Text × Point) := ls.map fun l => (l.name, pointOf l)

theorem parseGroup_ok {parseExtras : Text → Except InstallError (List Text)} {name : Text}
    {ls : List (EntryLine T)} (hls : ∀ l ∈ ls, PlainEntry l) {res : List (Text × Point)}
    (h : parseGroup T parseExtras name (ls.map EntryLine.text) = .ok res) :
    res = itemsOf ls ∧ (ls.map EntryLine.name).Nodup := by
  have hkeep : yieldLines T (ls.map EntryLine.text) = ls.map EntryLine.text := by
    apply yieldLines_keep
    intro t ht
    obtain ⟨l, hl, rfl⟩ := List.mem_map.mp ht
    obtain ⟨-, hone, hstrip⟩ := hls l hl
    exact ⟨hone, hstrip, keep_entry l⟩
  rw [parseGroup, hkeep] at h
  split at h
  case isTrue =>
    obtain ⟨hres, hnodup⟩ := parseLines_ok parseExtras ls hls (by simp) h
    rw [List.nil_append] at hres
    refine ⟨hres, ?_⟩
    rw [hres, List.map_map] at hnodup
    exact hnodup
  case isFalse => cases h

/-- The sections that have a name. -/
def named (secs : List (Option Text × List (EntryLine T))) : List (Text × List (EntryLine T)) :=
  secs.filterMap fun p => p.1.map fun s => (s, p.2)

/-- A file that parse_map accepts holds its sections under their names, each
name once, and nothing in front of them. -/
theorem parseSections_ok (parseExtras : Text → Except InstallError (List Text))
    (secs : List (Option Text × List (EntryLine T)))
    (hsecs : ∀ p ∈ secs, (∀ s ∈ p.1, strip T.space s = s) ∧ ∀ l ∈ p.2, PlainEntry l)
    {maps res : List (Text × List (Text × Point))} (hmaps : (maps.map Prod.fst).Nodup)
    (h : parseSections T parseExtras maps (secs.map fun p => (p.1, p.2.map EntryLine.text)) =
      .ok res) :
    res = maps ++ (named secs).map (fun p => (p.1, itemsOf p.2)) ∧ (res.map Prod.fst).Nodup ∧
      (∀ p ∈ named secs, (p.2.map EntryLine.name).Nodup) ∧ ∀ p ∈ secs, p.1 = none → p.2 = [] := by
  induction secs generalizing maps with
  | nil =>
      obtain rfl := Except.ok.inj h
      exact ⟨by simp [named], hmaps, by simp [named], by simp⟩
  | cons sec secs ih =>
      obtain ⟨open_, ls⟩ := sec
      have hrest : ∀ p ∈ secs, (∀ s ∈ p.1, strip T.space s = s) ∧ ∀ l ∈ p.2, PlainEntry l :=
        fun p hp => hsecs p (List.mem_cons_of_mem _ hp)
      obtain ⟨hname, hls⟩ := hsecs (open_, ls) (by simp)
      rw [List.map_cons] at h
      cases open_ with
      | none =>
          rw [parseSections] at h
          split at h
          case isTrue hnil =>
            obtain rfl : ls = [] := List.map_eq_nil_iff.mp hnil
            obtain ⟨hres, hnodup, hnames, hlead⟩ := ih hrest hmaps h
            exact ⟨hres, hnodup, hnames, List.forall_mem_cons.mpr ⟨fun _ => rfl, hlead⟩⟩
          case isFalse => cases h
      | some s =>
          have hs : strip T.space s = s := hname s rfl
          rw [parseSections] at h
          dsimp only at h
          rw [hs] at h
          split at h
          case isTrue => cases h
          case isFalse hnew =>
            cases hgroup : parseGroup T parseExtras s (ls.map EntryLine.text) with
            | error e =>
                rw [hgroup] at h
                cases h
            | ok points =>
                rw [hgroup] at h
                obtain ⟨rfl, hentries⟩ := parseGroup_ok hls hgroup
                have hfresh : s ∉ maps.map Prod.fst := by
                  simpa using hnew
                have hmaps' : ((maps ++ [(s, itemsOf ls)]).map Prod.fst).Nodup := by
                  rw [List.map_append, List.nodup_append]
                  refine ⟨hmaps, by simp, ?_⟩
                  rintro a ha b hb rfl
                  obtain rfl : a = s := by simpa using hb
                  exact hfresh ha
                obtain ⟨hres, hnodup, hnames, hlead⟩ := ih hrest hmaps' h
                refine ⟨by rw [hres]; simp [named], hnodup, ?_,
                  List.forall_mem_cons.mpr ⟨fun hnone => absurd hnone (by simp), hlead⟩⟩
                exact List.forall_mem_cons.mpr ⟨hentries, hnames⟩

theorem mapM_splitEp (ls : List (EntryLine T)) :
    ((itemsOf ls).map Prod.snd).mapM splitEp = .ok (ls.map fun l => (l.name, l.callable)) := by
  induction ls with
  | nil => rfl
  | cons l ls ih =>
      rw [itemsOf, List.map_cons, List.map_cons, List.mapM_cons, splitEp_pointOf, ← itemsOf, ih]
      rfl

/-- Items with different keys are put one behind the other. -/
theorem foldl_insertItem (items acc : List (Text × Text))
    (h : ((acc ++ items).map Prod.fst).Nodup) : items.foldl insertItem acc = acc ++ items := by
  induction items generalizing acc with
  | nil => rw [List.append_nil]; rfl
  | cons kv items ih =>
      have hassoc : acc ++ kv :: items = (acc ++ [kv]) ++ items := by simp
      have hnew : ¬ acc.any (·.1 = kv.1) = true := by
        rw [List.map_append, List.nodup_append] at h
        intro hold
        obtain ⟨old, hmem, hkey⟩ := List.any_eq_true.mp hold
        exact h.2.2 old.1 (List.mem_map_of_mem hmem) kv.1 (by simp) (of_decide_eq_true hkey)
      rw [List.foldl_cons, insertItem, if_neg hnew, ih _ (hassoc ▸ h), hassoc]

theorem lookup_map_snd {β γ : Type*} (f : β → γ) (items : List (Text × β)) (key : Text) :
    (items.map fun p => (p.1, f p.2)).lookup key = (items.lookup key).map f := by
  induction items with
  | nil => rfl
  | cons kv items ih =>
      rw [List.map_cons, List.lookup_cons, List.lookup_cons, ih]
      cases key == kv.1 <;> rfl

/-- The entries of the section of a name. -/
def linesOf (secs : List (Option Text × List (EntryLine T))) (name : Text) : List (EntryLine T) :=
  ((named secs).lookup name).getD []

theorem scriptsOf_named (secs : List (Option Text × List (EntryLine T)))
    (hnames : ∀ p ∈ named secs, (p.2.map EntryLine.name).Nodup) (name : Text) :
    scriptsOf ((named secs).map fun p => (p.1, itemsOf p.2)) name =
      .ok ((linesOf secs name).map fun l => (l.name, l.callable)) := by
  have hlines : (((named secs).map fun p => (p.1, itemsOf p.2)).lookup name).getD [] =
      itemsOf (linesOf secs name) := by
    rw [lookup_map_snd, linesOf]
    cases (named secs).lookup name <;> rfl
  have hnodup : ((linesOf secs name).map EntryLine.name).Nodup := by
    rw [linesOf]
    cases hlookup : (named secs).lookup name with
    | none => simp
    | some ls =>
        obtain ⟨l₁, l₂, hsecs, -⟩ := List.lookup_eq_some_iff.mp hlookup
        exact hnames (name, ls) (by rw [hsecs]; simp)
  have hfold := foldl_insertItem ((linesOf secs name).map fun l => (l.name, l.callable)) []
    (by rw [List.nil_append, List.map_map]; exact hnodup)
  rw [scriptsOf, hlines, mapM_splitEp]
  exact congrArg Except.ok hfold

/-- Without pip and easy_install every script has one specification. -/
theorem specifications_eq (env : Environment) {console : List (Text × Text)}
    (gui : List (Text × Text)) (hpip : "pip".toList ∉ console.map Prod.fst)
    (heasy : "easy_install".toList ∉ console.map Prod.fst) :
    env.specifications console gui =
      (console ++ gui).map fun kv => Environment.specification kv.1 kv.2 := by
  have hfilter : ∀ name, name ∉ console.map Prod.fst → console.filter (·.1 ≠ name) = console := by
    intro name hname
    rw [List.filter_eq_self]
    intro kv hkv
    exact decide_eq_true fun h => hname (h ▸ List.mem_map_of_mem hkv)
  have hlookup : ∀ name, name ∉ console.map Prod.fst → console.lookup name = none := by
    intro name hname
    rw [List.lookup_eq_none_iff]
    intro kv hkv
    exact bne_iff_ne.mpr fun h => hname (h ▸ List.mem_map_of_mem hkv)
  have hpipScripts : env.pipScripts console = ([], console) := by
    rw [Environment.pipScripts, hlookup _ hpip, hfilter _ hpip]
  have heasyScripts : env.easyInstallScripts console = ([], console) := by
    rw [Environment.easyInstallScripts, hlookup _ heasy, hfilter _ heasy]
  rw [Environment.specifications, hpipScripts]
  dsimp only
  rw [heasyScripts, List.map_append]
  rfl

theorem makeMultiple_specification (ls : List (EntryLine T)) :
    makeMultiple T (ls.map fun l => Environment.specification l.name l.callable) =
      .ok (ls.map exportOf) := by
  induction ls with
  | nil => rfl
  | cons l ls ih =>
      rw [List.map_cons, makeMultiple, make_specification, ih]
      rfl

end dictionaries

/-! ## The two lists of launchers -/

section same

variable {T : CharTable}

/-- The entries of a section, if it is a script section. -/
def scriptLines (sec : Text × List (EntryLine T)) : List (EntryLine T) :=
  if isScriptSection sec.1 then sec.2 else []

/-- The two dictionaries hold the entries of the script sections. -/
theorem perm_linesOf {secs : List (Option Text × List (EntryLine T))}
    (hnodup : ((named secs).map Prod.fst).Nodup) :
    (linesOf secs "console_scripts".toList ++ linesOf secs "gui_scripts".toList).Perm
      ((named secs).flatMap scriptLines) := by
  rw [linesOf, linesOf]
  generalize named secs = items at hnodup
  have hne : "console_scripts".toList ≠ "gui_scripts".toList := by decide
  have hscript : ∀ s, isScriptSection s = true ↔
      s = "console_scripts".toList ∨ s = "gui_scripts".toList := by
    intro s
    rw [isScriptSection, Bool.or_eq_true, beq_iff_eq, beq_iff_eq]
  generalize "console_scripts".toList = c at hne hscript ⊢
  generalize "gui_scripts".toList = g at hne hscript ⊢
  induction items with
  | nil => exact .refl _
  | cons sec items ih =>
      obtain ⟨s, ls⟩ := sec
      rw [List.map_cons, List.nodup_cons] at hnodup
      have hnone : items.lookup s = none := by
        rw [List.lookup_eq_none_iff]
        intro kv hkv
        have hmem : kv.1 ∈ items.map Prod.fst := List.mem_map_of_mem hkv
        rw [bne_iff_ne]
        rintro rfl
        exact hnodup.1 hmem
      have hother : ∀ {k}, k ≠ s → ((s, ls) :: items).lookup k = items.lookup k := by
        intro k hk
        rw [List.lookup_cons, beq_false_of_ne hk]
      rw [List.flatMap_cons, scriptLines]
      by_cases hc : s = c
      · subst hc
        rw [List.lookup_cons_self, hother hne.symm, if_pos ((hscript s).mpr (.inl rfl)),
          Option.getD_some]
        have hrest := ih hnodup.2
        rw [hnone, Option.getD_none, List.nil_append] at hrest
        exact hrest.append_left ls
      · by_cases hg : s = g
        · subst hg
          rw [List.lookup_cons_self, hother hne, if_pos ((hscript s).mpr (.inr rfl)),
            Option.getD_some]
          have hrest := ih hnodup.2
          rw [hnone, Option.getD_none, List.append_nil] at hrest
          exact List.perm_append_comm.trans (hrest.append_left ls)
        · have hnot : ¬ isScriptSection s = true := fun h => ((hscript s).mp h).elim hc hg
          rw [hother (Ne.symm hc), hother (Ne.symm hg), if_neg hnot, List.nil_append]
          exact ih hnodup.2

/-- A section that is closed without a yield holds no entry of a script. -/
theorem flatMap_scriptLines_closed (open_ : Option Text) (ls : List (EntryLine T)) :
    (named (if open_.any (· ≠ []) ∨ ls.isEmpty = false then [(open_, ls)] else [])).flatMap
        scriptLines = if open_.any isScriptSection then ls else [] := by
  cases open_ with
  | none => split <;> rfl
  | some s =>
      rw [Option.any_some, Option.any_some]
      by_cases hs : isScriptSection s = true
      · have hne : s ≠ [] := by
          rintro rfl
          exact absurd hs (by decide)
        rw [if_pos (.inl (by simpa using hne)), if_pos hs]
        simp [named, scriptLines, hs]
      · rw [if_neg hs]
        split
        · simp [named, scriptLines, hs]
        · rfl

/-- The sections hold the entries that are expected of the file. -/
theorem flatMap_scriptLines (ks : List (LineKind T)) (open_ : Option Text)
    (ls : List (EntryLine T)) :
    ((named (sections open_ ls ks)).flatMap scriptLines).map EntryLine.entryPoint =
      (if open_.any isScriptSection then ls.map EntryLine.entryPoint else []) ++
        expected open_ ks := by
  induction ks generalizing open_ ls with
  | nil =>
      cases open_ with
      | none => rfl
      | some s => cases hs : isScriptSection s <;> simp [sections, named, scriptLines, expected, hs]
  | cons k ks ih =>
      cases k with
      | blank => exact ih open_ ls
      | comment mark body h => exact ih open_ ls
      | header s =>
          have hrest := ih (some s) []
          rw [List.map_nil, ite_self, List.nil_append] at hrest
          rw [sections, expected, ← hrest, named, List.filterMap_append, List.flatMap_append,
            List.map_append, ← named, flatMap_scriptLines_closed, apply_ite (List.map _)]
          rfl
      | entry l =>
          rw [sections, ih, expected]
          cases open_.any isScriptSection <;> simp

/-- What get_entry_points returns has the expected entries in their order. -/
theorem expected_sublist_collected (cur : Option Text) (ks : List (LineKind T)) :
    (expected cur ks).Sublist (collected (flagOf T cur) ks) := by
  induction ks generalizing cur with
  | nil => exact .slnil
  | cons k ks ih =>
      cases k with
      | header s => exact ih (some s)
      | blank => exact ih cur
      | comment mark body h => exact ih cur
      | entry l =>
          rw [expected, collected]
          by_cases hc : cur.any isScriptSection = true
          · rw [if_pos hc, if_pos (flagOf_of_isScriptSection hc)]
            exact (ih cur).cons_cons _
          · rw [if_neg hc]
            split
            · exact (ih cur).cons _
            · exact ih cur

/-- The parts of the sections come from the file. -/
theorem mem_sections (ks : List (LineKind T)) {open_ : Option Text} {ls : List (EntryLine T)}
    {p : Option Text × List (EntryLine T)} (hp : p ∈ sections open_ ls ks) :
    (p.1 = open_ ∨ ∃ s, p.1 = some s ∧ LineKind.header s ∈ ks) ∧
      ∀ l ∈ p.2, l ∈ ls ∨ LineKind.entry l ∈ ks := by
  induction ks generalizing open_ ls with
  | nil =>
      obtain rfl := List.mem_singleton.mp hp
      exact ⟨.inl rfl, fun l hl => .inl hl⟩
  | cons k ks ih =>
      cases k with
      | blank =>
          obtain ⟨h₁, h₂⟩ := ih hp
          exact ⟨by simpa using h₁, by simpa using h₂⟩
      | comment mark body h =>
          obtain ⟨h₁, h₂⟩ := ih hp
          exact ⟨by simpa using h₁, by simpa using h₂⟩
      | header s =>
          rw [sections] at hp
          rcases List.mem_append.mp hp with hp | hp
          · split at hp
            case isTrue =>
              obtain rfl := List.mem_singleton.mp hp
              exact ⟨.inl rfl, fun l hl => .inl hl⟩
            case isFalse => cases hp
          · obtain ⟨h₁, h₂⟩ := ih hp
            refine ⟨.inr ?_, fun l hl => .inr (by simpa using h₂ l hl)⟩
            rcases h₁ with h₁ | ⟨s', h₁, hs'⟩
            · exact ⟨s, h₁, by simp⟩
            · exact ⟨s', h₁, by simp [hs']⟩
      | entry l =>
          obtain ⟨h₁, h₂⟩ := ih hp
          refine ⟨by simpa using h₁, fun l' hl' => ?_⟩
          rcases h₂ l' hl' with h | h
          · rcases List.mem_append.mp h with h | h
            · exact .inl h
            · rw [List.mem_singleton.mp h]
              exact .inr (by simp)
          · exact .inr (by simp [h])

theorem mem_of_mem_linesOf {ks : List (LineKind T)} {name : Text} {l : EntryLine T}
    (hl : l ∈ linesOf (sections none [] ks) name) : LineKind.entry l ∈ ks := by
  rw [linesOf] at hl
  cases hlookup : (named (sections none [] ks)).lookup name with
  | none =>
      rw [hlookup] at hl
      cases hl
  | some ls =>
      rw [hlookup, Option.getD_some] at hl
      obtain ⟨l₁, l₂, hsecs, -⟩ := List.lookup_eq_some_iff.mp hlookup
      have hmem : (name, ls) ∈ named (sections none [] ks) := by
        rw [hsecs]
        simp
      obtain ⟨p, hp, hpair⟩ := List.mem_filterMap.mp hmem
      obtain ⟨s, -, hs⟩ := Option.map_eq_some_iff.mp hpair
      obtain ⟨-, rfl⟩ := Prod.mk.inj hs
      exact ((mem_sections ks hp).2 l hl).resolve_left (by simp)

section plain

variable {parseExtras : Text → Except InstallError (List Text)} {text : Text}
  {ks : List (LineKind T)} (hks : strippedLines T text = ks.map LineKind.text)
  (hplain : ∀ k ∈ ks, Plain k)

include hks

theorem strip_text {k : LineKind T} (hk : k ∈ ks) : strip T.space k.text = k.text := by
  have hmem : k.text ∈ strippedLines T text := hks ▸ List.mem_map_of_mem hk
  obtain ⟨raw, -, hraw⟩ := List.mem_map.mp hmem
  rw [← hraw, strip_strip]

include hplain

/-- What split_sections is given. -/
theorem yieldLines_text :
    yieldLines T (splitLines (unlines ((readLines text).map (strip T.space)))) =
      (ks.map LineKind.text).filter keep := by
  have hstripped : (readLines text).map (strip T.space) = ks.map LineKind.text := hks
  rw [hstripped, splitLines_unlines, yieldLines_newline]
  · intro t ht
    obtain ⟨k, hk, rfl⟩ := List.mem_map.mp ht
    exact ⟨(hplain k hk).1, strip_text hks hk⟩
  · intro t ht
    obtain ⟨k, hk, rfl⟩ := List.mem_map.mp ht
    exact (hplain k hk).1.newline_notMem

theorem plain_of_mem_sections {p : Option Text × List (EntryLine T)}
    (hp : p ∈ sections none [] ks) :
    (∀ s ∈ p.1, strip T.space s = s) ∧ ∀ l ∈ p.2, PlainEntry l := by
  obtain ⟨hname, hentries⟩ := mem_sections ks hp
  refine ⟨fun s hs => ?_, fun l hl => ?_⟩
  · rcases hname with hname | ⟨s', hname, hs'⟩
    · rw [hname] at hs
      cases hs
    · obtain rfl : s' = s := Option.some.inj (hname.symm.trans hs)
      exact (hplain _ hs').2
  · have hl' := (hentries l hl).resolve_left (by simp)
    exact ⟨(hplain _ hl').2, (hplain _ hl').1, strip_text hks hl'⟩

/-- The dictionaries that pip reads off a plain file. -/
theorem getEntrypoints_plain {console gui : List (Text × Text)}
    (h : getEntrypoints T parseExtras text = .ok (console, gui)) :
    ((named (sections none [] ks)).map Prod.fst).Nodup ∧
      console = (linesOf (sections none [] ks) "console_scripts".toList).map
        (fun l => (l.name, l.callable)) ∧
      gui = (linesOf (sections none [] ks) "gui_scripts".toList).map
        fun l => (l.name, l.callable) := by
  have hsplit := splitSections_text ks hplain none []
  rw [List.map_nil] at hsplit
  rw [getEntrypoints, parseMap, yieldLines_text hks hplain, hsplit] at h
  change parseSections T parseExtras [] _ >>= _ = _ at h
  cases hmaps : parseSections T parseExtras []
      ((sections none [] ks).map fun p => (p.1, p.2.map EntryLine.text)) with
  | error e =>
      rw [hmaps] at h
      cases h
  | ok maps =>
      obtain ⟨hres, hnodup, hentries, -⟩ := parseSections_ok parseExtras _
        (fun p hp => plain_of_mem_sections hks hplain hp) (by simp) hmaps
      rw [List.nil_append] at hres
      rw [hmaps] at h
      change scriptsOf maps _ >>= _ = _ at h
      rw [hres, scriptsOf_named _ hentries] at h
      change scriptsOf ((named (sections none [] ks)).map _) _ >>= _ = _ at h
      rw [scriptsOf_named _ hentries] at h
      obtain ⟨rfl, rfl⟩ := Prod.mk.inj (Except.ok.inj h)
      rw [hres, List.map_map] at hnodup
      exact ⟨hnodup, rfl, rfl⟩

end plain

/-- The launcher of pip, as an entry point. -/
def toEntryPoint (e : ExportEntry) : EntryPoint := ⟨e.name, e.modPrefix, e.suffix.getD []⟩

/-- The launchers of a plain file that pip accepts are the expected ones, in the
order of the two dictionaries. -/
theorem launchers_perm_expected {parseExtras : Text → Except InstallError (List Text)}
    {env : Environment} {text : Text} {ks : List (LineKind T)}
    (hks : strippedLines T text = ks.map LineKind.text) (hplain : ∀ k ∈ ks, Plain k)
    (hnames : ∀ l, LineKind.entry l ∈ ks →
      l.name ≠ "pip".toList ∧ l.name ≠ "easy_install".toList)
    {made : List ExportEntry} (hmade : launchers T parseExtras env text = .ok made) :
    (made.map toEntryPoint).Perm (expected none ks) := by
  rw [launchers] at hmade
  cases hread : getEntrypoints T parseExtras text with
  | error e =>
      rw [hread] at hmade
      cases hmade
  | ok dicts =>
      obtain ⟨console, gui⟩ := dicts
      obtain ⟨hnodup, rfl, rfl⟩ := getEntrypoints_plain hks hplain hread
      have hnot : ∀ name, (∀ l, LineKind.entry l ∈ ks → l.name ≠ name) →
          name ∉ ((linesOf (sections none [] ks) "console_scripts".toList).map
            fun l => (l.name, l.callable)).map Prod.fst := by
        intro name hname hmem
        rw [List.map_map] at hmem
        obtain ⟨l, hl, rfl⟩ := List.mem_map.mp hmem
        exact hname l (mem_of_mem_linesOf hl) rfl
      rw [hread] at hmade
      change makeMultiple T (env.specifications _ _) = _ at hmade
      rw [specifications_eq env _ (hnot _ fun l hl => (hnames l hl).1)
        (hnot _ fun l hl => (hnames l hl).2), ← List.map_append, List.map_map] at hmade
      obtain rfl := Except.ok.inj ((makeMultiple_specification _).symm.trans hmade)
      have hentry : toEntryPoint ∘ (exportOf : EntryLine T → ExportEntry) =
          EntryLine.entryPoint := rfl
      have hall := flatMap_scriptLines ks none []
      rw [Option.any_none, if_neg Bool.false_ne_true, List.nil_append] at hall
      rw [List.map_map, hentry, ← hall]
      exact (perm_linesOf hnodup).map _

/-- On a plain file that pip accepts, the launchers of pip and the entries of
get_entry_points are the same ones exactly when every entry whose header
contains the name of a script section stands under that very section. -/
theorem launchers_perm_iff (T : CharTable)
    (parseExtras : Text → Except InstallError (List Text)) (env : Environment) (text : Text)
    (ks : List (LineKind T)) (hks : strippedLines T text = ks.map LineKind.text)
    (hplain : ∀ k ∈ ks, Plain k)
    (hnames : ∀ l, LineKind.entry l ∈ ks →
      l.name ≠ "pip".toList ∧ l.name ≠ "easy_install".toList)
    {made : List ExportEntry} (hmade : launchers T parseExtras env text = .ok made) :
    (∃ es, getEntryPoints T text = .ok es ∧ (made.map toEntryPoint).Perm es) ↔
      ∀ s l, Governs LineKind.isHeader ks (.header s) (.entry l) →
        isScriptHeader ('[' :: (s ++ [']'])) = true → isScriptSection s = true := by
  have hes : getEntryPoints T text = .ok (collected (flagOf T none) ks) := by
    rw [getEntryPoints, hks]
    exact scanLines_text false ks
  have hperm := launchers_perm_expected hks hplain hnames hmade
  have hcond : (∀ s l, Governs LineKind.isHeader ks (.header s) (.entry l) →
      isScriptHeader ('[' :: (s ++ [']'])) = true → isScriptSection s = true) ↔
        collected (flagOf T none) ks = expected none ks := by
    rw [collected_eq_expected_iff]
    simp [flagOf, LineKind.text]
  rw [hcond]
  constructor
  · rintro ⟨es, hes', hsame⟩
    obtain rfl := Except.ok.inj (hes.symm.trans hes')
    exact ((expected_sublist_collected none ks).eq_of_length
      (hperm.symm.trans hsame).length_eq).symm
  · intro h
    exact ⟨_, hes, h ▸ hperm⟩

end same

/-- Python 3.8, outside of ensurepip. -/
def python38 : Environment := ⟨Char.isDigit, "3.8.0".toList, none⟩

/-- The file of a distribution with a comment and one script. -/
def plainFile : List (LineKind .ascii) :=
  [.comment '#' " scripts".toList (.inl rfl), .header "console_scripts".toList, .entry fooEntry]

def plainText : Text := "# scripts\n[console_scripts]\nfoo = bar:baz\n".toList

theorem launchers_plainText :
    launchers .ascii (fun _ => .error .valueError) python38 plainText =
      .ok [⟨"foo".toList, "bar".toList, some "baz".toList, []⟩] := by
  decide +kernel

theorem launchers_perm_plainFile :
    (∃ es, getEntryPoints .ascii plainText = .ok es ∧
        ([⟨"foo".toList, "bar".toList, some "baz".toList, []⟩].map toEntryPoint).Perm es) ↔
      ∀ s l, Governs LineKind.isHeader plainFile (.header s) (.entry l) →
        isScriptHeader ('[' :: (s ++ [']'])) = true → isScriptSection s = true := by
  have hplain : ∀ k ∈ plainFile, Plain k := by
    refine List.forall_mem_cons.mpr ⟨⟨forall_mem_of_all (by decide), rfl⟩,
      List.forall_mem_cons.mpr ⟨⟨forall_mem_of_all (by decide), by decide⟩,
        List.forall_mem_singleton.mpr ⟨forall_mem_of_all (by decide), rfl⟩⟩⟩
  refine launchers_perm_iff .ascii _ python38 plainText plainFile (by decide) hplain ?_
    launchers_plainText
  intro l hl
  obtain rfl : l = fooEntry := by simpa [plainFile] using hl
  exact ⟨by decide, by decide⟩

end Wheel
