import ThirdpartyMsvc.Launcher.Sections
import ThirdpartyMsvc.Launcher.Templates
import ThirdpartyMsvc.Python.Module

/-!
# What the Python launcher runs

A launcher should import the module of its entry, walk along the attribute path
and call what it finds. The template puts the attribute path into an import
statement, where the grammar takes a single identifier, so the launcher is a
module of Python only when the path has one component. `runsEntryPoint_iff`
states this for every entry line whose parts are identifiers; the entry pattern
reads an identifier up to its first character that is not a word character, and
that has to be all of it.
-/

namespace Launcher

open Python Regex Sections Text

/-- A line `name = M:A` with optional flags, whose module and attribute path
are dotted identifiers that are not keywords. -/
structure CallableLine (T : CharTable) where
  name : Text
  before : Text
  behind : Text
  modpath : List Text
  attrpath : List Text
  flags : Option (Flags T)
  name_ne_nil : name ≠ []
  name_chars : ∀ c ∈ name, isNameChar T c = true
  before_space : ∀ c ∈ before, T.space c = true
  behind_space : ∀ c ∈ behind, T.space c = true
  modpath_ne_nil : modpath ≠ []
  attrpath_ne_nil : attrpath ≠ []
  modpath_identifiers : ∀ p ∈ modpath, IsIdentifier T p ∧ isKeyword p = false
  attrpath_identifiers : ∀ p ∈ attrpath, IsIdentifier T p ∧ isKeyword p = false

namespace CallableLine

variable {T : CharTable} (l : CallableLine T)

def flagsText : Text := l.flags.elim [] Flags.text

def callable : Text := dotted l.modpath ++ ':' :: (dotted l.attrpath ++ l.flagsText)

def text : Text := l.name ++ (l.before ++ '=' :: (l.behind ++ l.callable))

end CallableLine

/-- The object at the end of an attribute path. -/
def attrs (o : Obj) : List Text → Obj
  | [] => o
  | a :: as => attrs (.attr o a) as

/-- The evaluation of an attribute path, one component at a time. -/
def attrEvents (o : Obj) : List Text → List Event
  | [] => []
  | a :: as => .getAttr o a :: attrEvents (.attr o a) as

/-- Running the entry point of a module: import it, follow the path, call the
object at its end. -/
def entryEvents (m as : List Text) : List Event :=
  .importModule m :: (attrEvents (.module m) as ++ [.call (attrs (.module m) as)])

/-- The text that is written for the entry `e` is a module of Python, and
running it runs the entry point `as` of the module `m`. -/
def RunsEntryPoint (T : CharTable) (e : EntryPoint) (m as : List Text) : Prop :=
  ∃ text b, format (scriptContext e) scriptSrc = some text ∧ parseModule T text = some b ∧
    b.run = some (entryEvents m as)

/-! ## Reading identifiers as words -/

section identifiers

variable {T : CharTable}

theorem not_idContinue_colon : T.idContinue ':' = false := T.idContinue_ascii ':' (by decide)

theorem isSeparator_eq_false {c : Char} (h : T.idContinue c = true) : isSeparator c = false := by
  by_contra hs
  rw [Bool.not_eq_false, isSeparator, Bool.or_eq_true, beq_iff_eq, beq_iff_eq] at hs
  rcases hs with rfl | rfl
  · rw [not_idContinue_colon] at h
    cases h
  · rw [not_idContinue_dot] at h
    cases h

theorem idContinue_of_mem {w : Text} (hw : IsIdentifier T w) {c : Char} (hc : c ∈ w) :
    T.idContinue c = true := by
  obtain ⟨a, t, rfl, ha, ht⟩ := hw
  rcases List.mem_cons.mp hc with rfl | hc
  · exact T.idContinue_of_idStart _ ha
  · exact ht c hc

/-- The part of a nonempty identifier before some later character is one. -/
theorem isIdentifier_takeWhile {w : Text} (hw : IsIdentifier T w) (p : Char → Bool)
    (hp : ∀ c ∈ w.head?, p c = true) : IsIdentifier T (w.takeWhile p) := by
  obtain ⟨a, t, rfl, ha, ht⟩ := hw
  refine ⟨a, t.takeWhile p, by rw [List.takeWhile_cons, if_pos (hp a rfl)], ha, ?_⟩
  intro d hd
  exact ht d ((List.takeWhile_prefix p).subset hd)

/-- The callable ends inside an identifier at the first character that is not a
word character. -/
theorem callableRest_identifier {w : Text} (hw : IsIdentifier T w) (rest : Text)
    (h : ¬ ∀ c ∈ w, T.word c = true) :
    callableRest T (w ++ rest) = w.takeWhile T.word := by
  have hsplit := List.takeWhile_append_dropWhile (p := T.word) (l := w)
  cases hd : w.dropWhile T.word with
  | nil =>
      refine absurd ?_ h
      simpa [List.dropWhile_eq_nil_iff] using hd
  | cons c t =>
      have hc : T.word c = false := by
        simpa [hd] using stops_dropWhile T.word w
      have hcw : c ∈ w := (List.dropWhile_suffix T.word).subset (by simp [hd])
      rw [hd] at hsplit
      have hstop : callableRest T (c :: (t ++ rest)) = [] := by
        rw [callableRest, hc, isSeparator_eq_false (idContinue_of_mem hw hcw)]
        rfl
      calc callableRest T (w ++ rest)
          = callableRest T (w.takeWhile T.word ++ c :: (t ++ rest)) := by
            rw [← List.cons_append, ← List.append_assoc, hsplit]
        _ = w.takeWhile T.word := by
            rw [callableRest_append T fun d hd => List.mem_takeWhile_imp hd, hstop,
              List.append_nil]

theorem head_dotted (ws : List Text) (hws : ∀ w ∈ ws, IsIdentifier T w) (hne : ws ≠ []) :
    ∃ a u, dotted ws = a :: u ∧ T.idStart a = true := by
  obtain ⟨w, ws, rfl⟩ := List.exists_cons_of_ne_nil hne
  obtain ⟨a, t, rfl, ha, -⟩ := hws w (by simp)
  cases ws with
  | nil => exact ⟨a, t, rfl, ha⟩
  | cons v ws => exact ⟨a, t ++ '.' :: dotted (v :: ws), rfl, ha⟩

/-- A separator is left out when no word character follows it. -/
theorem callableRest_dot_stop {b : Char} (hb : T.word b = false) (t : Text) :
    callableRest T ('.' :: b :: t) = [] := by
  have hdot : T.word '.' = false := T.word_of_ascii (by decide) false (by decide)
  rw [callableRest, hdot]
  simp [hb]

/-- The callable read off a dotted identifier is a dotted identifier, and the
whole of it only if it consists of word characters. -/
theorem callableRest_identifiers (ws : List Text) (hne : ws ≠ [])
    (hws : ∀ w ∈ ws, IsIdentifier T w) (rest : Text) (hrest : callableRest T rest = [])
    (hhead : ∀ c ∈ (dotted ws).head?, T.word c = true) :
    ∃ qs, qs ≠ [] ∧ (∀ q ∈ qs, IsIdentifier T q) ∧
      callableRest T (dotted ws ++ rest) = dotted qs ∧
      (qs = ws ↔ ∀ w ∈ ws, ∀ c ∈ w, T.word c = true) := by
  induction ws with
  | nil => exact absurd rfl hne
  | cons w ws ih =>
      have hw : IsIdentifier T w := hws w (by simp)
      by_cases hall : ∀ c ∈ w, T.word c = true
      case neg =>
        -- the callable ends inside the first component
        refine ⟨[w.takeWhile T.word], by simp, ?_, ?_, ?_⟩
        · have hwhead : ∀ c ∈ w.head?, T.word c = true := by
            obtain ⟨a, t, rfl, -, -⟩ := hw
            cases ws with
            | nil => exact hhead
            | cons v ws => simpa [dotted] using hhead
          simpa using isIdentifier_takeWhile hw T.word hwhead
        · rw [dotted_singleton]
          cases ws with
          | nil => exact callableRest_identifier hw rest hall
          | cons v ws => rw [dotted_cons_cons, List.append_assoc, callableRest_identifier hw _ hall]
        · constructor
          · intro h
            refine absurd ?_ hall
            rw [← (List.cons.inj h).1]
            exact fun c hc => List.mem_takeWhile_imp hc
          · intro h
            exact absurd (h w (by simp)) hall
      case pos =>
        cases ws with
        | nil =>
            refine ⟨[w], by simp, by simpa using hw, ?_, by simpa using hall⟩
            rw [dotted_singleton, callableRest_append T hall, hrest, List.append_nil]
        | cons v ws =>
            obtain ⟨b, u, hbu, -⟩ := head_dotted (v :: ws) (fun x hx => hws x (by simp [hx]))
              (by simp)
            have hcall : callableRest T (dotted (w :: v :: ws) ++ rest) =
                w ++ callableRest T ('.' :: b :: (u ++ rest)) := by
              rw [dotted_cons_cons, List.append_assoc, callableRest_append T hall,
                List.cons_append, hbu, List.cons_append]
            by_cases hb : T.word b = true
            · obtain ⟨qs, hqs, hid, hqcall, hiff⟩ := ih (by simp)
                (fun x hx => hws x (by simp [hx])) (by simpa [hbu] using hb)
              obtain ⟨q, qs, rfl⟩ := List.exists_cons_of_ne_nil hqs
              refine ⟨w :: q :: qs, by simp, ?_, ?_, ?_⟩
              · intro x hx
                rcases List.mem_cons.mp hx with rfl | hx
                · exact hw
                · exact hid x hx
              · rw [hcall, callableRest_component T rfl hb, ← List.cons_append, ← hbu, hqcall,
                  dotted_cons_cons]
              · rw [List.cons.injEq, hiff, List.forall_mem_cons (a := w)]
                exact ⟨fun h => ⟨hall, h.2⟩, fun h => ⟨rfl, h.2⟩⟩
            · refine ⟨[w], by simp, by simpa using hw, ?_, ?_⟩
              · rw [hcall, callableRest_dot_stop (by simpa using hb), List.append_nil,
                  dotted_singleton]
              · constructor
                · intro h
                  cases (List.cons.inj h).2
                · intro h
                  have hbv : b ∈ v := by
                    obtain ⟨c, s, rfl, -, -⟩ := hws v (by simp)
                    have hbc : b = c := by
                      have hhd := congrArg List.head? hbu
                      cases ws with
                      | nil => simpa [dotted] using hhd.symm
                      | cons x ws => simpa [dotted] using hhd.symm
                    simp [hbc]
                  exact absurd (h v (by simp) b hbv) hb

/-- A dotted identifier holds no character from outside identifiers. -/
theorem notMem_dotted_identifiers {c : Char} (hc : T.idContinue c = false) (hdot : c ≠ '.')
    (ws : List Text) (hws : ∀ w ∈ ws, IsIdentifier T w) : c ∉ dotted ws := by
  apply notMem_dotted hdot
  intro w hw hmem
  rw [idContinue_of_mem (hws w hw) hmem] at hc
  cases hc

theorem colon_notMem_dotted (ws : List Text) (hws : ∀ w ∈ ws, IsIdentifier T w) :
    ':' ∉ dotted ws :=
  notMem_dotted_identifiers not_idContinue_colon (by decide) ws hws

/-- A callable that holds the colon of its line is read on behind it. -/
theorem callableRest_colon (m t : Text) (hm : ':' ∉ m)
    (h : ':' ∈ callableRest T (m ++ ':' :: t)) :
    callableRest T (m ++ ':' :: t) = m ++ ':' :: callableRest T t ∧
      t.head?.any T.word = true := by
  induction m with
  | nil =>
      have hcolon : T.word ':' = false := T.word_of_ascii (by decide) false (by decide)
      rw [List.nil_append, callableRest, hcolon] at h ⊢
      split at h
      case isTrue ht =>
        rw [Bool.false_or, Bool.and_eq_true] at ht
        exact ⟨if_pos (by simpa using ht), ht.2⟩
      case isFalse => cases h
  | cons c m ih =>
      rw [List.cons_append, callableRest] at h ⊢
      split at h
      case isTrue hc =>
        have hne : ':' ≠ c := by
          rintro rfl
          exact hm (by simp)
        obtain ⟨hrest, ht⟩ := ih (fun hmem => hm (by simp [hmem]))
          (by simpa [hne] using h)
        rw [if_pos hc, hrest]
        exact ⟨rfl, ht⟩
      case isFalse => cases h

/-- The entry that is read off a line of identifiers has its module, and the
part of its attribute path that the pattern takes for words. -/
theorem readEntry_callableLine {l : CallableLine T} {e : EntryPoint}
    (he : readEntry T l.text = .ok (some e)) :
    e.modname = dotted l.modpath ∧
      ∃ qs, qs ≠ [] ∧ (∀ q ∈ qs, IsIdentifier T q) ∧ e.entryFunc = dotted qs ∧
        (qs = l.attrpath ↔ ∀ p ∈ l.attrpath, ∀ c ∈ p, T.word c = true) := by
  obtain ⟨callable, hm, hsplit⟩ := (readEntry_eq_some_iff T l.text e).mp he
  have hmod : ∀ p ∈ l.modpath, IsIdentifier T p := fun p hp => (l.modpath_identifiers p hp).1
  have hattr : ∀ p ∈ l.attrpath, IsIdentifier T p := fun p hp => (l.attrpath_identifiers p hp).1
  obtain ⟨a, u, hau, ha⟩ := head_dotted l.modpath hmod l.modpath_ne_nil
  have hstop : Stops T.space l.callable := by
    rw [CallableLine.callable, hau, List.cons_append, stops_cons]
    exact T.not_space_of_idContinue a (T.idContinue_of_idStart a ha)
  rw [CallableLine.text, matchEntry_assign _ _ _ _ l.name_ne_nil l.name_chars l.before_space
    l.behind_space hstop, scanCallable] at hm
  obtain ⟨c, hc, hpair⟩ := Option.map_eq_some_iff.mp hm
  obtain ⟨-, rfl⟩ := Prod.mk.inj hpair
  split at hc
  case isFalse => cases hc
  case isTrue =>
    obtain rfl := Option.some.inj hc
    have hcolon : ':' ∈ callableRest T l.callable := by
      by_contra h
      rw [List.splitOn_eq_singleton h] at hsplit
      cases (List.cons.inj hsplit).2
    obtain ⟨hrest, hhead⟩ := callableRest_colon _ _ (colon_notMem_dotted l.modpath hmod) hcolon
    obtain ⟨qs, hqs, hid, hcall, hiff⟩ := callableRest_identifiers l.attrpath
      l.attrpath_ne_nil hattr l.flagsText (callableRest_flags l.flags) (by
        obtain ⟨b, v, hbv, -⟩ := head_dotted l.attrpath hattr l.attrpath_ne_nil
        rw [hbv] at hhead ⊢
        simpa using hhead)
    rw [CallableLine.callable, hrest,
      List.splitOn_append_cons_self_of_not_mem (colon_notMem_dotted l.modpath hmod), hcall,
      List.splitOn_eq_singleton (colon_notMem_dotted qs hid)] at hsplit
    obtain ⟨hmodname, htail⟩ := List.cons.inj hsplit
    exact ⟨hmodname.symm, qs, hqs, hid, (List.cons.inj htail).1.symm, hiff⟩

end identifiers

/-! ## Reading the launcher as a module -/

section launcher

variable {T : CharTable}

theorem lexLine_comment (t : Text) : lexLine T ('#' :: t) = some ⟨0, []⟩ := by
  have hstep : lexStep T .blank '#' = some ([], .comment) := by
    simp [lexStep, lexStart, T.idStart_ascii '#' (by decide)]
  simp [lexLine, lexFrom_cons hstep, lexFrom_comment]

theorem lexLine_mainLine : lexLine T mainLine =
    some ⟨0, [.name "if".toList, .name "__name__".toList, .equals, .str "__main__".toList,
      .op ':']⟩ := by
  have hlex : lexFrom T .blank (mainLine.dropWhile (· = ' ')) =
      some [.name "if".toList, .name "__name__".toList, .equals, .str "__main__".toList,
        .op ':'] := by
    rw [lexFrom_ascii _ _ (forall_mem_of_all (by decide))]
    decide
  have hindent : (mainLine.takeWhile (· = ' ')).length = 0 := by decide
  rw [lexLine, hlex, hindent]
  rfl

/-- The lines of the block are indented by four spaces. -/
theorem lexLine_indented (t : Text) (ht : ∀ c ∈ t.head?, T.idStart c = true) :
    lexLine T ("    ".toList ++ t) = (lexFrom T .blank t).map fun ls => ⟨4, ls⟩ := by
  have hstops : Stops (fun c => decide (c = ' ')) t := by
    intro c hc
    have hs := ht c hc
    by_contra h
    obtain rfl : c = ' ' := by simpa using h
    rw [not_idStart_space] at hs
    cases hs
  have hspaces : ∀ c ∈ "    ".toList, decide (c = ' ') = true := forall_mem_of_all (by decide)
  rw [lexLine, takeWhile_append_of_stops hspaces hstops, dropWhile_append_of_stops hspaces hstops]
  rfl

theorem isIdentifier_of_isAlpha (c : Char) (t : Text)
    (h : ∀ d ∈ c :: t, d.toNat < 128 ∧ d.isAlpha = true) : IsIdentifier T (c :: t) := by
  have hc := h c (by simp)
  refine ⟨c, t, rfl, by simp [T.idStart_ascii c hc.1, hc.2], ?_⟩
  intro d hd
  have hd' := h d (by simp [hd])
  simp [T.idContinue_ascii d hd'.1, Char.isAlphanum, hd'.2]

theorem isIdentifier_from : IsIdentifier T "from".toList :=
  isIdentifier_of_isAlpha 'f' ['r', 'o', 'm'] (forall_mem_of_all (by decide))

theorem isIdentifier_import : IsIdentifier T "import".toList :=
  isIdentifier_of_isAlpha 'i' ['m', 'p', 'o', 'r', 't'] (forall_mem_of_all (by decide))

theorem not_idContinue_space : T.idContinue ' ' = false := T.idContinue_ascii ' ' (by decide)

/-- The lexemes of the import statement. -/
def importLexemes (ms qs : List Text) : List Lexeme :=
  .name "from".toList :: (dottedLexemes ms ++ .name "import".toList :: dottedLexemes qs)

/-- The lexemes of the call. -/
def callLexemes (qs : List Text) : List Lexeme := dottedLexemes qs ++ [.op '(', .op ')']

variable {ms qs : List Text} (hms : ∀ w ∈ ms, IsIdentifier T w) (hms' : ms ≠ [])
  (hqs : ∀ w ∈ qs, IsIdentifier T w) (hqs' : qs ≠ [])

include hms hqs in
theorem lexLine_importLine (e : EntryPoint) (hm : e.modname = dotted ms)
    (hf : e.entryFunc = dotted qs) : lexLine T (importLine e) = some ⟨4, importLexemes ms qs⟩ := by
  have hline : importLine e = "    ".toList ++ ("from".toList ++ ' ' ::
      (dotted ms ++ ' ' :: ("import".toList ++ ' ' :: (dotted qs ++ [])))) := by
    unfold importLine
    simp [hm, hf]
  have hspace : ∀ t : Text, ∀ c ∈ (' ' :: t).head?, T.idContinue c = false := by
    simpa using not_idContinue_space
  rw [hline, lexLine_indented _ (by simp [T.idStart_ascii 'f' (by decide)]),
    lexFrom_identifier isIdentifier_from (hspace _), lexFrom_space,
    lexFrom_dotted ms hms _ (hspace _), lexFrom_space,
    lexFrom_identifier isIdentifier_import (hspace _), lexFrom_space,
    lexFrom_dotted qs hqs [] (by simp)]
  simp [lexFrom, lexEnd, importLexemes]

include hqs hqs' in
theorem lexLine_callLine (e : EntryPoint) (hf : e.entryFunc = dotted qs) :
    lexLine T (callLine e) = some ⟨4, callLexemes qs⟩ := by
  obtain ⟨a, u, hau, ha⟩ := head_dotted qs hqs hqs'
  have hline : callLine e = "    ".toList ++ (dotted qs ++ ['(', ')']) := by
    unfold callLine
    simp [hf]
  have hparens : lexFrom T .blank ['(', ')'] = some [.op '(', .op ')'] := by
    rw [lexFrom_ascii _ _ (forall_mem_of_all (by decide))]
    decide
  rw [hline, lexLine_indented _ (by simpa [hau] using ha), lexFrom_dotted qs hqs _
    (by simp [T.idContinue_ascii '(' (by decide)]), hparens]
  rfl

/-- The lines of the launcher that hold lexemes. -/
def launcherLines (ms qs : List Text) : List Line :=
  [⟨0, [.name "if".toList, .name "__name__".toList, .equals, .str "__main__".toList, .op ':']⟩,
    ⟨4, importLexemes ms qs⟩, ⟨4, callLexemes qs⟩]

include hms hqs hqs' in
theorem lexLines_scriptText (e : EntryPoint) (hm : e.modname = dotted ms)
    (hf : e.entryFunc = dotted qs) :
    lexLines T (scriptText e) = some (launcherLines ms qs) := by
  have hlines : (scriptText e).splitOn '\n' =
      [shebangLine, generatedLine, mainLine, importLine e, callLine e] ++ [[]] := by
    apply splitOn_unlines
    have hnewline : T.idContinue '\n' = false := T.idContinue_ascii '\n' (by decide)
    have hmodname := hm ▸ notMem_dotted_identifiers hnewline (by decide) ms hms
    have hfunc := hf ▸ notMem_dotted_identifiers hnewline (by decide) qs hqs
    simp only [List.forall_mem_cons]
    refine ⟨by decide, by decide, by decide, ?_, ?_, by simp⟩
    · unfold importLine
      simp [hmodname, hfunc]
    · unfold callLine
      simp [hfunc]
  have hshebang : lexLine T shebangLine = some ⟨0, []⟩ := lexLine_comment _
  have hgenerated : lexLine T generatedLine = some ⟨0, []⟩ := lexLine_comment _
  have hend : lexLine T [] = some ⟨0, []⟩ := rfl
  rw [lexLines, hlines]
  simp only [List.cons_append, List.nil_append, List.mapM_cons, List.mapM_nil, hshebang,
    hgenerated, hend, lexLine_mainLine, lexLine_importLine hms hqs e hm hf,
    lexLine_callLine hqs hqs' e hf]
  obtain ⟨q, qs, rfl⟩ := List.exists_cons_of_ne_nil hqs'
  cases qs <;> rfl

include hms hqs hqs' in
theorem parseModule_scriptText (e : EntryPoint) (hm : e.modname = dotted ms)
    (hf : e.entryFunc = dotted qs) :
    parseModule T (scriptText e) = parseBlock 4 0 (launcherLines ms qs) := by
  rw [parseModule, lexLines_scriptText hms hqs hqs' e hm hf]
  rfl

/-- The condition of the launcher. -/
def mainTest : Expr := .equals (.name "__name__".toList) (.str "__main__".toList)

theorem parseBlock_launcherLines :
    parseBlock 4 0 (launcherLines ms qs) =
      (parseBlock 3 4 [⟨4, importLexemes ms qs⟩, ⟨4, callLexemes qs⟩]).map
        fun body => .ifThen mainTest body .nil := by
  apply parseBlock_if 2 0 _ _ _ mainTest rfl
  · decide
  · simp

/-- The launcher of an attribute path is parsed only if the path is a single
identifier, and then this is its syntax tree. -/
theorem parseBlock_launcherLines_eq_some_iff (hkey : ∀ w ∈ ms, isKeyword w = false)
    (hne : ms ≠ []) (b : Block) :
    parseBlock 4 0 (launcherLines ms qs) = some b ↔
      ∃ q, qs = [q] ∧ isKeyword q = false ∧
        b = .ifThen mainTest (.simple (.fromImport ms q)
          (.simple (.expr (.call (.name q))) .nil)) .nil := by
  have himport : parseIf (importLexemes ms qs) = none := rfl
  have hcall : ∀ q, isKeyword q = false →
      parseBlock 2 4 [⟨4, callLexemes [q]⟩] = some (.simple (.expr (.call (.name q))) .nil) := by
    intro q hq
    have hif : q ≠ "if".toList := by
      rintro rfl
      revert hq
      decide
    have hfrom : q ≠ "from".toList := by
      rintro rfl
      revert hq
      decide
    have hnot : parseIf (callLexemes [q]) = none := if_neg hif
    rw [parseBlock_simple 1 4 ⟨4, callLexemes [q]⟩ [] rfl hnot]
    simp only [callLexemes, dottedLexemes, List.cons_append, List.nil_append, parseSimple,
      if_neg hfrom, hq]
    rfl
  rw [parseBlock_launcherLines,
    parseBlock_simple 2 4 ⟨4, importLexemes ms qs⟩ [⟨4, callLexemes qs⟩] rfl himport]
  simp only [Option.map_eq_some_iff, Option.bind_eq_some_iff]
  constructor
  · rintro ⟨body, ⟨s, hs, rest, hrest, rfl⟩, rfl⟩
    obtain ⟨q, rfl, hq, rfl⟩ := (parseSimple_fromImport ms qs hne hkey s).mp hs
    rw [hcall q hq] at hrest
    obtain rfl := Option.some.inj hrest
    exact ⟨q, rfl, hq, rfl⟩
  · rintro ⟨q, rfl, hq, rfl⟩
    refine ⟨_, ⟨_, (parseSimple_fromImport ms [q] hne hkey _).mpr ⟨q, rfl, hq, rfl⟩,
      _, hcall q hq, rfl⟩, rfl⟩

/-- The events of the launcher: one attribute of the module, and its call. -/
theorem run_launcher (ms : List Text) (q : Text) :
    (Block.ifThen mainTest (.simple (.fromImport ms q)
      (.simple (.expr (.call (.name q))) .nil)) .nil).run = some (entryEvents ms [q]) := by
  have htest : mainTest.eval mainEnv = some (.bool true, []) := by decide
  have hlookup : ∀ v : Value, List.lookup q ((q, v) :: mainEnv) = some v := by
    simp
  simp [Block.run, Block.exec, Simple.exec, Expr.eval, htest, hlookup, entryEvents, attrEvents,
    attrs]

end launcher

/-- The events determine the attribute path if it has one component. -/
theorem entryEvents_eq_singleton_iff (ms as : List Text) (q : Text) :
    entryEvents ms [q] = entryEvents ms as ↔ as = [q] := by
  constructor
  · intro h
    cases as with
    | nil => simp [entryEvents, attrEvents, attrs] at h
    | cons a as =>
        cases as with
        | nil => simpa [entryEvents, attrEvents, attrs, eq_comm] using h
        | cons b as => simp [entryEvents, attrEvents, attrs] at h
  · rintro rfl
    rfl

/-- The line `foo = bar:baz`. -/
def fooLine : CallableLine .ascii where
  name := "foo".toList
  before := [' ']
  behind := [' ']
  modpath := ["bar".toList]
  attrpath := ["baz".toList]
  flags := none
  name_ne_nil := fooEntry.name_ne_nil
  name_chars := fooEntry.name_chars
  before_space := fooEntry.before_space
  behind_space := fooEntry.behind_space
  modpath_ne_nil := fooEntry.modpath.ne_nil
  attrpath_ne_nil := fooEntry.attrpath.ne_nil
  modpath_identifiers := List.forall_mem_singleton.mpr
    ⟨isIdentifier_of_isAlpha 'b' ['a', 'r'] (forall_mem_of_all (by decide)), by decide⟩
  attrpath_identifiers := List.forall_mem_singleton.mpr
    ⟨isIdentifier_of_isAlpha 'b' ['a', 'z'] (forall_mem_of_all (by decide)), by decide⟩

def fooPoint : EntryPoint := ⟨"foo".toList, "bar".toList, "baz".toList⟩

def jupyterRun : EntryPoint :=
  ⟨"jupyter-run".toList, "jupyter_client.runapp".toList, "RunApp.launch_instance".toList⟩

end Launcher
