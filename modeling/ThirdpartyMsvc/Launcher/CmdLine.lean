import ThirdpartyMsvc.Launcher.Templates
import ThirdpartyMsvc.Shell.Words

/-!
# Where a .cmd launcher may be placed

The text of WindowsCmdMaker, run from an arbitrary absolute directory with
arbitrary arguments. The directory is spliced unquoted into the set command,
the program position and the argument position, so the launcher is relocatable
to the directories whose paths have none of the characters at which a word or a
command may break.
-/

namespace Launcher

open Text Shell

/-- The characters of the components of a Windows path, and their separator. -/
def isPathChar (c : Char) : Bool :=
  32 ≤ c.toNat && !(['<', '>', '\x22', '|', '?', '*', '/', ':'].contains c)

/-- An absolute Windows directory: a drive or a network root, and the rest of
the path. -/
structure Directory where
  root : Text
  path : Text
  root_ok : (∃ d : Char, d.isAlpha = true ∧ root = [d, ':', '\\']) ∨ root = ['\\', '\\']
  path_ok : ∀ c ∈ path, isPathChar c = true

namespace Directory

def text (D : Directory) : Text := D.root ++ D.path

/-- The directory with a separator behind it. -/
def dp0 (D : Directory) : Text :=
  if D.text.getLast? = some '\\' then D.text else D.text ++ ['\\']

end Directory

/-- Two spellings of one path. -/
def SamePath (p q : Text) : Prop := p.take 2 = q.take 2 ∧ components p = components q

instance (p q : Text) : Decidable (SamePath p q) := inferInstanceAs (Decidable (_ ∧ _))

/-- The calls of the .cmd launcher of `n` in the directory `D`. -/
def cmdCalls (D : Directory) (n a : Text) : List Call := runScript D.dp0 a (cmdText n)

/-- The launcher of `n` in `D` starts the interpreter above `D` on the file `n`
in `D` and passes the arguments on, and starts nothing else. -/
def StartsPython (D : Directory) (n a : Text) : Prop :=
  ∃ call, cmdCalls D n a = [call] ∧
    SamePath call.program (D.text ++ "\\..\\python.exe".toList) ∧
    firstArgument call.tail = (D.dp0 ++ n, ' ' :: a)

/-- The characters at which a path breaks. -/
def breaking : List Char := [' ', ',', ';', '=', '&', '^']

/-! ## Characters -/

theorem isWordChar_eq_false_iff (c : Char) :
    isWordChar c = false ↔
      c ∈ ['\x22', '^', '&', '|', '<', '>', ' ', '\t', ',', ';', '='] := by
  simp only [isWordChar, isInactive, isOp, isDelim, Bool.and_eq_false_iff,
    Bool.not_eq_false', Bool.or_eq_true, beq_iff_eq, List.mem_cons, List.not_mem_nil, or_false]
  tauto

theorem isWordChar_of_isAlpha {c : Char} (hc : c.isAlpha = true) : isWordChar c = true := by
  by_contra h
  rw [Bool.not_eq_true, isWordChar_eq_false_iff] at h
  have hall : ∀ d ∈ ['\x22', '^', '&', '|', '<', '>', ' ', '\t', ',', ';', '='],
      d.isAlpha = false := forall_mem_of_all (by decide)
  rw [hall c h] at hc
  cases hc

theorem isWordChar_of_isPathChar {c : Char} (hc : isPathChar c = true) :
    isWordChar c = true ↔ c ∉ breaking := by
  constructor
  · intro hw hb
    have hall : ∀ d ∈ breaking, isWordChar d = false := forall_mem_of_all (by decide)
    rw [hall c hb] at hw
    cases hw
  · intro hb
    by_contra h
    rw [Bool.not_eq_true, isWordChar_eq_false_iff] at h
    have hall : ∀ d ∈ ['\x22', '^', '&', '|', '<', '>', ' ', '\t', ',', ';', '='],
        d ∈ breaking ∨ isPathChar d = false := forall_mem_of_all (by decide)
    rcases hall c h with h | h
    · exact hb h
    · rw [h] at hc
      cases hc

/-- The characters that may stand in the file name of a launcher. -/
def isScriptChar (c : Char) : Bool := isWordChar c && !(['%', '\n'].contains c)

theorem isScriptChar_of_isNameChar {T : CharTable} {c : Char} (hc : isNameChar T c = true) :
    isScriptChar c = true := by
  by_contra h
  have hmem : c ∈ ['\x22', '^', '&', '|', '<', '>', ' ', '\t', ',', ';', '=', '%', '\n'] := by
    rw [Bool.not_eq_true, isScriptChar, Bool.and_eq_false_iff, isWordChar_eq_false_iff] at h
    simp only [List.mem_cons, List.not_mem_nil, or_false, Bool.not_eq_false',
      List.contains_iff_mem] at h ⊢
    tauto
  have hall : ∀ d ∈ ['\x22', '^', '&', '|', '<', '>', ' ', '\t', ',', ';', '=', '%', '\n'],
      d.toNat < 128 ∧ (d.isAlphanum || d == '_') = false ∧
        (d == '-' || d == '.' || d == '+') = false := forall_mem_of_all (by decide)
  obtain ⟨hascii, hword, hpunct⟩ := hall c hmem
  rw [isNameChar, T.word_ascii c hascii, hword, hpunct] at hc
  cases hc

/-! ## The lines -/

/-- A line whose first command prints, remarks or sets the options starts nothing. -/
theorem runLine_of_quiet (dp0 args : Text) (vars : List (Text × Text)) (line : Text)
    (hpercent : '%' ∉ line) (hcommands : commands (lex false line) = [lex false line])
    (hname : (parseCommand (lex false line)).program.map Char.toLower ∈
      [['r', 'e', 'm'], ['e', 'c', 'h', 'o'], ['s', 'e', 't', 'l', 'o', 'c', 'a', 'l'], []]) :
    runLine dp0 args vars line = (vars, []) := by
  rw [runLine, expand_of_notMem _ _ hpercent, hcommands, runCommands]
  simp only [List.mem_cons, List.not_mem_nil, or_false] at hname
  rcases hname with h | h | h | h <;> simp [h, runCommands]

def setLine : Text := "set _this_dir=%~dp0".toList

theorem cmdPreamble_eq : cmdPreamble = cmdPreamble.take 5 ++ [setLine] := rfl

theorem runLines_preamble (dp0 args : Text) (lines : List Text) :
    runLines dp0 args [] (cmdPreamble.take 5 ++ lines) = runLines dp0 args [] lines := by
  have hquiet : ∀ l ∈ cmdPreamble.take 5, '%' ∉ l ∧ commands (lex false l) = [lex false l] ∧
      (parseCommand (lex false l)).program.map Char.toLower ∈
        [['r', 'e', 'm'], ['e', 'c', 'h', 'o'], ['s', 'e', 't', 'l', 'o', 'c', 'a', 'l'], []] := by
    decide +kernel
  generalize cmdPreamble.take 5 = ls at hquiet
  induction ls with
  | nil => rfl
  | cons l ls ih =>
      obtain ⟨hpercent, hcommands, hname⟩ := hquiet l (by simp)
      rw [List.cons_append, runLines, runLine_of_quiet dp0 args [] l hpercent hcommands hname,
        List.nil_append, ih fun l' hl' => hquiet l' (by simp [hl'])]

theorem runScript_cmdText (dp0 args n : Text) (hn : '\n' ∉ n) :
    runScript dp0 args (cmdText n) =
      (runLine dp0 args [] setLine).2 ++
        (runLine dp0 args (runLine dp0 args [] setLine).1 (commandLine n)).2 := by
  have hpreamble : ∀ l ∈ cmdPreamble, '\n' ∉ l := by decide +kernel
  have hcommand : '\n' ∉ commandLine n := by
    have hexe : '\n' ∉ pyExecutable := by decide +kernel
    unfold commandLine
    simp [hexe, hn]
  have hsplit : (cmdText n).splitOn '\n' = cmdPreamble ++ [commandLine n] ++ [[]] := by
    apply splitOn_unlines
    intro l hl
    rcases List.mem_append.mp hl with hl | hl
    · exact hpreamble l hl
    · rw [List.mem_singleton.mp hl]
      exact hcommand
  have hend : ∀ vars, runLine dp0 args vars [] = (vars, []) := fun vars =>
    runLine_of_quiet dp0 args vars [] (by simp) rfl (by decide)
  rw [runScript, hsplit, cmdPreamble_eq, List.append_assoc, List.append_assoc, runLines_preamble]
  simp [runLines, hend]

def exeTail : Text := ['\\', '.', '.', '\\', 'p', 'y', 't', 'h', 'o', 'n', '.', 'e', 'x']

theorem python_exe : "\\..\\python.exe".toList = exeTail ++ ['e'] := rfl

theorem expand_setLine (dp0 args : Text) (vars : List (Text × Text)) :
    expand ⟨dp0, args, vars⟩ setLine = "set _this_dir=".toList ++ dp0 := by
  have hset : setLine = "set _this_dir=".toList ++ "%~dp0".toList := rfl
  have hpercent : '%' ∉ "set _this_dir=".toList := by decide +kernel
  rw [expand, hset, expandFrom_append _ _ _ hpercent]
  simp [expandFrom]

theorem expand_commandLine (dp0 args n : Text) (vars : List (Text × Text)) (hn : '%' ∉ n) :
    expand ⟨dp0, args, vars⟩ (commandLine n) =
      dp0 ++ (exeTail ++ 'e' :: ' ' ::
        (Env.var ⟨dp0, args, vars⟩ "_this_dir".toList ++ (n ++ ' ' :: args))) := by
  have hline : commandLine n =
      '%' :: '~' :: 'd' :: 'p' :: '0' :: (exeTail ++ ['e', ' '] ++
        ('%' :: "_this_dir".toList ++ '%' :: (n ++ " %*".toList))) := rfl
  have htail : '%' ∉ exeTail ++ ['e', ' '] := by decide
  rw [expand, hline, expandFrom, expandFrom_append _ _ _ htail]
  have hvar : ∀ t : Text, expandFrom ⟨dp0, args, vars⟩ none ('%' :: "_this_dir".toList ++ '%' :: t) =
      Env.var ⟨dp0, args, vars⟩ "_this_dir".toList ++ expandFrom ⟨dp0, args, vars⟩ none t := by
    intro t
    simp [expandFrom]
  rw [hvar, expandFrom_append _ _ _ hn]
  simp [expandFrom]

/-! ## Directories without breaking characters -/

theorem runLine_setLine (dp0 args : Text) (hdp0 : ∀ c ∈ dp0, isWordChar c = true) :
    runLine dp0 args [] setLine = ([("_this_dir".toList, dp0)], []) := by
  have hchars : ∀ c ∈ "set _this_dir=".toList ++ dp0, isInactive c = true := by
    intro c hc
    rcases List.mem_append.mp hc with hc | hc
    · have hall : ∀ c ∈ "set _this_dir=".toList, isInactive c = true :=
        forall_mem_of_all (by decide +kernel)
      exact hall c hc
    · exact ((isWordChar_iff c).mp (hdp0 c hc)).1
  have hlex : lex false ("set _this_dir=".toList ++ dp0) =
      ("set _this_dir=".toList ++ dp0).map .plain := by
    have h := lex_append _ [] hchars
    rwa [List.append_nil, lex, List.append_nil] at h
  have hop := isOperator_of_mem_map_plain ("set _this_dir=".toList ++ dp0)
  have hcall : parseCommand (("set _this_dir=".toList ++ dp0).map .plain) =
      ⟨['s', 'e', 't'], " _this_dir=".toList ++ dp0⟩ := by
    have h := parseCommand_append (['s', 'e', 't'].map .plain)
      ((" _this_dir=".toList ++ dp0).map .plain) (by simp [Sym.isOperator, Sym.delimits, isDelim])
      (by simp) (by simp) (by simp [Sym.delimits, isDelim])
    rw [dropRedirects_of_not_isOperator _ (isOperator_of_mem_map_plain _), chars_map_plain,
      chars_map_plain, ← List.map_append] at h
    exact h
  have hname : (['s', 'e', 't'] : Text).map Char.toLower = ['s', 'e', 't'] := rfl
  rw [runLine, expand_setLine, hlex, commands_of_not_separates _ fun s hs =>
    separates_of_not_isOperator (hop s hs), runCommands, hcall]
  have hassign : assignment (" _this_dir=".toList ++ dp0) = ("_this_dir".toList, dp0) := by
    simp [assignment, isDelim]
  simp only [hname, hassign]
  rfl

/-- What a command line of which `a` is the end passes on of it. -/
def passed (a : Text) : Text :=
  chars (dropRedirects .none ((lex false a).takeWhile fun s => !s.separates))

theorem passed_eq_iff (a : Text) : passed a = a ↔ hasActive false a = false := by
  constructor
  · intro h
    by_contra hactive
    have hlt := length_chars_lex_lt false a (by simpa using hactive)
    have htake : ((lex false a).takeWhile fun s : Sym => !s.separates).Sublist (lex false a) :=
      List.takeWhile_sublist _
    have hsub := ((sublist_dropRedirects .none _).trans htake).filterMap Sym.char
    have hle := hsub.length_le
    change (passed a).length ≤ (chars (lex false a)).length at hle
    rw [h] at hle
    omega
  · intro h
    obtain ⟨hop, hchars⟩ := lex_of_not_hasActive false a h
    have htake : (lex false a).takeWhile (fun s => !s.separates) = lex false a := by
      rw [List.takeWhile_eq_self_iff]
      intro s hs
      rw [separates_of_not_isOperator (hop s hs)]
      rfl
    rw [passed, htake, dropRedirects_of_not_isOperator _ hop, hchars]

namespace Directory

variable (D : Directory)

theorem exists_root : ∃ (x y : Char) (r : Text), D.root = x :: y :: r ∧
    isWordChar x = true ∧ x ≠ '@' ∧ (y = ':' ∨ y = '\\') ∧ ∀ c ∈ r, c = '\\' := by
  rcases D.root_ok with ⟨d, hd, hroot⟩ | hroot
  · refine ⟨d, ':', ['\\'], hroot, isWordChar_of_isAlpha hd, ?_, .inl rfl, by simp⟩
    rintro rfl
    exact absurd hd (by decide)
  · exact ⟨'\\', '\\', [], hroot, by decide, by decide, .inr rfl, by simp⟩

theorem dp0_eq : ∃ sep : Text, D.dp0 = D.text ++ sep ∧
    (sep = [] ∨ sep = ['\\'] ∧ D.text.getLast? ≠ some '\\') := by
  by_cases h : D.text.getLast? = some '\\'
  · exact ⟨[], by rw [dp0, if_pos h, List.append_nil], .inl rfl⟩
  · exact ⟨['\\'], by rw [dp0, if_neg h], .inr ⟨rfl, h⟩⟩

/-- The directory with a separator behind it, character by character. -/
theorem exists_dp0 : ∃ (x y : Char) (p : Text), D.dp0 = x :: y :: p ∧
    isWordChar x = true ∧ x ≠ '@' ∧ (y = ':' ∨ y = '\\') ∧
    (∀ c ∈ p, isWordChar c = true ∨ c ∈ breaking) ∧ (∀ c, c ∈ breaking → (c ∈ D.text ↔ c ∈ p)) := by
  obtain ⟨x, y, r, hroot, hx, hat, hy, hr⟩ := D.exists_root
  obtain ⟨sep, hdp0, hsep⟩ := D.dp0_eq
  have hsepmem : ∀ c ∈ sep, c = '\\' := by
    rcases hsep with rfl | ⟨rfl, -⟩ <;> simp
  have hslash : '\\' ∉ breaking := by decide
  refine ⟨x, y, r ++ (D.path ++ sep), ?_, hx, hat, hy, ?_, ?_⟩
  · rw [hdp0, text, hroot]
    simp
  · intro c hc
    rcases List.mem_append.mp hc with hc | hc
    · exact .inl (hr c hc ▸ by decide)
    · rcases List.mem_append.mp hc with hc | hc
      · by_cases hb : c ∈ breaking
        · exact .inr hb
        · exact .inl ((isWordChar_of_isPathChar (D.path_ok c hc)).mpr hb)
      · exact .inl (hsepmem c hc ▸ by decide)
  · intro c hc
    have hne : c ≠ '\\' := fun h => hslash (h ▸ hc)
    have hcr : c ∉ r := fun h => hne (hr c h)
    have hcs : c ∉ sep := fun h => hne (hsepmem c h)
    have hword : ∀ d ∈ breaking, isWordChar d = false := forall_mem_of_all (by decide)
    have hcx : c ≠ x := by
      rintro rfl
      rw [hword c hc] at hx
      cases hx
    have hcy : c ≠ y := by
      rcases hy with rfl | rfl
      · rintro rfl
        exact absurd hc (by decide)
      · exact hne
    rw [text, hroot]
    simp [hcx, hcy, hcr, hcs]

theorem isWordChar_dp0 (hD : ∀ c ∈ D.text, c ∉ breaking) :
    ∀ c ∈ D.dp0, isWordChar c = true := by
  obtain ⟨x, y, p, hdp0, hx, -, hy, hp, hbreaking⟩ := D.exists_dp0
  intro c hc
  rw [hdp0, List.mem_cons, List.mem_cons] at hc
  rcases hc with rfl | rfl | hc
  · exact hx
  · rcases hy with rfl | rfl <;> decide
  · exact (hp c hc).resolve_right fun hb => hD c ((hbreaking c hb).mpr hc) hb

theorem samePath_dp0 (D : Directory) :
    SamePath (D.dp0 ++ (exeTail ++ ['e'])) (D.text ++ (exeTail ++ ['e'])) := by
  obtain ⟨sep, hdp0, hsep⟩ := D.dp0_eq
  obtain ⟨x, y, r, hroot, -⟩ := D.exists_root
  have htake : ∀ t : Text, (D.text ++ t).take 2 = [x, y] := by
    intro t
    rw [text, hroot]
    rfl
  rw [hdp0, List.append_assoc]
  refine ⟨by rw [htake, htake], ?_⟩
  rcases hsep with rfl | ⟨rfl, -⟩
  · rfl
  · exact componentsFrom_append_slash [] D.text _

end Directory

/-- The command line starts a program, which is lighter than the interpreter's
path when the directory has a breaking character. -/
theorem exists_call (D : Directory) (vars : List (Text × Text)) (u : Text) :
    ∃ call rest,
      (runCommands vars (commands (lex false (D.dp0 ++ (exeTail ++ 'e' :: ' ' :: u))))).2 =
        call :: rest ∧
      ((∃ c ∈ D.text, c ∈ breaking) →
        weight call.program < weight (D.dp0 ++ (exeTail ++ ['e']))) := by
  obtain ⟨x, y, p, hdp0, hx, hat, hy, hp, hbreaking⟩ := D.exists_dp0
  have hxi := (isWordChar_iff x).mp hx
  have hyw : isWordChar y = true := by
    rcases hy with rfl | rfl <;> decide
  have hyi := (isWordChar_iff y).mp hyw
  have htail : ∀ c ∈ exeTail, isWordChar c = true := forall_mem_of_all (by decide)
  have hbreak : ∀ c ∈ breaking, (isWordChar c = true ∨ isDelim c = true ∨ c = '&') ∨ c = '^' :=
    forall_mem_of_all (by decide)
  obtain ⟨pre, hpre⟩ := exists_firstWord u (p ++ exeTail) fun c hc =>
    (List.mem_append.mp hc).elim
      (fun hc => (hp c hc).elim (fun hw => .inl (.inl hw)) (hbreak c))
      fun hc => .inl (.inl (htail c hc))
  obtain ⟨s, rest, hline, hs⟩ := hpre.line
  have hlex : lex false (D.dp0 ++ (exeTail ++ 'e' :: ' ' :: u)) =
      .plain x :: .plain y :: (pre ++ s :: rest) := by
    rw [← hline, hdp0, List.cons_append, List.cons_append, lex_cons _ hxi.1, lex_cons _ hyi.1,
      List.append_assoc]
  have hword : ∀ z ∈ .plain x :: .plain y :: pre, z.isOperator = false ∧ z.delimits = false :=
    List.forall_mem_cons.mpr ⟨⟨rfl, hxi.2⟩, List.forall_mem_cons.mpr ⟨⟨rfl, hyi.2⟩, hpre.word⟩⟩
  -- the first command is the word, with or without the delimiter behind it
  obtain ⟨more, hmore, hhead⟩ : ∃ more : List Sym,
      (Sym.plain x :: .plain y :: (pre ++ s :: rest)).takeWhile (fun s => !s.separates) =
        (.plain x :: .plain y :: pre) ++ more ∧ ∀ z ∈ more.head?, z.delimits = true := by
    refine ⟨(s :: rest).takeWhile (fun s => !s.separates), ?_, ?_⟩
    · rw [← List.cons_append, ← List.cons_append, List.takeWhile_append_of_pos]
      intro z hz
      rw [separates_of_not_isOperator (hword z hz).1]
      rfl
    · rcases hs with hs | hs
      · have hsep : s.separates = false := by
          cases s with
          | plain c => rfl
          | inert c => rfl
          | op c => simp [Sym.delimits] at hs
        simp [hsep, hs]
      · simp [hs]
  have hcall := parseCommand_append _ more hword (by simpa using hat) (by simp) hhead
  have hquote : ∀ z, isWordChar z = true → z ≠ '\x22' := by
    rintro z hz rfl
    exact absurd hz (by decide)
  have hprogram : (parseCommand ((.plain x :: .plain y :: pre) ++ more)).program =
      x :: y :: (chars pre).filter (· ≠ '\x22') := by
    rw [hcall, chars_cons_plain, chars_cons_plain]
    simp [hquote x hx, hquote y hyw]
  obtain ⟨others, hcommands⟩ := commands_eq_cons (.plain x :: .plain y :: (pre ++ s :: rest))
  rw [hlex, hcommands, hmore, runCommands_cons vars _ others hprogram hy]
  refine ⟨_, _, rfl, ?_⟩
  rintro ⟨c, hc, hb⟩
  have hall : ∀ d ∈ breaking, isWordChar d = false := forall_mem_of_all (by decide)
  have hlt := hpre.weight_le_of ⟨c, List.mem_append_left _ ((hbreaking c hb).mp hc), hall c hb⟩
  have hfilter := weight_filter_le (· ≠ '\x22') (chars pre)
  have hsplit : ∀ q : Text, weight (x :: y :: q) = weight [x, y] + weight q :=
    weight_append [x, y]
  have hpath : weight (D.dp0 ++ (exeTail ++ ['e'])) =
      weight [x, y] + weight (p ++ exeTail) + 1 := by
    have hexe : weight (exeTail ++ ['e']) = weight exeTail + 1 := by decide
    rw [hdp0, List.cons_append, List.cons_append, hsplit, weight_append, weight_append p, hexe]
    omega
  rw [hprogram, hsplit, hpath]
  omega

/-- The calls of the command line in a directory without breaking characters. -/
theorem exists_commandLine_calls (D : Directory) (hD : ∀ c ∈ D.dp0, isWordChar c = true)
    (vars : List (Text × Text)) (n a : Text) (hn : ∀ c ∈ n, isWordChar c = true) :
    ∃ rest,
      (runCommands vars (commands (lex false
        (D.dp0 ++ (exeTail ++ 'e' :: ' ' :: (D.dp0 ++ (n ++ ' ' :: a))))))).2 =
        ⟨D.dp0 ++ (exeTail ++ ['e']), ' ' :: (D.dp0 ++ n ++ ' ' :: passed a)⟩ :: rest ∧
      (hasActive false a = false → rest = []) := by
  obtain ⟨x, y, p, hdp0, hx, hat, hy, -⟩ := D.exists_dp0
  have htail : ∀ c ∈ exeTail ++ ['e'], isWordChar c = true := forall_mem_of_all (by decide)
  have hexe : ∀ c ∈ D.dp0 ++ (exeTail ++ ['e']), isWordChar c = true := by
    intro c hc
    exact (List.mem_append.mp hc).elim (hD c) (htail c)
  have hscript : ∀ c ∈ D.dp0 ++ n, isWordChar c = true := by
    intro c hc
    exact (List.mem_append.mp hc).elim (hD c) (hn c)
  have hinactive : ∀ w : Text, (∀ c ∈ w, isWordChar c = true) → ∀ c ∈ w, isInactive c = true :=
    fun w hw c hc => ((isWordChar_iff c).mp (hw c hc)).1
  have hblank : isInactive ' ' = true := by decide
  set middle : List Sym := (' ' :: (D.dp0 ++ n ++ [' '])).map .plain with hmiddle
  have hlex : lex false (D.dp0 ++ (exeTail ++ 'e' :: ' ' :: (D.dp0 ++ (n ++ ' ' :: a)))) =
      (D.dp0 ++ (exeTail ++ ['e'])).map .plain ++ (middle ++ lex false a) := by
    have hline : D.dp0 ++ (exeTail ++ 'e' :: ' ' :: (D.dp0 ++ (n ++ ' ' :: a))) =
        (D.dp0 ++ (exeTail ++ ['e'])) ++ ' ' :: ((D.dp0 ++ n) ++ ' ' :: a) := by simp
    rw [hline, lex_append _ _ (hinactive _ hexe), lex_cons _ hblank,
      lex_append _ _ (hinactive _ hscript), lex_cons _ hblank, hmiddle]
    simp
  have hmiddleop := isOperator_of_mem_map_plain (' ' :: (D.dp0 ++ n ++ [' ']))
  rw [← hmiddle] at hmiddleop
  have hexeop := isOperator_of_mem_map_plain (D.dp0 ++ (exeTail ++ ['e']))
  have hsep : ∀ s : Sym, s.isOperator = false → (!s.separates) = true := by
    intro s hs
    rw [separates_of_not_isOperator hs]
    rfl
  have hfirst : ((D.dp0 ++ (exeTail ++ ['e'])).map Sym.plain ++
      (middle ++ lex false a)).takeWhile (fun s => !s.separates) =
      (D.dp0 ++ (exeTail ++ ['e'])).map .plain ++
        (middle ++ (lex false a).takeWhile fun s => !s.separates) := by
    rw [List.takeWhile_append_of_pos fun s hs => hsep s (hexeop s hs),
      List.takeWhile_append_of_pos fun s hs => hsep s (hmiddleop s hs)]
  have hcall := parseCommand_append ((D.dp0 ++ (exeTail ++ ['e'])).map .plain)
    (middle ++ (lex false a).takeWhile fun s => !s.separates)
    (by
      intro s hs
      obtain ⟨c, hc, rfl⟩ := List.mem_map.mp hs
      exact ⟨rfl, ((isWordChar_iff c).mp (hexe c hc)).2⟩)
    (by simpa [hdp0] using hat) (by simp [exeTail]) (by simp [hmiddle, Sym.delimits, isDelim])
  have hnoquote : (D.dp0 ++ (exeTail ++ ['e'])).filter (· ≠ '\x22') =
      D.dp0 ++ (exeTail ++ ['e']) := by
    rw [List.filter_eq_self]
    intro c hc
    have hquote : c ≠ '\x22' := by
      rintro rfl
      exact absurd (hexe _ hc) (by decide)
    simpa using hquote
  have htext : ' ' :: (D.dp0 ++ n ++ [' ']) ++ passed a = ' ' :: (D.dp0 ++ n ++ ' ' :: passed a) := by
    simp
  rw [chars_map_plain, hnoquote, dropRedirects_append _ _ hmiddleop, chars_append, hmiddle,
    chars_map_plain, ← hmiddle] at hcall
  change _ = Call.mk _ (' ' :: (D.dp0 ++ n ++ [' ']) ++ passed a) at hcall
  rw [htext] at hcall
  obtain ⟨others, hcommands⟩ := commands_eq_cons
    ((D.dp0 ++ (exeTail ++ ['e'])).map .plain ++ (middle ++ lex false a))
  rw [hfirst] at hcommands
  have hprogram : (parseCommand ((D.dp0 ++ (exeTail ++ ['e'])).map .plain ++
      (middle ++ (lex false a).takeWhile fun s => !s.separates))).program =
      x :: y :: (p ++ (exeTail ++ ['e'])) := by
    rw [hcall, hdp0]
    rfl
  rw [hlex, hcommands, runCommands_cons vars _ others hprogram hy, hcall]
  refine ⟨_, rfl, fun ha => ?_⟩
  have hsingle := commands_of_not_separates
    ((D.dp0 ++ (exeTail ++ ['e'])).map .plain ++ (middle ++ lex false a)) (by
      intro s hs
      apply separates_of_not_isOperator
      rcases List.mem_append.mp hs with hs | hs
      · exact hexeop s hs
      · rcases List.mem_append.mp hs with hs | hs
        · exact hmiddleop s hs
        · exact (lex_of_not_hasActive false a ha).1 s hs)
  rw [hcommands] at hsingle
  rw [(List.cons_eq_cons.mp hsingle).2, runCommands]

/-! ## Relocatability -/

theorem var_this_dir (dp0 args : Text) :
    Env.var ⟨dp0, args, [("_this_dir".toList, dp0)]⟩ "_this_dir".toList = dp0 := by
  simp [Env.var]

/-- The calls of the launcher, with the value of `_this_dir` that its set
command leaves behind. -/
theorem cmdCalls_eq (D : Directory) (n a : Text) (hn : ∀ c ∈ n, isScriptChar c = true) :
    ∃ vars v, cmdCalls D n a = (runLine D.dp0 a [] setLine).2 ++
        (runCommands vars (commands (lex false
          (D.dp0 ++ (exeTail ++ 'e' :: ' ' :: (v ++ (n ++ ' ' :: a))))))).2 ∧
      ((∀ c ∈ D.text, c ∉ breaking) → (runLine D.dp0 a [] setLine).2 = [] ∧ v = D.dp0) := by
  have hpercent : '%' ∉ n := fun h => absurd (hn _ h) (by decide)
  have hnewline : '\n' ∉ n := fun h => absurd (hn _ h) (by decide)
  refine ⟨(runLine D.dp0 a [] setLine).1,
    Env.var ⟨D.dp0, a, (runLine D.dp0 a [] setLine).1⟩ "_this_dir".toList, ?_, fun hD => ?_⟩
  · rw [cmdCalls, runScript_cmdText _ _ _ hnewline]
    conv_lhs => rw [runLine.eq_1 D.dp0 a _ (commandLine n), expand_commandLine _ _ _ _ hpercent]
  · rw [runLine_setLine _ _ (D.isWordChar_dp0 hD)]
    exact ⟨rfl, var_this_dir _ _⟩

theorem firstArgument_script (D : Directory) (hD : ∀ c ∈ D.text, c ∉ breaking) (n t : Text)
    (hn : ∀ c ∈ n, isWordChar c = true) :
    firstArgument (' ' :: (D.dp0 ++ n ++ ' ' :: t)) = (D.dp0 ++ n, ' ' :: t) := by
  obtain ⟨x, y, p, hdp0, -⟩ := D.exists_dp0
  refine firstArgument_append _ _ (by simp [hdp0]) (fun c hc => ?_) (by simp [isBlank])
  exact (List.mem_append.mp hc).elim (D.isWordChar_dp0 hD c) (hn c)

theorem isWordChar_of_isScriptChar {n : Text} (hn : ∀ c ∈ n, isScriptChar c = true) :
    ∀ c ∈ n, isWordChar c = true := by
  intro c hc
  have h := hn c hc
  rw [isScriptChar, Bool.and_eq_true] at h
  exact h.1

/-- A launcher that starts nothing but the interpreter is in a directory without
breaking characters, and starts it on its script. -/
theorem firstArgument_of_cmdCalls {D : Directory} {n a : Text}
    (hn : ∀ c ∈ n, isScriptChar c = true) {call : Call} (hcall : cmdCalls D n a = [call])
    (hpath : SamePath call.program (D.text ++ "\\..\\python.exe".toList)) :
    (∀ c ∈ D.text, c ∉ breaking) ∧ firstArgument call.tail = (D.dp0 ++ n, ' ' :: passed a) := by
  have hword := isWordChar_of_isScriptChar hn
  obtain ⟨vars, v, hcalls, hclean⟩ := cmdCalls_eq D n a hn
  rw [python_exe] at hpath
  obtain ⟨call', rest, hline, hlight⟩ := exists_call D vars (v ++ (n ++ ' ' :: a))
  rw [hcalls, hline] at hcall
  obtain ⟨hset, hcall'⟩ : (runLine D.dp0 a [] setLine).2 = [] ∧ call' :: rest = [call] := by
    cases hset : (runLine D.dp0 a [] setLine).2 with
    | nil =>
        rw [hset] at hcall
        exact ⟨rfl, hcall⟩
    | cons c cs =>
        rw [hset] at hcall
        simp at hcall
  obtain ⟨rfl, rfl⟩ := List.cons_eq_cons.mp hcall'
  have hD : ∀ c ∈ D.text, c ∉ breaking := by
    intro c hc hb
    have hlt := hlight ⟨c, hc, hb⟩
    rw [weight_eq_of_components_eq (D.samePath_dp0).2,
      ← weight_eq_of_components_eq hpath.2] at hlt
    exact lt_irrefl _ hlt
  obtain ⟨rest', hline', -⟩ := exists_commandLine_calls D (D.isWordChar_dp0 hD) vars n a hword
  rw [(hclean hD).2, hline'] at hline
  obtain ⟨rfl, -⟩ := List.cons_eq_cons.mp hline
  exact ⟨hD, firstArgument_script D hD n _ hword⟩

/-- Where the launcher of `n` starts the interpreter on `n`, and with which
arguments. -/
theorem startsPython_iff (D : Directory) (n a : Text) (hn : ∀ c ∈ n, isScriptChar c = true) :
    StartsPython D n a ↔ (∀ c ∈ D.text, c ∉ breaking) ∧ hasActive false a = false := by
  have hword := isWordChar_of_isScriptChar hn
  constructor
  · rintro ⟨call, hcall, hpath, hfirst⟩
    obtain ⟨hD, hfirst'⟩ := firstArgument_of_cmdCalls hn hcall hpath
    rw [hfirst', Prod.mk.injEq, List.cons_inj_right] at hfirst
    exact ⟨hD, (passed_eq_iff a).mp hfirst.2⟩
  · rintro ⟨hD, ha⟩
    obtain ⟨vars, v, hcalls, hclean⟩ := cmdCalls_eq D n a hn
    obtain ⟨rest, hline, hrest⟩ := exists_commandLine_calls D (D.isWordChar_dp0 hD) vars n a hword
    obtain ⟨hset, rfl⟩ := hclean hD
    rw [StartsPython, hcalls, python_exe, hset, hline, hrest ha, (passed_eq_iff a).mpr ha]
    exact ⟨_, rfl, D.samePath_dp0, firstArgument_script D hD n a hword⟩

/-- The .cmd launcher of an entry point works from a directory, with arguments
`a`, if and only if the directory has no breaking character and `a` no active
operator or caret. -/
theorem startsPython_entryPoint_iff (T : CharTable) (text : Text) {es : List EntryPoint}
    (hes : getEntryPoints T text = .ok es) {e : EntryPoint} (he : e ∈ es) (D : Directory)
    (a : Text) :
    StartsPython D e.name a ↔ (∀ c ∈ D.text, c ∉ breaking) ∧ hasActive false a = false :=
  startsPython_iff D e.name a fun c hc =>
    isScriptChar_of_isNameChar ((name_of_mem_getEntryPoints hes he).2 c hc)

/-! ## Directories that work and directories that do not -/

def pipMainText : Text := "[console_scripts]\npip = pip:main\n".toList

def pipEntry : EntryPoint := ⟨"pip".toList, "pip".toList, "main".toList⟩

theorem getEntryPoints_pipMainText : getEntryPoints .ascii pipMainText = .ok [pipEntry] := by
  decide +kernel

def mantidScripts : Directory where
  root := ['C', ':', '\\']
  path := "Mantid\\Scripts".toList
  root_ok := .inl ⟨'C', by decide, rfl⟩
  path_ok := forall_mem_of_all (by decide +kernel)

theorem startsPython_mantidScripts :
    StartsPython mantidScripts pipEntry.name "--version".toList ↔
      (∀ c ∈ mantidScripts.text, c ∉ breaking) ∧ hasActive false "--version".toList = false :=
  startsPython_entryPoint_iff .ascii pipMainText getEntryPoints_pipMainText (by simp) mantidScripts
    "--version".toList

def programFiles : Directory where
  root := ['C', ':', '\\']
  path := "Program Files\\Python\\Scripts".toList
  root_ok := .inl ⟨'C', by decide, rfl⟩
  path_ok := forall_mem_of_all (by decide +kernel)

/-- From a directory with a space in its path the launcher of pip starts
another program. -/
theorem not_startsPython_programFiles :
    getEntryPoints .ascii pipMainText = .ok [pipEntry] ∧
      ¬ StartsPython programFiles pipEntry.name [] := by
  refine ⟨getEntryPoints_pipMainText, fun h => ?_⟩
  have hname : ∀ c ∈ pipEntry.name, isScriptChar c = true := forall_mem_of_all (by decide +kernel)
  have hspace : ' ' ∈ programFiles.text ∧ ' ' ∈ breaking := by decide +kernel
  exact ((startsPython_iff _ _ _ hname).mp h).1 ' ' hspace.1 hspace.2

end Launcher
