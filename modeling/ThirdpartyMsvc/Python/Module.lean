import ThirdpartyMsvc.Text.Basic
import Mathlib.Data.List.TakeWhile

/-!
# Small Python modules

The part of Python's grammar that a generated launcher can reach, with its
meaning: comments, `from … import …` with a dotted module and one name, `if`
with a comparison and an indented block, and expressions made of names, strings,
attributes and calls without arguments. The lexer is a machine that reads one
character at a time. Execution yields the observable events in order: imports,
evaluated attributes and calls.
-/

namespace Python

/-! ## Lines and lexemes -/

inductive Lexeme where
  | name (w : Text)
  | str (s : Text)
  | op (c : Char)
  | equals
deriving DecidableEq, Repr

/-- The keywords of Python 3.8. -/
def keywords : List Text :=
  ["False".toList, "None".toList, "True".toList, "and".toList, "as".toList, "assert".toList,
    "async".toList, "await".toList, "break".toList, "class".toList, "continue".toList,
    "def".toList, "del".toList, "elif".toList, "else".toList, "except".toList,
    "finally".toList, "for".toList, "from".toList, "global".toList, "if".toList,
    "import".toList, "in".toList, "is".toList, "lambda".toList, "nonlocal".toList,
    "not".toList, "or".toList, "pass".toList, "raise".toList, "return".toList, "try".toList,
    "while".toList, "with".toList, "yield".toList]

def isKeyword (w : Text) : Bool := keywords.contains w

/-- The shape of an identifier, keywords included. -/
def IsIdentifier (T : CharTable) (w : Text) : Prop :=
  ∃ c t, w = c :: t ∧ T.idStart c = true ∧ ∀ d ∈ t, T.idContinue d = true

/-- What the lexer is in the middle of; the characters of a name or of a string
stand last first. -/
inductive LexState where
  | blank
  | name (w : Text)
  | str (s : Text)
  | equal
  | comment
deriving DecidableEq, Repr

/-- The next character when no lexeme is open. -/
def lexStart (T : CharTable) (c : Char) : Option (List Lexeme × LexState) :=
  if T.idStart c then some ([], .name [c])
  else if c = ' ' then some ([], .blank)
  else if c = '\'' then some ([], .str [])
  else if c = '=' then some ([], .equal)
  else if c = '#' then some ([], .comment)
  else if c = '.' ∨ c = '(' ∨ c = ')' ∨ c = ':' then some ([.op c], .blank)
  else none

def lexStep (T : CharTable) : LexState → Char → Option (List Lexeme × LexState)
  | .blank, c => lexStart T c
  | .name w, c =>
      if T.idContinue c then some ([], .name (c :: w))
      else (lexStart T c).map fun (ls, s) => (.name w.reverse :: ls, s)
  | .str s, c =>
      if c = '\'' then some ([.str s.reverse], .blank)
      else if c = '\\' then none
      else some ([], .str (c :: s))
  | .equal, c => if c = '=' then some ([.equals], .blank) else none
  | .comment, _ => some ([], .comment)

/-- The end of the line. -/
def lexEnd : LexState → Option (List Lexeme)
  | .blank => some []
  | .name w => some [.name w.reverse]
  | .str _ => none
  | .equal => none
  | .comment => some []

/-- The lexemes of the rest of a line. -/
def lexFrom (T : CharTable) : LexState → Text → Option (List Lexeme)
  | s, [] => lexEnd s
  | s, c :: t => (lexStep T s c).bind fun (ls, s') => (lexFrom T s' t).map (ls ++ ·)

/-- A line of a module, with the width of its indentation. -/
structure Line where
  indent : ℕ
  lexemes : List Lexeme
deriving DecidableEq, Repr

def lexLine (T : CharTable) (t : Text) : Option Line :=
  (lexFrom T .blank (t.dropWhile (· = ' '))).map fun ls =>
    ⟨(t.takeWhile (· = ' ')).length, ls⟩

/-- The lines of a module, without those that hold no lexeme. -/
def lexLines (T : CharTable) (text : Text) : Option (List Line) :=
  ((text.splitOn '\n').mapM (lexLine T)).map fun ls => ls.filter fun l => l.lexemes ≠ []

/-! ## The grammar -/

inductive Expr where
  | name (w : Text)
  | str (s : Text)
  | attr (e : Expr) (a : Text)
  | call (e : Expr)
  | equals (a b : Expr)
deriving DecidableEq, Repr

inductive Simple where
  | fromImport (module : List Text) (name : Text)
  | expr (e : Expr)
deriving DecidableEq, Repr

inductive Block where
  | nil
  | simple (s : Simple) (rest : Block)
  | ifThen (cond : Expr) (body rest : Block)
deriving DecidableEq, Repr

/-- A dotted name, and what follows it. -/
def parseDotted : List Lexeme → Option (List Text × List Lexeme)
  | .name w :: .op c :: ls =>
      if isKeyword w then none
      else if c = '.' then (parseDotted ls).map fun (ws, rest) => (w :: ws, rest)
      else some ([w], .op c :: ls)
  | .name w :: ls => if isKeyword w then none else some ([w], ls)
  | _ => none

/-- The attributes and calls behind an expression, up to the end of the line. -/
def parseTrailers : Expr → List Lexeme → Option Expr
  | e, [] => some e
  | e, .op '.' :: .name w :: ls => if isKeyword w then none else parseTrailers (.attr e w) ls
  | e, .op '(' :: .op ')' :: ls => parseTrailers (.call e) ls
  | _, _ => none

/-- A statement without a block. The import binds a single identifier. -/
def parseSimple : List Lexeme → Option Simple
  | .name w :: ls =>
      if w = "from".toList then
        match parseDotted ls with
        | some (m, [.name i, .name n]) =>
            if i = "import".toList ∧ isKeyword n = false then some (.fromImport m n) else none
        | _ => none
      else if isKeyword w then none
      else (parseTrailers (.name w) ls).map .expr
  | _ => none

/-- The line that opens an `if` block, if this is one: its condition, or
`none` when the condition is outside the grammar. -/
def parseIf : List Lexeme → Option (Option Expr)
  | .name w :: ls =>
      if w = "if".toList then
        match ls with
        | [.name v, .equals, .str s, .op ':'] =>
            if isKeyword v then some none else some (some (.equals (.name v) (.str s)))
        | _ => some none
      else none
  | _ => none

/-- The statements of a block with the given indentation. The first argument
exceeds the number of lines. -/
def parseBlock : ℕ → ℕ → List Line → Option Block
  | 0, _, _ => none
  | _ + 1, _, [] => some .nil
  | n + 1, indent, l :: ls =>
      if l.indent ≠ indent then none
      else match parseIf l.lexemes with
        | none =>
            (parseSimple l.lexemes).bind fun s => (parseBlock n indent ls).map (.simple s)
        | some cond => do
            let c ← cond
            let inner := ls.takeWhile (indent < ·.indent)
            let first ← inner.head?
            let body ← parseBlock n first.indent inner
            let rest ← parseBlock n indent (ls.dropWhile (indent < ·.indent))
            return .ifThen c body rest

/-- The syntax tree of a module; `none` is a SyntaxError. -/
def parseModule (T : CharTable) (text : Text) : Option Block :=
  (lexLines T text).bind fun ls => parseBlock (ls.length + 1) 0 ls

/-! ## Execution -/

/-- An object, by the way it was reached. -/
inductive Obj where
  | module (m : List Text)
  | attr (o : Obj) (a : Text)
  | result (f : Obj)
deriving DecidableEq, Repr

inductive Value where
  | str (s : Text)
  | bool (b : Bool)
  | obj (o : Obj)
deriving DecidableEq, Repr

inductive Event where
  | importModule (m : List Text)
  | getAttr (o : Obj) (a : Text)
  | call (f : Obj)
deriving DecidableEq, Repr

abbrev Env := List (Text × Value)

/-- The value of an expression and the events of its evaluation. Imports and
attributes succeed; `none` is a NameError or a TypeError. -/
def Expr.eval (env : Env) : Expr → Option (Value × List Event)
  | name w => (env.lookup w).map fun v => (v, [])
  | str s => some (.str s, [])
  | attr e a =>
      match e.eval env with
      | some (.obj o, es) => some (.obj (.attr o a), es ++ [.getAttr o a])
      | _ => none
  | call e =>
      match e.eval env with
      | some (.obj f, es) => some (.obj (.result f), es ++ [.call f])
      | _ => none
  | equals a b =>
      match a.eval env, b.eval env with
      | some (.str s, es), some (.str t, es') => some (.bool (s == t), es ++ es')
      | _, _ => none

/-- The bindings behind a statement and the events of its execution. -/
def Simple.exec (env : Env) : Simple → Option (Env × List Event)
  | fromImport m n =>
      some ((n, .obj (.attr (.module m) n)) :: env,
        [.importModule m, .getAttr (.module m) n])
  | expr e => (e.eval env).map fun (_, es) => (env, es)

def Block.exec (env : Env) : Block → Option (Env × List Event)
  | nil => some (env, [])
  | simple s rest => do
      let (env', es) ← s.exec env
      let (env'', es') ← rest.exec env'
      return (env'', es ++ es')
  | ifThen cond body rest =>
      match cond.eval env with
      | some (.bool b, es) => do
          let (env', es') ← if b then body.exec env else some (env, [])
          let (env'', es'') ← rest.exec env'
          return (env'', es ++ es' ++ es'')
      | _ => none

/-- The bindings of a module that is run as a program. -/
def mainEnv : Env := [("__name__".toList, .str "__main__".toList)]

/-- The events of running a module as a program. -/
def Block.run (b : Block) : Option (List Event) := (b.exec mainEnv).map Prod.snd

/-! ## Rules for the lexer -/

section lexer

variable {T : CharTable}

theorem lexFrom_cons {s s' : LexState} {c : Char} {ls : List Lexeme}
    (h : lexStep T s c = some (ls, s')) (t : Text) :
    lexFrom T s (c :: t) = (lexFrom T s' t).map (ls ++ ·) := by
  rw [lexFrom, h]
  rfl

/-- The lexer of a line of ASCII characters does not depend on the table. -/
theorem lexFrom_ascii (s : LexState) (t : Text) (ht : ∀ c ∈ t, c.toNat < 128) :
    lexFrom T s t = lexFrom .ascii s t := by
  have hstep : ∀ (s : LexState) (c : Char), c.toNat < 128 →
      lexStep T s c = lexStep .ascii s c := by
    intro s c hc
    have hstart : lexStart T c = lexStart .ascii c := by
      simp only [lexStart, T.idStart_ascii c hc, CharTable.ascii.idStart_ascii c hc]
    cases s with
    | blank => exact hstart
    | name w =>
        simp only [lexStep, hstart, T.idContinue_ascii c hc,
          CharTable.ascii.idContinue_ascii c hc]
    | str s => rfl
    | equal => rfl
    | comment => rfl
  induction t generalizing s with
  | nil => rfl
  | cons c t ih =>
      rw [lexFrom, lexFrom, hstep s c (ht c (by simp))]
      congr 1
      funext ⟨ls, s'⟩
      exact congrArg (Option.map (ls ++ ·)) (ih s' fun d hd => ht d (by simp [hd]))

theorem lexFrom_comment (t : Text) : lexFrom T .comment t = some [] := by
  induction t with
  | nil => rfl
  | cons c t ih =>
      have hstep : lexStep T .comment c = some ([], .comment) := rfl
      rw [lexFrom_cons hstep, ih]
      rfl

theorem lexFrom_name_append (v w rest : Text) (hw : ∀ c ∈ w, T.idContinue c = true) :
    lexFrom T (.name v) (w ++ rest) = lexFrom T (.name (w.reverse ++ v)) rest := by
  induction w generalizing v with
  | nil => rfl
  | cons c w ih =>
      have hstep : lexStep T (.name v) c = some ([], .name (c :: v)) := by
        rw [lexStep, if_pos (hw c (by simp))]
      rw [List.cons_append, lexFrom_cons hstep, ih _ fun d hd => hw d (by simp [hd])]
      simp

/-- A name ends where no further character of it follows. -/
theorem lexFrom_name_stop (v rest : Text) (hrest : ∀ c ∈ rest.head?, T.idContinue c = false) :
    lexFrom T (.name v) rest = (lexFrom T .blank rest).map (.name v.reverse :: ·) := by
  cases rest with
  | nil => rfl
  | cons c rest =>
      have hc : T.idContinue c = false := hrest c rfl
      simp only [lexFrom, lexStep, hc]
      cases lexStart T c with
      | none => rfl
      | some p => cases h : lexFrom T p.2 rest <;> simp [h]

theorem lexFrom_identifier {w rest : Text} (hw : IsIdentifier T w)
    (hrest : ∀ c ∈ rest.head?, T.idContinue c = false) :
    lexFrom T .blank (w ++ rest) = (lexFrom T .blank rest).map (.name w :: ·) := by
  obtain ⟨c, t, rfl, hc, ht⟩ := hw
  have hstep : lexStep T .blank c = some ([], .name [c]) := by
    rw [lexStep, lexStart, if_pos hc]
  rw [List.cons_append, lexFrom_cons hstep, lexFrom_name_append _ _ _ ht,
    lexFrom_name_stop _ _ hrest, Option.map_map]
  simp [Function.comp_def]

theorem not_idStart_space : T.idStart ' ' = false := T.idStart_ascii ' ' (by decide)

theorem not_idStart_dot : T.idStart '.' = false := T.idStart_ascii '.' (by decide)

theorem not_idContinue_dot : T.idContinue '.' = false := T.idContinue_ascii '.' (by decide)

theorem lexFrom_space (t : Text) : lexFrom T .blank (' ' :: t) = lexFrom T .blank t := by
  have hstep : lexStep T .blank ' ' = some ([], .blank) := by
    simp [lexStep, lexStart, not_idStart_space]
  rw [lexFrom_cons hstep]
  simp

theorem lexFrom_dot (t : Text) :
    lexFrom T .blank ('.' :: t) = (lexFrom T .blank t).map (.op '.' :: ·) := by
  have hstep : lexStep T .blank '.' = some ([.op '.'], .blank) := by
    simp [lexStep, lexStart, not_idStart_dot]
  rw [lexFrom_cons hstep]
  rfl

/-- The lexemes of a dotted name. -/
def dottedLexemes : List Text → List Lexeme
  | [] => []
  | [w] => [.name w]
  | w :: v :: ws => .name w :: .op '.' :: dottedLexemes (v :: ws)

theorem lexFrom_dotted (ws : List Text) (hws : ∀ w ∈ ws, IsIdentifier T w) (rest : Text)
    (hrest : ∀ c ∈ rest.head?, T.idContinue c = false) :
    lexFrom T .blank (Text.dotted ws ++ rest) =
      (lexFrom T .blank rest).map (dottedLexemes ws ++ ·) := by
  induction ws with
  | nil => simp [Text.dotted, dottedLexemes]
  | cons w ws ih =>
      cases ws with
      | nil => exact lexFrom_identifier (hws w (by simp)) hrest
      | cons v ws =>
          rw [Text.dotted, List.append_assoc, List.cons_append,
            lexFrom_identifier (hws w (by simp)) (by simpa using not_idContinue_dot),
            lexFrom_dot, ih fun u hu => hws u (by simp [hu])]
          cases lexFrom T .blank rest <;> rfl

end lexer

/-! ## Rules for the parser -/

/-- A dotted name without keywords is parsed whole. -/
theorem parseDotted_dottedLexemes (ws : List Text) (hne : ws ≠ [])
    (hws : ∀ w ∈ ws, isKeyword w = false) (v : Text) (rest : List Lexeme) :
    parseDotted (dottedLexemes ws ++ .name v :: rest) = some (ws, .name v :: rest) := by
  induction ws with
  | nil => exact absurd rfl hne
  | cons w ws ih =>
      have hw : isKeyword w = false := hws w (by simp)
      cases ws with
      | nil => simp [dottedLexemes, parseDotted, hw]
      | cons u ws =>
          have htail := ih (by simp) fun x hx => hws x (by simp [hx])
          simp only [dottedLexemes, List.cons_append, parseDotted, hw]
          simpa using htail

theorem parseBlock_simple (n indent : ℕ) (l : Line) (ls : List Line) (h : l.indent = indent)
    (hif : parseIf l.lexemes = none) :
    parseBlock (n + 1) indent (l :: ls) =
      (parseSimple l.lexemes).bind fun s => (parseBlock n indent ls).map (.simple s) := by
  rw [parseBlock, if_neg (by simp [h]), hif]

/-- A condition with a deeper block behind it, up to the end of the lines. -/
theorem parseBlock_if (n indent : ℕ) (l first : Line) (ls : List Line) (c : Expr)
    (h : l.indent = indent) (hif : parseIf l.lexemes = some (some c))
    (hdeep : ∀ m ∈ first :: ls, indent < m.indent) :
    parseBlock (n + 2) indent (l :: first :: ls) =
      (parseBlock (n + 1) first.indent (first :: ls)).map fun body => .ifThen c body .nil := by
  have htake : (first :: ls).takeWhile (fun m => indent < m.indent) = first :: ls :=
    List.takeWhile_eq_self_iff.mpr fun m hm => decide_eq_true (hdeep m hm)
  have hdrop : (first :: ls).dropWhile (fun m => indent < m.indent) = [] :=
    List.dropWhile_eq_nil_iff.mpr fun m hm => decide_eq_true (hdeep m hm)
  rw [parseBlock, if_neg (by simp [h]), hif]
  simp only [htake, hdrop]
  change (parseBlock (n + 1) first.indent (first :: ls)).bind
    (fun body => some (Block.ifThen c body .nil)) = _
  cases parseBlock (n + 1) first.indent (first :: ls) <;> rfl

/-- The import statement takes a single identifier behind a dotted module. -/
theorem parseSimple_fromImport (ms qs : List Text) (hne : ms ≠ [])
    (hms : ∀ w ∈ ms, isKeyword w = false) (s : Simple) :
    parseSimple (.name "from".toList ::
        (dottedLexemes ms ++ .name "import".toList :: dottedLexemes qs)) = some s ↔
      ∃ q, qs = [q] ∧ isKeyword q = false ∧ s = .fromImport ms q := by
  rw [parseSimple, if_pos rfl, parseDotted_dottedLexemes ms hne hms]
  cases qs with
  | nil => simp [dottedLexemes]
  | cons q qs =>
      cases qs with
      | nil =>
          cases hq : isKeyword q with
          | true => simp [dottedLexemes, hq]
          | false =>
              have heq : Simple.fromImport ms q = s ↔ s = .fromImport ms q := eq_comm
              simp [dottedLexemes, hq, heq]
      | cons v ws => simp [dottedLexemes]

end Python
