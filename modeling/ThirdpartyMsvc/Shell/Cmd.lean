import ThirdpartyMsvc.Text.Basic

/-!
# Running a batch file

The part of cmd.exe that decides which programs a batch file starts. A line is
expanded textually; then quotation marks and carets decide which characters are
active, unquoted ampersands and bars separate commands, and the first word of a
command, up to a delimiter, is its program. The text behind it goes to the
program as it is.

The echo, rem, set and setlocal commands are executed; every other command is
a `Call`. Positional parameters other than `%*` are not modelled.
-/

namespace Shell

/-! ## Expansion -/

structure Env where
  dp0 : Text
  args : Text
  vars : List (Text × Text)
deriving DecidableEq, Repr

def Env.var (e : Env) (name : Text) : Text := (e.vars.lookup name).getD []

/-- Percent expansion in one pass. The second argument is the name of the
variable that is being read, last character first. -/
def expandFrom (e : Env) : Option Text → Text → Text
  | none, [] => []
  | some w, [] => w.reverse
  | none, '%' :: '~' :: 'd' :: 'p' :: '0' :: t => e.dp0 ++ expandFrom e none t
  | none, '%' :: '*' :: t => e.args ++ expandFrom e none t
  | none, '%' :: '%' :: t => '%' :: expandFrom e none t
  | none, c :: t => if c = '%' then expandFrom e (some []) t else c :: expandFrom e none t
  | some w, c :: t =>
      if c = '%' then e.var w.reverse ++ expandFrom e none t else expandFrom e (some (c :: w)) t

def expand (e : Env) (line : Text) : Text := expandFrom e none line

/-! ## Lexing -/

/-- A character of a line: `plain` characters may delimit words, `inert` ones
are quoted or escaped, and `op` stands for an operator. -/
inductive Sym where
  | plain (c : Char)
  | inert (c : Char)
  | op (c : Char)
deriving DecidableEq, Repr

def isOp (c : Char) : Bool := c == '&' || c == '|' || c == '<' || c == '>'

def isDelim (c : Char) : Bool :=
  c == ' ' || c == '\t' || c == ',' || c == ';' || c == '='

/-- The symbols of a line; the flag says whether a quotation is open. -/
def lex : Bool → Text → List Sym
  | _, [] => []
  | true, c :: t => .inert c :: lex (c ≠ '\x22') t
  | false, '^' :: [] => []
  | false, '^' :: d :: t => .inert d :: lex false t
  | false, '>' :: '&' :: t => .op '>' :: .inert '&' :: lex false t
  | false, c :: t =>
      if c = '\x22' then .inert c :: lex true t
      else if isOp c then .op c :: lex false t
      else .plain c :: lex false t

/-- The operators that end a command. -/
def Sym.separates : Sym → Bool
  | .op c => c == '&' || c == '|'
  | _ => false

def Sym.isOperator : Sym → Bool
  | .op _ => true
  | _ => false

def Sym.delimits : Sym → Bool
  | .plain c => isDelim c
  | _ => false

def Sym.char : Sym → Option Char
  | .plain c => some c
  | .inert c => some c
  | .op _ => none

def chars (ss : List Sym) : Text := ss.filterMap Sym.char

/-- What a redirection is in the middle of. -/
inductive Redirect where
  | none
  | operator
  | target
deriving DecidableEq, Repr

/-- A command without its redirections and their targets. -/
def dropRedirects : Redirect → List Sym → List Sym
  | _, [] => []
  | .none, s :: ss => if s.isOperator then dropRedirects .operator ss else s :: dropRedirects .none ss
  | .operator, s :: ss =>
      if s.isOperator || s.delimits then dropRedirects .operator ss else dropRedirects .target ss
  | .target, s :: ss =>
      if s.isOperator then dropRedirects .operator ss
      else if s.delimits then s :: dropRedirects .none ss
      else dropRedirects .target ss

/-! ## Execution -/

/-- A command that is started: its program and the text behind it. -/
structure Call where
  program : Text
  tail : Text
deriving DecidableEq, Repr

/-- The program and the tail of a command, without redirections, the delimiters
in front of it and the sign that suppresses its echo. -/
def parseCommand (ss : List Sym) : Call :=
  let body := ((dropRedirects .none ss).dropWhile Sym.delimits).dropWhile (· = .plain '@')
  ⟨(chars (body.takeWhile fun s => !s.delimits)).filter (· ≠ '\x22'),
    chars (body.dropWhile fun s => !s.delimits)⟩

/-- The variable that a set command assigns, and its value. -/
def assignment (tail : Text) : Text × Text :=
  let t := tail.dropWhile isDelim
  (t.takeWhile (· ≠ '='), (t.dropWhile (· ≠ '=')).drop 1)

/-- The commands of one line, in order. A remark takes the rest of the line. -/
def runCommands (vars : List (Text × Text)) :
    List (List Sym) → List (Text × Text) × List Call
  | [] => (vars, [])
  | ss :: rest =>
      let call := parseCommand ss
      let name := call.program.map Char.toLower
      if name = ['r', 'e', 'm'] then (vars, [])
      else if name = [] ∨ name = ['e', 'c', 'h', 'o'] ∨
          name = ['s', 'e', 't', 'l', 'o', 'c', 'a', 'l'] then runCommands vars rest
      else if name = ['s', 'e', 't'] then runCommands (assignment call.tail :: vars) rest
      else
        let (vars', calls) := runCommands vars rest
        (vars', call :: calls)

def commands (ss : List Sym) : List (List Sym) := ss.splitOnP Sym.separates

/-- A line, from the variables before it to those behind it. -/
def runLine (dp0 args : Text) (vars : List (Text × Text)) (line : Text) :
    List (Text × Text) × List Call :=
  runCommands vars (commands (lex false (expand ⟨dp0, args, vars⟩ line)))

/-- The calls of the lines of a batch file. -/
def runLines (dp0 args : Text) : List (Text × Text) → List Text → List Call
  | _, [] => []
  | vars, line :: lines =>
      (runLine dp0 args vars line).2 ++ runLines dp0 args (runLine dp0 args vars line).1 lines

/-- The calls of a batch file that is started with `dp0` as its directory. -/
def runScript (dp0 args text : Text) : List Call := runLines dp0 args [] (text.splitOn '\n')

/-! ## The arguments of a program -/

def isBlank (c : Char) : Bool := c == ' ' || c == '\t'

/-- The first argument in a tail, as the C runtime reads it, and what follows.
Backslashes in front of a quotation mark are not modelled. -/
def argument : Bool → Text → Text × Text
  | _, [] => ([], [])
  | quoted, c :: t =>
      if c = '\x22' then argument (!quoted) t
      else if !quoted && isBlank c then ([], c :: t)
      else ((c :: (argument quoted t).1), (argument quoted t).2)

def firstArgument (tail : Text) : Text × Text := argument false (tail.dropWhile isBlank)

/-- The components of a path; adjacent separators count as one. The first
argument is the component that is being read, last character first. -/
def componentsFrom : Text → Text → List Text
  | acc, [] => if acc = [] then [] else [acc.reverse]
  | acc, c :: t =>
      if c = '\\' then (if acc = [] then [] else [acc.reverse]) ++ componentsFrom [] t
      else componentsFrom (c :: acc) t

def components (path : Text) : List Text := componentsFrom [] path

end Shell
