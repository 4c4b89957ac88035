import ThirdpartyMsvc.Regex.Greedy
import ThirdpartyMsvc.Text.Basic

/-!
# Compiling patterns

The part of `sre_parse` that turns the text of a pattern into a regular
expression: literals, escapes, character sets, the greedy quantifiers,
capturing, named and plain groups, alternatives, the two anchors and the
verbose mode. The recursion of `_parse_sub` and `_parse` is kept as an explicit
stack of open groups. Constructs outside this part (lazy quantifiers, look
around, back references, inline flags) are reported as `unsupported`, never
read as something else.
-/

namespace Python

/-- The character categories that the patterns use. -/
inductive Category where
  | word
  | space
deriving DecidableEq, Repr

inductive SetItem where
  | literal (c : Char)
  | range (lo hi : Char)
  | category (k : Category) (negate : Bool)
deriving DecidableEq, Repr

/-- A character set, as the compiler of patterns builds it. -/
structure CharSet where
  negate : Bool
  items : List SetItem
deriving DecidableEq, Repr

namespace CharSet

def literal (c : Char) : CharSet := ⟨false, [.literal c]⟩

/-- The dot, which matches everything but a line feed. -/
def any : CharSet := ⟨true, [.literal '\n']⟩

/-- Membership of a character, with the categories read off the table. -/
def mem (T : CharTable) (s : CharSet) (c : Char) : Bool :=
  xor s.negate <| s.items.any fun
    | .literal d => d == c
    | .range lo hi => decide (lo ≤ c ∧ c ≤ hi)
    | .category .word neg => xor neg (T.word c)
    | .category .space neg => xor neg (T.space c)

@[simp] theorem mem_literal (T : CharTable) (c d : Char) :
    mem T (literal c) d = (c == d) := by
  simp [mem, literal]

@[simp] theorem mem_any (T : CharTable) (c : Char) : mem T any c = (c != '\n') := by
  simp [mem, any, bne, Bool.beq_comm (a := c)]

end CharSet

/-- Why a pattern does not compile. -/
inductive ReError where
  | badEscape
  | unterminatedSet
  | badRange
  | nothingToRepeat
  | multipleRepeat
  | minGreaterThanMax
  | missingParen
  | unbalancedParen
  | unterminatedName
  | unsupported
deriving DecidableEq, Repr

/-- A token of the pattern: a character, or one behind a backslash. -/
inductive Token where
  | plain (c : Char)
  | escaped (c : Char)
deriving DecidableEq, Repr

/-- The tokenizer of sre_parse. -/
def tokenize : Text → Except ReError (List Token)
  | [] => .ok []
  | c :: t =>
      if c = '\\' then
        match t with
        | [] => .error .badEscape
        | d :: t' => (tokenize t').map (.escaped d :: ·)
      else (tokenize t).map (.plain c :: ·)

/-- _escape and _class_escape, for the escapes that stand for one symbol. -/
def escape (c : Char) : Except ReError SetItem :=
  if c = 's' then .ok (.category .space false)
  else if c = 'S' then .ok (.category .space true)
  else if c = 'w' then .ok (.category .word false)
  else if c = 'W' then .ok (.category .word true)
  else if c = 'n' then .ok (.literal '\n')
  else if c = 't' then .ok (.literal '\t')
  else if c = 'r' then .ok (.literal '\r')
  else if c.isAlphanum then .error .unsupported
  else .ok (.literal c)

/-- The item of a set that a token stands for. -/
def setItem : Token → Except ReError SetItem
  | .plain c => .ok (.literal c)
  | .escaped c => escape c

/-- The remaining part of a character set, behind the items `acc` (last first).
A closing bracket in the first position is a member of the set. -/
def parseSetItems : ℕ → List SetItem → List Token →
    Except ReError (List SetItem × List Token)
  | 0, _, _ => .error .unterminatedSet
  | _ + 1, _, [] => .error .unterminatedSet
  | n + 1, acc, this :: ts =>
      if this = .plain ']' ∧ acc ≠ [] then .ok (acc.reverse, ts)
      else do
        let code1 ← setItem this
        match ts with
        | .plain '-' :: [] => .error .unterminatedSet
        | .plain '-' :: .plain ']' :: ts' => .ok ((.literal '-' :: code1 :: acc).reverse, ts')
        | .plain '-' :: that :: ts' =>
            let code2 ← setItem that
            match code1, code2 with
            | .literal lo, .literal hi =>
                if hi < lo then .error .badRange
                else parseSetItems n (.range lo hi :: acc) ts'
            | _, _ => .error .badRange
        | _ => parseSetItems n (code1 :: acc) ts

/-- A character set, behind its opening bracket. -/
def parseSet (ts : List Token) : Except ReError (CharSet × List Token) :=
  let (negate, ts') :=
    match ts with
    | .plain '^' :: ts' => (true, ts')
    | _ => (false, ts)
  (parseSetItems (ts'.length + 1) [] ts').map fun (items, rest) => (⟨negate, items⟩, rest)

/-- A run of digits: its text and what follows. -/
def digits : List Token → Text × List Token
  | .plain c :: ts =>
      if c.isDigit then
        let (ds, rest) := digits ts
        (c :: ds, rest)
      else ([], .plain c :: ts)
  | ts => ([], ts)

/-- int of a run of digits. -/
def toNat (ds : Text) : ℕ :=
  ds.foldl (fun n c => 10 * n + (c.toNat - '0'.toNat)) 0

/-- The quantifier behind an opening brace: its bounds and what follows, or
`none` when the brace stands for itself. -/
def parseBounds (ts : List Token) : Option (ℕ × Option ℕ × List Token) :=
  if ts.head? = some (.plain '}') then none
  else
    let (lo, ts₁) := digits ts
    let (hi, ts₂) :=
      match ts₁ with
      | .plain ',' :: ts' => digits ts'
      | _ => (lo, ts₁)
    match ts₂ with
    | .plain '}' :: rest =>
        some (toNat lo, if hi = [] then none else some (toNat hi), rest)
    | _ => none

/-- What a quantifier may be put behind. -/
inductive ItemKind where
  | unit
  | anchor
  | repeated
deriving DecidableEq, Repr

structure Item where
  kind : ItemKind
  re : Regex CharSet
deriving DecidableEq, Repr

def Item.literal (c : Char) : Item := ⟨.unit, .sat (.literal c)⟩

/-- A subpattern that is being read: the finished alternatives and the items of
the current one, the last of each first. -/
structure Frame where
  alts : List (Regex CharSet) := []
  items : List Item := []
deriving DecidableEq, Repr

namespace Frame

def push (f : Frame) (i : Item) : Frame := { f with items := i :: f.items }

def current (f : Frame) : Regex CharSet := .concat (f.items.reverse.map Item.re)

/-- Ends the current alternative at a bar. -/
def bar (f : Frame) : Frame := { alts := f.current :: f.alts }

def close (f : Frame) : Regex CharSet :=
  f.alts.foldl (fun r alt => .alt alt r) f.current

/-- Puts a quantifier behind the last item. -/
def quantify (f : Frame) (q : Regex CharSet → Regex CharSet) : Except ReError Frame :=
  match f.items with
  | [] => .error .nothingToRepeat
  | i :: is =>
      match i.kind with
      | .anchor => .error .nothingToRepeat
      | .repeated => .error .multipleRepeat
      | .unit => .ok { f with items := ⟨.repeated, q i.re⟩ :: is }

end Frame

/-- The state of the parser. `stack` holds the groups that are open, each with
its number if it captures and with the subpattern around it. -/
structure Parser where
  cur : Frame := {}
  stack : List (Option ℕ × Frame) := []
  groups : ℕ := 1
  names : List (Text × ℕ) := []
deriving DecidableEq, Repr

namespace Parser

def push (p : Parser) (i : Item) : Parser := { p with cur := p.cur.push i }

def quantify (p : Parser) (q : Regex CharSet → Regex CharSet) : Except ReError Parser :=
  (p.cur.quantify q).map fun f => { p with cur := f }

/-- opengroup of the parser's state. -/
def openGroup (p : Parser) (name : Option Text) : Parser :=
  { cur := {}
    stack := (some p.groups, p.cur) :: p.stack
    groups := p.groups + 1
    names := match name with
      | some n => (n, p.groups) :: p.names
      | none => p.names }

def openPlain (p : Parser) : Parser :=
  { p with cur := {}, stack := (none, p.cur) :: p.stack }

def closeGroup (p : Parser) : Except ReError Parser :=
  match p.stack with
  | [] => .error .unbalancedParen
  | (gid, f) :: rest =>
      let body := match gid with
        | some i => .group i p.cur.close
        | none => p.cur.close
      .ok { p with cur := f.push ⟨.unit, body⟩, stack := rest }

end Parser

/-- The tokens up to a terminator, and what follows it. -/
def getUntil (c : Char) : List Token → Option (Text × List Token)
  | [] => none
  | .plain d :: ts =>
      if d = c then some ([], ts) else (getUntil c ts).map fun (n, r) => (d :: n, r)
  | .escaped d :: ts => (getUntil c ts).map fun (n, r) => ('\\' :: d :: n, r)

/-- The characters that the verbose mode skips. -/
def isVerboseSpace (c : Char) : Bool := " \t\n\r\x0b\x0c".toList.contains c

/-- The quantifiers of one character. -/
def simpleQuantifier (c : Char) : Option (Regex CharSet → Regex CharSet) :=
  if c = '*' then some .star
  else if c = '+' then some .plus
  else if c = '?' then some .opt
  else none

/-- The loop of _parse, with the recursion of _parse_sub on the stack. -/
def parseLoop (verbose : Bool) : ℕ → Parser → List Token → Except ReError Parser
  | 0, _, _ => .error .unsupported
  | _ + 1, p, [] => if p.stack = [] then .ok p else .error .missingParen
  | n + 1, p, .escaped c :: ts => do
      let item ← escape c
      parseLoop verbose n (p.push ⟨.unit, .sat ⟨false, [item]⟩⟩) ts
  | n + 1, p, .plain c :: ts =>
      if verbose && isVerboseSpace c then parseLoop verbose n p ts
      else if verbose && c == '#' then
        parseLoop verbose n p ((ts.dropWhile (· ≠ .plain '\n')).drop 1)
      else if c = '|' then parseLoop verbose n { p with cur := p.cur.bar } ts
      else if c = ')' then do
        let p' ← p.closeGroup
        parseLoop verbose n p' ts
      else if c = '[' then do
        let (set, ts') ← parseSet ts
        parseLoop verbose n (p.push ⟨.unit, .sat set⟩) ts'
      else if c = '.' then parseLoop verbose n (p.push ⟨.unit, .sat .any⟩) ts
      else if c = '^' then parseLoop verbose n (p.push ⟨.anchor, .bos⟩) ts
      else if c = '$' then
        parseLoop verbose n (p.push ⟨.anchor, .eos (.literal '\n')⟩) ts
      else if c = '(' then
        match ts with
        | .plain '?' :: .plain 'P' :: .plain '<' :: ts' =>
            match getUntil '>' ts' with
            | none => .error .unterminatedName
            | some (name, ts'') => parseLoop verbose n (p.openGroup (some name)) ts''
        | .plain '?' :: .plain ':' :: ts' => parseLoop verbose n p.openPlain ts'
        | .plain '?' :: _ => .error .unsupported
        | _ => parseLoop verbose n (p.openGroup none) ts
      else if c = '{' then
        match parseBounds ts with
        | none => parseLoop verbose n (p.push (.literal c)) ts
        | some (lo, hi, ts') => do
            if hi.any (· < lo) then throw .minGreaterThanMax
            let p' ← p.quantify fun r =>
              .seq (.times r lo) (match hi with
                | none => .star r
                | some m => .upTo r (m - lo))
            if ts'.head? = some (.plain '?') then throw .unsupported
            parseLoop verbose n p' ts'
      else
        match simpleQuantifier c with
        | some q => do
            let p' ← p.quantify q
            if ts.head? = some (.plain '?') then throw .unsupported
            parseLoop verbose n p' ts
        | none => parseLoop verbose n (p.push (.literal c)) ts

/-- A compiled pattern: the expression and the numbers of the named groups. -/
structure Pattern where
  re : Regex CharSet
  names : List (Text × ℕ)
deriving DecidableEq, Repr

/-- re.compile, with or without the verbose flag. -/
def compile (verbose : Bool) (pattern : Text) : Except ReError Pattern := do
  let ts ← tokenize pattern
  let p ← parseLoop verbose (ts.length + 1) {} ts
  return ⟨p.cur.close, p.names⟩

/-- Pattern.match: a match at the beginning of the subject. -/
def Pattern.match_ (T : CharTable) (p : Pattern) (t : Text) : Option (Regex.Cursor Char) :=
  Regex.run (CharSet.mem T) p.re ⟨[], t, []⟩ some

/-- The first match at a position of the text, with what stands before it last
character first. -/
def Pattern.searchFrom (T : CharTable) (p : Pattern) : Text → Text → Option (Regex.Cursor Char)
  | b, [] => Regex.run (CharSet.mem T) p.re ⟨b, [], []⟩ some
  | b, c :: t =>
      (Regex.run (CharSet.mem T) p.re ⟨b, c :: t, []⟩ some).or (p.searchFrom T (c :: b) t)

/-- Pattern.search: the match that begins first. -/
def Pattern.search (T : CharTable) (p : Pattern) (t : Text) : Option (Regex.Cursor Char) :=
  p.searchFrom T [] t

/-- A match at the beginning is the first one. -/
theorem Pattern.search_of_match {T : CharTable} {p : Pattern} {t : Text}
    {m : Regex.Cursor Char} (h : p.match_ T t = some m) : p.search T t = some m := by
  rw [match_] at h
  cases t with
  | nil => exact h
  | cons c t => rw [search, searchFrom, h, Option.some_or]

/-- Match.group for a named group. -/
def Pattern.namedGroup (p : Pattern) (m : Regex.Cursor Char) (name : Text) : Option Text :=
  (p.names.lookup name).bind m.group

end Python
