import ThirdpartyMsvc.Config.Patch

/-!
# The pattern of a plain prefix

The scripts escape backslashes and periods only. A prefix is plain when nothing
else in it is special to the compiler of patterns; then the pattern is the
literal prefix between a quotation mark and the optional separator, and its
matches can be read off the subject.
-/

namespace Config

open Python Regex Text

/-! ## Compiling -/

def metachars : List Char := ['(', ')', '[', '*', '+', '?', '^', '$', '|']

/-- Whether a brace in front of `t` opens a quantifier. -/
def opensBounds (t : Text) : Bool :=
  t.head? != some '}' &&
    (match t.dropWhile Char.isDigit with
      | ',' :: u => u.dropWhile Char.isDigit
      | u => u).head? == some '}'

/-- No character is special behind the escaping by hand. -/
def isPlain : Text → Bool
  | [] => true
  | c :: t => !metachars.contains c && !(c == '{' && opensBounds t) && isPlain t

/-- The token that an escaped character becomes. -/
def token (c : Char) : Token := if c = '\\' ∨ c = '.' then .escaped c else .plain c

theorem escapePrefix_cons (c : Char) (p : Text) :
    escapePrefix (c :: p) =
      (if c = '\\' ∨ c = '.' then ['\\', c] else [c]) ++ escapePrefix p := by
  by_cases hslash : c = '\\'
  · subst hslash
    simp [escapePrefix, replaceChar]
  · by_cases hdot : c = '.'
    · subst hdot
      simp [escapePrefix, replaceChar]
    · simp [escapePrefix, replaceChar, hslash, hdot]

theorem tokenize_escapePrefix (p t : Text) :
    tokenize (escapePrefix p ++ t) = (tokenize t).map (p.map token ++ ·) := by
  induction p with
  | nil => cases h : tokenize t <;> simp [escapePrefix, replaceChar, Except.map, h]
  | cons c p ih =>
      rw [escapePrefix_cons, List.map_cons]
      by_cases hc : c = '\\' ∨ c = '.'
      · simp only [if_pos hc, List.cons_append, List.nil_append]
        rw [tokenize, if_pos rfl, ih]
        cases tokenize t <;> simp [Except.map, token, hc]
      · simp only [if_neg hc, List.cons_append, List.nil_append]
        rw [tokenize.eq_def]
        simp only [if_neg fun h => hc (.inl h), ih]
        cases tokenize t <;> simp [Except.map, token, hc]

theorem digits_token (t : Text) (rest : List Token) :
    digits (t.map token ++ .plain '(' :: rest) =
      (t.takeWhile Char.isDigit, (t.dropWhile Char.isDigit).map token ++ .plain '(' :: rest) := by
  induction t with
  | nil => rfl
  | cons c t ih =>
      by_cases hc : c.isDigit = true
      · have htoken : token c = .plain c := by
          have hne : c ≠ '\\' ∧ c ≠ '.' := by
            constructor <;>
              · rintro rfl
                exact absurd hc (by decide)
          simp [token, hne]
        rw [List.map_cons, htoken, List.cons_append, digits, if_pos hc, ih]
        simp [hc]
      · have hstop : digits (token c :: (t.map token ++ .plain '(' :: rest)) =
            ([], token c :: (t.map token ++ .plain '(' :: rest)) := by
          unfold token
          split
          · rfl
          · rw [digits, if_neg hc]
        rw [List.map_cons, List.cons_append, hstop]
        simp [hc]

theorem head?_map_token (t : Text) (rest : List Token) (c : Char) (hc : c ≠ '\\' ∧ c ≠ '.')
    (hparen : c ≠ '(') :
    (t.map token ++ .plain '(' :: rest).head? = some (.plain c) ↔ t.head? = some c := by
  cases t with
  | nil => simp [hparen.symm]
  | cons d t =>
      have htoken : token d = .plain c ↔ d = c := by
        unfold token
        split
        · next h =>
            constructor
            · intro h'
              cases h'
            · rintro rfl
              simp [hc] at h
        · simp
      simp [htoken]

/-- A brace that opens no quantifier stands for itself. -/
theorem parseBounds_token (t : Text) (rest : List Token) (ht : opensBounds t = false) :
    parseBounds (t.map token ++ .plain '(' :: rest) = none := by
  have hclose := head?_map_token t rest '}' (by decide) (by decide)
  rw [parseBounds]
  split
  · rfl
  · next hhead =>
      rw [hclose] at hhead
      have hbounds : (match t.dropWhile Char.isDigit with
          | ',' :: u => u.dropWhile Char.isDigit
          | u => u).head? ≠ some '}' := by
        simpa [opensBounds, hhead] using ht
      rw [digits_token]
      simp only
      cases hu : t.dropWhile Char.isDigit with
      | nil => rfl
      | cons c u =>
          rw [hu] at hbounds
          rw [List.map_cons, List.cons_append]
          by_cases hcomma : c = ','
          · subst hcomma
            have hdigits := digits_token u rest
            have hbrace := head?_map_token (u.dropWhile Char.isDigit) rest '}' (by decide)
              (by decide)
            have htoken : token ',' = .plain ',' := rfl
            simp only [htoken, hdigits]
            split
            · next h =>
                rw [h] at hbrace
                exact absurd (hbrace.mp rfl) hbounds
            · rfl
          · have hc : c ≠ '}' := by
              intro h
              subst h
              exact hbounds rfl
            have hne : token c ≠ .plain ',' ∧ token c ≠ .plain '}' := by
              unfold token
              split <;> simp [hcomma, hc]
            split
            · next h =>
                split at h
                · next h' =>
                    rw [List.cons_eq_cons] at h'
                    exact absurd h'.1 hne.1
                · rw [List.cons_eq_cons] at h
                  exact absurd h.1 hne.2
            · rfl

def pushLiterals (p : Parser) (w : Text) : Parser :=
  { p with cur := { p.cur with items := (w.map Item.literal).reverse ++ p.cur.items } }

theorem escape_special {c : Char} (hc : c = '\\' ∨ c = '.') :
    escape c = .ok (.literal c) := by
  rcases hc with rfl | rfl <;> rfl

/-- The parser reads a plain text as literals. -/
theorem parseLoop_literals (w : Text) (hw : isPlain w = true) (n : ℕ) (p : Parser)
    (rest : List Token) :
    parseLoop false (n + w.length) p (w.map token ++ .plain '(' :: rest) =
      parseLoop false n (pushLiterals p w) (.plain '(' :: rest) := by
  induction w generalizing p with
  | nil => rfl
  | cons c w ih =>
      rw [isPlain] at hw
      simp only [Bool.and_eq_true, Bool.not_eq_true', List.contains_eq_mem,
        decide_eq_false_iff_not, metachars, List.mem_cons, List.not_mem_nil, not_or] at hw
      obtain ⟨⟨hmeta, hbrace⟩, hplain⟩ := hw
      have hpush : pushLiterals (p.push (.literal c)) w = pushLiterals p (c :: w) := by
        simp [pushLiterals, Parser.push, Frame.push]
      rw [List.length_cons, ← Nat.add_assoc, List.map_cons, List.cons_append]
      by_cases hc : c = '\\' ∨ c = '.'
      · have htoken : token c = .escaped c := by simp [token, hc]
        rw [htoken, parseLoop, escape_special hc, ← hpush]
        exact ih hplain _
      · have htoken : token c = .plain c := by simp [token, hc]
        have hquantifier : simpleQuantifier c = none := by simp [simpleQuantifier, hmeta]
        rw [htoken, ← hpush, ← ih hplain]
        conv_lhs => rw [parseLoop.eq_def]
        simp only [Bool.false_and, Bool.false_eq_true, if_false, hmeta]
        rw [if_neg fun h => hc (.inr h)]
        by_cases hopen : c = '\x7b'
        · have hbounds : opensBounds w = false := by simpa [hopen] using hbrace
          rw [if_pos hopen, parseBounds_token w rest hbounds]
        · rw [if_neg hopen, hquantifier]

/-! ## The compiled patterns -/

def untilQuote (i : ℕ) : List (Regex CharSet) :=
  [.group i (.concat [.star (.sat .any)]), literal '\'']

def separatorRe (i : ℕ) : Regex CharSet := .group i (.concat [literal '\\', literal '\\'])

def sipTailRe : List (Regex CharSet) := .opt (separatorRe 1) :: untilQuote 2

def pyqtTailRe : List (Regex CharSet) :=
  .opt (.group 1 (.alt (.concat [separatorRe 2]) (.concat [literal '/']))) :: untilQuote 3

/-- A literal prefix behind a quotation mark, and a tail. -/
def prefixRe (p : Text) (tail : List (Regex CharSet)) : Pattern where
  re := .concat (('\'' :: p).map literal ++ tail)
  names := []

theorem compile_prefixPattern {p tail : Text} (hp : isPlain p = true) {rest : List Token}
    {res : List (Regex CharSet)} (htokens : tokenize tail = .ok (.plain '(' :: rest))
    (hrest : ∀ q : Parser, q.stack = [] → q.cur.alts = [] → q.groups = 1 → q.names = [] →
      ∃ q' : Parser,
        parseLoop false ((Token.plain '(' :: rest).length + 1) q (.plain '(' :: rest) = .ok q' ∧
        q'.cur.alts = [] ∧ q'.names = [] ∧
        q'.cur.items.reverse.map Item.re = q.cur.items.reverse.map Item.re ++ res) :
    compile false (prefixPattern p tail) = .ok (prefixRe p res) := by
  have hquote : isPlain ('\'' :: p) = true := by
    simp [isPlain, metachars, hp]
  have htext : prefixPattern p tail = escapePrefix ('\'' :: p) ++ tail := by
    simp [prefixPattern, escapePrefix_cons]
  obtain ⟨q', hparse, halts, hnames, hitems⟩ := hrest (pushLiterals {} ('\'' :: p)) rfl rfl rfl rfl
  have hloop := parseLoop_literals ('\'' :: p) hquote ((Token.plain '(' :: rest).length + 1) {} rest
  have hlength : (('\'' :: p).map token ++ Token.plain '(' :: rest).length + 1 =
      (Token.plain '(' :: rest).length + 1 + ('\'' :: p).length := by
    rw [List.length_append, List.length_map]
    omega
  have hre : q'.cur.close = .concat (('\'' :: p).map literal ++ res) := by
    rw [Frame.close, Frame.current, halts, hitems]
    simp [pushLiterals, Item.literal, Function.comp_def]
    rfl
  rw [compile, htext, tokenize_escapePrefix, htokens]
  simp only [Except.map, bind, Except.bind]
  rw [hlength, hloop, hparse]
  simp only [pure, Except.pure]
  rw [hre, hnames]
  rfl

theorem compile_sipPattern {p : Text} (hp : isPlain p = true) :
    compile false (prefixPattern p sipTail) = .ok (prefixRe p sipTailRe) := by
  have htokens : tokenize sipTail = .ok (.plain '(' :: [.escaped '\\', .escaped '\\', .plain ')',
      .plain '?', .plain '(', .plain '.', .plain '*', .plain ')', .plain '\'']) := by
    decide +kernel
  refine compile_prefixPattern hp htokens ?_
  rintro ⟨⟨alts, items⟩, stack, groups, names⟩ hstack halts hgroups hnames
  cases hstack
  cases halts
  cases hgroups
  cases hnames
  exact ⟨⟨⟨[], ⟨.unit, literal '\''⟩ :: ⟨.unit, .group 2 (.concat [.star (.sat .any)])⟩ ::
    ⟨.repeated, .opt (separatorRe 1)⟩ :: items⟩, [], 3, []⟩, rfl, rfl, rfl,
    by simp [sipTailRe, untilQuote]⟩

theorem compile_pyqtPattern {p : Text} (hp : isPlain p = true) :
    compile false (prefixPattern p pyqtTail) = .ok (prefixRe p pyqtTailRe) := by
  have htokens : tokenize pyqtTail = .ok (.plain '(' :: [.plain '(', .escaped '\\', .escaped '\\',
      .plain ')', .plain '|', .plain '/', .plain ')', .plain '?', .plain '(', .plain '.', .plain '*',
      .plain ')', .plain '\'']) := by
    decide +kernel
  refine compile_prefixPattern hp htokens ?_
  rintro ⟨⟨alts, items⟩, stack, groups, names⟩ hstack halts hgroups hnames
  cases hstack
  cases halts
  cases hgroups
  cases hnames
  exact ⟨⟨⟨[], ⟨.unit, literal '\''⟩ :: ⟨.unit, .group 3 (.concat [.star (.sat .any)])⟩ ::
    ⟨.repeated, .opt (.group 1 (.alt (.concat [separatorRe 2]) (.concat [literal '/'])))⟩ ::
    items⟩, [], 4, []⟩, rfl, rfl, rfl, by simp [pyqtTailRe, untilQuote]⟩

end Config
