import Mathlib.Data.List.DropRight
import Mathlib.Data.List.Infix
import Mathlib.Tactic.Common

/-!
# Text and character classes

A text is a list of characters. The operations are the string methods that the
scripts use, under Python's names for them; those that depend on the Unicode
database take it as a `CharTable`, which fixes the classification of the ASCII
characters and leaves the other ones open.
-/

/-- A text, character by character. -/
abbrev Text := List Char

/-- The ASCII characters that count as white space. -/
def asciiSpace (c : Char) : Bool :=
  c == ' ' || (9 ≤ c.toNat && c.toNat ≤ 13) || (28 ≤ c.toNat && c.toNat ≤ 31)

theorem toNat_le_of_asciiSpace {c : Char} (h : asciiSpace c = true) : c.toNat ≤ 32 := by
  simp only [asciiSpace, Bool.or_eq_true, beq_iff_eq, Bool.and_eq_true,
    decide_eq_true_eq] at h
  rcases h with (rfl | h) | h
  · decide
  · omega
  · omega

theorem toNat_bounds_of_isAlphanum {c : Char} (h : (c.isAlphanum || c == '_') = true) :
    32 < c.toNat ∧ c.toNat < 128 := by
  have hclass : c.isAlphanum = (decide (c.val ≥ 65 ∧ c.val ≤ 90) ||
      (decide (c.val ≥ 97) && decide (c.val ≤ 122)) ||
      (decide (c.val ≥ 48) && decide (c.val ≤ 57))) := rfl
  simp only [hclass, Bool.or_eq_true, Bool.and_eq_true, decide_eq_true_eq, beq_iff_eq,
    UInt32.le_iff_toNat_le, ge_iff_le] at h
  change (((65 ≤ c.toNat ∧ c.toNat ≤ 90) ∨ (97 ≤ c.toNat ∧ c.toNat ≤ 122)) ∨
    (48 ≤ c.toNat ∧ c.toNat ≤ 57)) ∨ c = '_' at h
  rcases h with ((h | h) | h) | rfl
  · omega
  · omega
  · omega
  · decide

/-- The character classes of the Unicode database. `word` and `space` are the
classes of regular expressions, `space` is also what `strip` removes, and
`idStart`, `idContinue` are the characters of identifiers. -/
structure CharTable where
  word : Char → Bool
  space : Char → Bool
  idStart : Char → Bool
  idContinue : Char → Bool
  word_ascii : ∀ c, c.toNat < 128 → word c = (c.isAlphanum || c == '_')
  space_ascii : ∀ c, c.toNat < 128 → space c = asciiSpace c
  idStart_ascii : ∀ c, c.toNat < 128 → idStart c = (c.isAlpha || c == '_')
  idContinue_ascii : ∀ c, c.toNat < 128 → idContinue c = (c.isAlphanum || c == '_')
  not_space_of_word : ∀ c, word c = true → space c = false
  idContinue_of_idStart : ∀ c, idStart c = true → idContinue c = true
  not_space_of_idContinue : ∀ c, idContinue c = true → space c = false

namespace CharTable

theorem asciiSpace_of_isAlphanum (c : Char) (h : (c.isAlphanum || c == '_') = true) :
    asciiSpace c = false := by
  have hlt := (toNat_bounds_of_isAlphanum h).1
  by_contra hs
  have hle := toNat_le_of_asciiSpace (Bool.not_eq_false _ ▸ hs)
  omega

/-- The table that knows no character beyond ASCII. -/
def ascii : CharTable where
  word c := c.isAlphanum || c == '_'
  space := asciiSpace
  idStart c := c.isAlpha || c == '_'
  idContinue c := c.isAlphanum || c == '_'
  word_ascii _ _ := rfl
  space_ascii _ _ := rfl
  idStart_ascii _ _ := rfl
  idContinue_ascii _ _ := rfl
  not_space_of_word := asciiSpace_of_isAlphanum
  idContinue_of_idStart c h := by
    simp only [Char.isAlphanum, Bool.or_eq_true] at h ⊢
    tauto
  not_space_of_idContinue := asciiSpace_of_isAlphanum

/-- Checks a class on one ASCII character. -/
theorem word_of_ascii (T : CharTable) {c : Char} (h : c.toNat < 128) (b : Bool)
    (hb : (c.isAlphanum || c == '_') = b) : T.word c = b :=
  (T.word_ascii c h).trans hb

theorem not_space_of_isAlphanum (T : CharTable) {c : Char}
    (h : (c.isAlphanum || c == '_') = true) : T.space c = false :=
  (T.space_ascii c (toNat_bounds_of_isAlphanum h).2).trans (asciiSpace_of_isAlphanum c h)

theorem space_of_ascii (T : CharTable) {c : Char} (h : c.toNat < 128) (b : Bool)
    (hb : asciiSpace c = b) : T.space c = b :=
  (T.space_ascii c h).trans hb

end CharTable

namespace Text

/-- A property of the elements of a list is checked one by one. -/
theorem forall_mem_of_all {α : Type*} {l : List α} {p : α → Prop} [DecidablePred p]
    (h : (l.all fun a => decide (p a)) = true) : ∀ a ∈ l, p a :=
  fun a ha => of_decide_eq_true (List.all_eq_true.mp h a ha)

/-- str.lstrip for the class `p`. -/
def lstrip (p : Char → Bool) (t : Text) : Text := t.dropWhile p

/-- str.rstrip for the class `p`. -/
def rstrip (p : Char → Bool) (t : Text) : Text := t.rdropWhile p

/-- str.strip for the class `p`. -/
def strip (p : Char → Bool) (t : Text) : Text := rstrip p (lstrip p t)

/-- str.replace of one character. -/
def replaceChar (c : Char) (new : Text) (t : Text) : Text :=
  t.flatMap fun d => if d = c then new else [d]

/-- The components with a dot between any two of them. -/
def dotted : List Text → Text
  | [] => []
  | [p] => p
  | p :: q :: ps => p ++ '.' :: dotted (q :: ps)

theorem dotted_singleton (p : Text) : dotted [p] = p := rfl

theorem dotted_cons_cons (p q : Text) (ps : List Text) :
    dotted (p :: q :: ps) = p ++ '.' :: dotted (q :: ps) := rfl

theorem notMem_dotted {c : Char} (hc : c ≠ '.') (ps : List Text) (hps : ∀ p ∈ ps, c ∉ p) :
    c ∉ dotted ps := by
  induction ps with
  | nil => simp [dotted]
  | cons p ps ih =>
      have hp := hps p (by simp)
      cases ps with
      | nil => exact hp
      | cons q ps =>
          rw [dotted_cons_cons, List.mem_append, List.mem_cons]
          rintro (h | h | h)
          · exact hp h
          · exact hc h
          · exact ih (fun r hr => hps r (by simp [hr])) h

/-- The lines, each with a line feed behind it. -/
def unlines (ls : List Text) : Text := ls.flatMap (· ++ ['\n'])

/-- Lines without line feeds are read back from the text that they make up. -/
theorem splitOn_unlines (ls : List Text) (hls : ∀ l ∈ ls, '\n' ∉ l) :
    (unlines ls).splitOn '\n' = ls ++ [[]] := by
  induction ls with
  | nil => rfl
  | cons l ls ih =>
      have htail := ih fun l' hl' => hls l' (by simp [hl'])
      have hcons : unlines (l :: ls) = l ++ '\n' :: unlines ls := by simp [unlines]
      rw [hcons, List.splitOn_append_cons_self_of_not_mem (hls l (by simp)), htail,
        List.cons_append]

/-- There is one part more than there are separators. -/
theorem length_splitOn (c : Char) (t : Text) : (t.splitOn c).length = t.count c + 1 := by
  induction t with
  | nil => rfl
  | cons x t ih =>
      rw [List.splitOn_cons_eq_if_modifyHead, List.count_cons]
      by_cases hx : x = c
      · simp [hx, ih]
      · simp [hx, ih]

/-- The operator of Python that tests for a part of a text. -/
def contains (part t : Text) : Bool := decide (part <:+: t)

/-- Universal newlines: every line ending becomes a line feed. -/
def universalNewlines : Text → Text
  | [] => []
  | '\r' :: '\n' :: t => '\n' :: universalNewlines t
  | '\r' :: t => '\n' :: universalNewlines t
  | c :: t => c :: universalNewlines t

/-- The lines of a text, each with the line feed that ends it. -/
def splitLines : Text → List Text
  | [] => []
  | c :: t =>
      if c = '\n' then [c] :: splitLines t
      else match splitLines t with
        | [] => [[c]]
        | l :: ls => (c :: l) :: ls

theorem flatten_splitLines (t : Text) : (splitLines t).flatten = t := by
  induction t with
  | nil => rfl
  | cons c t ih =>
      rw [splitLines]
      split
      · exact congrArg (c :: ·) ih
      · cases hlines : splitLines t with
        | nil =>
            rw [hlines] at ih
            exact congrArg (c :: ·) ih
        | cons l ls =>
            rw [hlines] at ih
            exact congrArg (c :: ·) ih

/-- The lines a file yields when it is read with universal newlines. -/
def readLines (t : Text) : List Text := splitLines (universalNewlines t)

end Text
