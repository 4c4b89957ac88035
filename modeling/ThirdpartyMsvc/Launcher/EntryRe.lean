import ThirdpartyMsvc.Python.Sre

/-!
# The pattern of an entry line

`entryRe` is the compiled form of distlib's `ENTRY_RE`, which reads
`name = callable [flags]` at the beginning of a line. The pattern is not
anchored at its end, and every part behind the first word of the callable is
optional, so on every line the engine's first match is also the longest one.
`scanEntry` computes its name and its callable without backtracking, and
`match_entryRe` says that the engine finds nothing else.
-/

namespace Launcher

open Python Regex

/-- The text of ENTRY_RE, which is compiled in the verbose mode. -/
def entryReText : Text :=
  "(?P<name>(\\w|[-.+])+)
                      \\s*=\\s*(?P<callable>(\\w+)([:\\.]\\w+)*)
                      \\s*(\\[\\s*(?P<flags>\\w+(=\\w+)?(,\\s*\\w+(=\\w+)?)*)\\s*\\])?
                      ".toList

def wordRe : Regex CharSet := sat ⟨false, [.category .word false]⟩

def spaceRe : Regex CharSet := sat ⟨false, [.category .space false]⟩

def literalRe (c : Char) : Regex CharSet := sat (.literal c)

def nameRe : Regex CharSet :=
  group 2 (alt (concat [wordRe])
    (concat [sat ⟨false, [.literal '-', .literal '.', .literal '+']⟩]))

/-- One further component of the callable, with its separator. -/
def componentRe : Regex CharSet :=
  group 5 (concat [sat ⟨false, [.literal ':', .literal '.']⟩, plus wordRe])

def flagValueRe (i : ℕ) : Regex CharSet :=
  opt (group i (concat [literalRe '=', plus wordRe]))

def flagsRe : Regex CharSet :=
  opt (group 6 (concat [literalRe '[', star spaceRe,
    group 7 (concat [plus wordRe, flagValueRe 8,
      star (group 9 (concat [literalRe ',', star spaceRe, plus wordRe, flagValueRe 10]))]),
    star spaceRe, literalRe ']']))

def entryRe : Pattern where
  re := concat [group 1 (concat [plus nameRe]), star spaceRe, literalRe '=', star spaceRe,
    group 3 (concat [group 4 (concat [plus wordRe]), star componentRe]),
    star spaceRe, flagsRe]
  names := [("flags".toList, 7), ("callable".toList, 3), ("name".toList, 1)]

theorem compile_entryReText : compile true entryReText = .ok entryRe := by
  decide +kernel

/-- The groups name and callable of ENTRY_RE.match. -/
def matchEntry (T : CharTable) (line : Text) : Option (Text × Text) :=
  (entryRe.match_ T line).bind fun m =>
    (entryRe.namedGroup m "name".toList).bind fun name =>
      (entryRe.namedGroup m "callable".toList).map fun callable => (name, callable)

/-! ## The longest match -/

/-- The characters of a name. -/
def isNameChar (T : CharTable) (c : Char) : Bool :=
  T.word c || (c == '-' || c == '.' || c == '+')

/-- The characters that separate the components of a callable. -/
def isSeparator (c : Char) : Bool := c == ':' || c == '.'

/-- The longest continuation of a callable: word characters, and separators
that a word character follows. -/
def callableRest (T : CharTable) : Text → Text
  | [] => []
  | c :: t =>
      if T.word c || (isSeparator c && t.head?.any T.word) then c :: callableRest T t
      else []

/-- The longest callable at the beginning of a text. -/
def scanCallable (T : CharTable) (t : Text) : Option Text :=
  if t.head?.any T.word then some (callableRest T t) else none

/-- The name and the callable of an entry line. -/
def scanEntry (T : CharTable) (line : Text) : Option (Text × Text) :=
  let name := line.takeWhile (isNameChar T)
  if name = [] then none
  else
    match (line.dropWhile (isNameChar T)).dropWhile T.space with
    | '=' :: t => (scanCallable T (t.dropWhile T.space)).map fun callable => (name, callable)
    | _ => none

section classes

variable (T : CharTable)

@[simp] theorem mem_word (c : Char) :
    CharSet.mem T ⟨false, [.category .word false]⟩ c = T.word c := by
  simp [CharSet.mem]

@[simp] theorem mem_space (c : Char) :
    CharSet.mem T ⟨false, [.category .space false]⟩ c = T.space c := by
  simp [CharSet.mem]

@[simp] theorem mem_separator (c : Char) :
    CharSet.mem T ⟨false, [.literal ':', .literal '.']⟩ c = isSeparator c := by
  simp [CharSet.mem, isSeparator, Bool.beq_comm (a := c)]

theorem mem_dash (c : Char) :
    CharSet.mem T ⟨false, [.literal '-', .literal '.', .literal '+']⟩ c =
      (c == '-' || c == '.' || c == '+') := by
  simp [CharSet.mem, Bool.beq_comm (a := c), Bool.or_assoc]

theorem not_space_of_isNameChar {c : Char} (h : isNameChar T c = true) :
    T.space c = false := by
  simp only [isNameChar, Bool.or_eq_true, beq_iff_eq] at h
  rcases h with h | (rfl | rfl) | rfl
  · exact T.not_space_of_word c h
  · exact T.space_of_ascii (by decide) false (by decide)
  · exact T.space_of_ascii (by decide) false (by decide)
  · exact T.space_of_ascii (by decide) false (by decide)

theorem not_space_equals : T.space '=' = false :=
  T.space_of_ascii (by decide) false (by decide)

theorem not_isNameChar_equals : isNameChar T '=' = false := by
  simp [isNameChar, T.word_of_ascii (c := '=') (by decide) false (by decide)]

end classes

/-! ## The parts of the pattern -/

section parts

variable {β : Type*} (T : CharTable)

theorem oneSymbol_word :
    OneSymbol (β := β) (CharSet.mem T) wordRe T.word (fun _ => []) where
  nil _ _ _ := rfl
  cons a b t cs k := by simp [wordRe]

theorem oneSymbol_space :
    OneSymbol (β := β) (CharSet.mem T) spaceRe T.space (fun _ => []) where
  nil _ _ _ := rfl
  cons a b t cs k := by simp [spaceRe]

theorem oneSymbol_name :
    OneSymbol (β := β) (CharSet.mem T) nameRe (isNameChar T) (fun a => [(2, [a])]) := by
  have h := oneSymbol_group_alt (β := β) (CharSet.mem T) 2
    ⟨false, [.category .word false]⟩ ⟨false, [.literal '-', .literal '.', .literal '+']⟩
  have hp : (fun a => CharSet.mem T ⟨false, [.category .word false]⟩ a ||
      CharSet.mem T ⟨false, [.literal '-', .literal '.', .literal '+']⟩ a) = isNameChar T := by
    funext a
    rw [mem_word, mem_dash, isNameChar]
  rw [hp] at h
  exact h

theorem run_literalRe_cons (c a : Char) (b t : Text) (cs : List (ℕ × Text))
    (k : Cursor Char → Option β) :
    run (CharSet.mem T) (literalRe c) ⟨b, a :: t, cs⟩ k =
      if a = c then k ⟨a :: b, t, cs⟩ else none := by
  by_cases h : a = c
  · simp [literalRe, h]
  · have h' : ¬ c = a := fun heq => h heq.symm
    simp [literalRe, h, h']

theorem run_plus_word_nil (b rest : Text) (cs : List (ℕ × Text))
    (k : Cursor Char → Option β) (h : Stops T.word rest) :
    run (CharSet.mem T) (plus wordRe) ⟨b, rest, cs⟩ k = none := by
  rw [run_plus]
  cases rest with
  | nil => rfl
  | cons a t => simp [wordRe, (stops_cons _ a t).mp h]

/-- A word is consumed whole when whatever follows is accepted. -/
theorem run_plus_word (a : Char) (w b rest : Text) (cs : List (ℕ × Text))
    (k : Cursor Char → Option β) (hw : ∀ c ∈ a :: w, T.word c = true)
    (hr : Stops T.word rest) (hk : (k ⟨(a :: w).reverse ++ b, rest, cs⟩).isSome) :
    run (CharSet.mem T) (plus wordRe) ⟨b, (a :: w) ++ rest, cs⟩ k =
      k ⟨(a :: w).reverse ++ b, rest, cs⟩ := by
  obtain ⟨x, hx⟩ := Option.isSome_iff_exists.mp hk
  have hstar := run_star_greedy (oneSymbol_word T) w (a :: b) rest cs k
    (fun c hc => hw c (by simp [hc])) hr (x := x) (by simpa using hx)
  have ha : T.word a = true := hw a (by simp)
  rw [run_plus, hx, ← hstar]
  simp [wordRe, ha]

theorem callableRest_append {w : Text} (hw : ∀ c ∈ w, T.word c = true) (rest : Text) :
    callableRest T (w ++ rest) = w ++ callableRest T rest := by
  induction w with
  | nil => rfl
  | cons c w ih =>
      have hc : T.word c = true := hw c (by simp)
      simp [callableRest, hc, ih fun d hd => hw d (by simp [hd])]

theorem callableRest_component {s a : Char} {t : Text} (hs : isSeparator s = true)
    (ha : T.word a = true) :
    callableRest T (s :: a :: t) = s :: callableRest T (a :: t) := by
  rw [callableRest]
  simp [hs, ha]

/-- One component is consumed whole when whatever follows is accepted. -/
theorem run_componentRe (s a : Char) (w b u : Text) (cs : List (ℕ × Text))
    (k : Cursor Char → Option β) (hs : isSeparator s = true)
    (hw : ∀ c ∈ a :: w, T.word c = true) (hu : Stops T.word u)
    (hk : (k ⟨(s :: a :: w).reverse ++ b, u, (5, s :: a :: w) :: cs⟩).isSome) :
    run (CharSet.mem T) componentRe ⟨b, s :: ((a :: w) ++ u), cs⟩ k =
      k ⟨(s :: a :: w).reverse ++ b, u, (5, s :: a :: w) :: cs⟩ := by
  have hcap : (⟨(a :: w).reverse ++ (s :: b), u, cs⟩ : Cursor Char).capture 5
      ⟨b, s :: ((a :: w) ++ u), cs⟩ =
      ⟨(s :: a :: w).reverse ++ b, u, (5, s :: a :: w) :: cs⟩ := by
    have hb : (a :: w).reverse ++ (s :: b) = (s :: a :: w).reverse ++ b := by simp
    rw [hb]
    exact Cursor.capture_append 5 _ (s :: a :: w) _ _ _ rfl
  rw [componentRe, run_group, run_concat_cons, run_sat_cons, mem_separator, if_pos hs,
    run_concat_cons, run_plus_word T a w (s :: b) u cs _ hw hu]
  · simp only [concat, run_empty, hcap]
  · simpa only [concat, run_empty, hcap] using hk

/-- Where no separated word begins, there is no component. -/
theorem run_componentRe_none (b rest : Text) (cs : List (ℕ × Text))
    (k : Cursor Char → Option β)
    (h : ∀ s a t, rest = s :: a :: t → isSeparator s = true → T.word a = false) :
    run (CharSet.mem T) componentRe ⟨b, rest, cs⟩ k = none := by
  cases rest with
  | nil => rfl
  | cons s t =>
      rw [componentRe, run_group, run_concat_cons, run_sat_cons, mem_separator]
      by_cases hs : isSeparator s = true
      · rw [if_pos hs, run_concat_cons]
        apply run_plus_word_nil
        cases t with
        | nil => simp
        | cons a t => exact (stops_cons _ a t).mpr (h s a t rfl hs)
      · rw [if_neg hs]

theorem callableRest_eq_nil {rest : Text} (hr : Stops T.word rest)
    (h : ∀ s a t, rest = s :: a :: t → isSeparator s = true → T.word a = false) :
    callableRest T rest = [] := by
  cases rest with
  | nil => rfl
  | cons s t =>
      have hs : T.word s = false := (stops_cons _ s t).mp hr
      rw [callableRest, hs, Bool.false_or, if_neg]
      intro hc
      rw [Bool.and_eq_true] at hc
      cases t with
      | nil => simp at hc
      | cons a t =>
          have ha := h s a t rfl hc.1
          simp [ha] at hc

/-- The components behind the first one are consumed as `callableRest` says,
whatever accepting continuation follows. The induction is on a bound of the
text that remains. -/
theorem run_star_component (k : Cursor Char → Option β) (hk : ∀ c, (k c).isSome)
    (n : ℕ) (b rest : Text) (cs : List (ℕ × Text)) (hn : rest.length ≤ n)
    (hr : Stops T.word rest) :
    ∃ new, (∀ x ∈ new, x.1 = 5) ∧
      run (CharSet.mem T) (star componentRe) ⟨b, rest, cs⟩ k =
        k ⟨(callableRest T rest).reverse ++ b, rest.drop (callableRest T rest).length,
          new ++ cs⟩ := by
  induction n generalizing b rest cs with
  | zero =>
      obtain rfl : rest = [] := List.eq_nil_of_length_eq_zero (by omega)
      exact ⟨[], by simp, by rw [run_star_unfold]; rfl⟩
  | succ n ih =>
      by_cases hgo : ∀ s a t, rest = s :: a :: t → isSeparator s = true → T.word a = false
      · refine ⟨[], by simp, ?_⟩
        rw [run_star_unfold, run_componentRe_none T b rest cs _ hgo,
          callableRest_eq_nil T hr hgo, Option.none_or]
        rfl
      · push Not at hgo
        obtain ⟨s, a, t, rfl, hs, ha⟩ := hgo
        rw [ne_eq, Bool.not_eq_false] at ha
        -- one more component `s a w`, then the rest `u` behind it
        obtain ⟨w, u, rfl, hw, hu⟩ : ∃ w u, t = w ++ u ∧ (∀ c ∈ w, T.word c = true) ∧
            Stops T.word u := exists_run_append T.word t
        have haw : ∀ c ∈ a :: w, T.word c = true := by
          intro c hc
          rcases List.mem_cons.mp hc with rfl | hc
          · exact ha
          · exact hw c hc
        obtain ⟨new, hnew, hrun⟩ := ih ((s :: a :: w).reverse ++ b) u
          ((5, s :: a :: w) :: cs) (by simp at hn; omega) hu
        refine ⟨new ++ [(5, s :: a :: w)], ?_, ?_⟩
        · intro x hx
          rcases List.mem_append.mp hx with hx | hx
          · exact hnew x hx
          · obtain rfl := List.mem_singleton.mp hx
            rfl
        · have hrest : callableRest T (s :: ((a :: w) ++ u)) =
              (s :: a :: w) ++ callableRest T u := by
            rw [List.cons_append, callableRest_component T hs ha, ← List.cons_append,
              callableRest_append T haw]
            rfl
          have hround : run (CharSet.mem T) componentRe ⟨b, s :: ((a :: w) ++ u), cs⟩
              (fun d => if d.after.length < (s :: ((a :: w) ++ u)).length then
                run (CharSet.mem T) (star componentRe) d k else none) =
              run (CharSet.mem T) (star componentRe)
                ⟨(s :: a :: w).reverse ++ b, u, (5, s :: a :: w) :: cs⟩ k := by
            have hshort : u.length < (s :: ((a :: w) ++ u)).length := by simp; omega
            rw [run_componentRe T s a w b u cs _ hs haw hu, if_pos hshort]
            rw [if_pos hshort]
            exact isSome_run_star _ _ _ _ (hk _)
          obtain ⟨x, hx⟩ := Option.isSome_iff_exists.mp
            (hk ⟨(callableRest T u).reverse ++ ((s :: a :: w).reverse ++ b),
              u.drop (callableRest T u).length, new ++ (5, s :: a :: w) :: cs⟩)
          rw [← List.cons_append, run_star_unfold, hround, hrun, hrest, hx, Option.some_or, ← hx]
          congr 1
          simp [List.drop_append]

/-- The callable is consumed as `scanCallable` says, whatever accepting
continuation follows. -/
theorem run_callable (k : Cursor Char → Option β) (hk : ∀ c, (k c).isSome)
    (b t : Text) (cs : List (ℕ × Text)) (callable : Text)
    (h : scanCallable T t = some callable) :
    ∃ new, run (CharSet.mem T) (group 3 (concat [group 4 (concat [plus wordRe]),
          star componentRe])) ⟨b, t, cs⟩ k =
        k ⟨callable.reverse ++ b, t.drop callable.length, (3, callable) :: new ++ cs⟩ ∧
      ∀ x ∈ new, x.1 = 4 ∨ x.1 = 5 := by
  obtain ⟨w, u, rfl, hw, hu⟩ := exists_run_append T.word t
  cases w with
  | nil =>
      rw [scanCallable, if_neg] at h
      · cases h
      · cases u with
        | nil => simp
        | cons a u => simp [(stops_cons _ a u).mp hu]
  | cons a w =>
      have hhead : ((a :: w) ++ u).head?.any T.word = true := by
        simpa using hw a (by simp)
      rw [scanCallable, if_pos hhead, callableRest_append T hw, Option.some.injEq] at h
      subst h
      have hcap₄ : (⟨(a :: w).reverse ++ b, u, cs⟩ : Cursor Char).capture 4
          ⟨b, (a :: w) ++ u, cs⟩ = ⟨(a :: w).reverse ++ b, u, (4, a :: w) :: cs⟩ :=
        Cursor.capture_append 4 _ _ _ _ _ rfl
      obtain ⟨new, hnew, hrun⟩ := run_star_component T
        (fun d => k (d.capture 3 ⟨b, (a :: w) ++ u, cs⟩)) (fun _ => hk _) u.length
        ((a :: w).reverse ++ b) u ((4, a :: w) :: cs) le_rfl hu
      refine ⟨new ++ [(4, a :: w)], ?_, ?_⟩
      · rw [run_group, run_concat_cons, run_group, run_concat_cons,
          run_plus_word T a w b u cs _ hw hu]
        · simp only [concat, run_seq, run_empty, hcap₄, hrun]
          congr 1
          rw [Cursor.capture_append 3 _ ((a :: w) ++ callableRest T u) _ _ _ (by simp)]
          simp [List.drop_append]
        · simp only [concat, run_seq, run_empty]
          exact isSome_run_star _ _ _ _ (hk _)
      · intro x hx
        rcases List.mem_append.mp hx with hx | hx
        · exact Or.inr (hnew x hx)
        · obtain rfl := List.mem_singleton.mp hx
          exact Or.inl rfl

theorem run_callable_none (k : Cursor Char → Option β) (b t : Text)
    (cs : List (ℕ × Text)) (h : scanCallable T t = none) :
    run (CharSet.mem T) (group 3 (concat [group 4 (concat [plus wordRe]),
      star componentRe])) ⟨b, t, cs⟩ k = none := by
  have hstop : Stops T.word t := by
    cases t with
    | nil => simp
    | cons a t =>
        rw [stops_cons]
        by_contra ha
        rw [Bool.not_eq_false] at ha
        simp [scanCallable, ha] at h
  rw [run_group, run_concat_cons, run_group, run_concat_cons]
  exact run_plus_word_nil T _ _ _ _ hstop

/-- The name is consumed whole when the continuation refuses every shorter
name. -/
theorem run_name (k : Cursor Char → Option β) (name b rest : Text)
    (cs : List (ℕ × Text)) (hne : name ≠ []) (hw : ∀ c ∈ name, isNameChar T c = true)
    (hr : Stops (isNameChar T) rest)
    (hk : ∀ a t d cs', isNameChar T a = true → k ⟨d, a :: t, cs'⟩ = none) :
    ∃ new, run (CharSet.mem T) (group 1 (concat [plus nameRe])) ⟨b, name ++ rest, cs⟩ k =
        k ⟨name.reverse ++ b, rest, (1, name) :: new ++ cs⟩ ∧ ∀ x ∈ new, x.1 = 2 := by
  obtain ⟨a, w, rfl⟩ := List.exists_cons_of_ne_nil hne
  refine ⟨symbolCaps (fun c => [(2, [c])]) (a :: w), ?_, ?_⟩
  · rw [run_group, run_concat_cons, run_plus, List.cons_append,
      (oneSymbol_name T).cons, if_pos (hw a (by simp)),
      run_star_possessive (oneSymbol_name T) w _ rest _ _
        (fun c hc => hw c (by simp [hc])) hr]
    · simp only [concat, run_empty]
      congr 1
      rw [Cursor.capture_append 1 _ (a :: w) _ _ _ (by simp)]
      simp [symbolCaps_cons]
    · intro c t d cs' hc
      exact hk c t d _ hc
  · intro x hx
    obtain ⟨c, -, hc⟩ := List.mem_flatMap.mp hx
    obtain rfl := List.mem_singleton.mp hc
    rfl

theorem run_name_none (k : Cursor Char → Option β) (b rest : Text)
    (cs : List (ℕ × Text)) (hr : Stops (isNameChar T) rest) :
    run (CharSet.mem T) (group 1 (concat [plus nameRe])) ⟨b, rest, cs⟩ k = none := by
  rw [run_group, run_concat_cons, run_plus]
  cases rest with
  | nil => exact (oneSymbol_name T).nil _ _ _
  | cons a t => rw [(oneSymbol_name T).cons, (stops_cons _ a t).mp hr, if_neg (by simp)]

end parts

/-! ## The match -/

/-- What follows the callable is optional. -/
theorem isSome_run_tail (T : CharTable) (c : Cursor Char) :
    (run (CharSet.mem T) (concat [star spaceRe, flagsRe]) c some).isSome := by
  rw [run_concat_cons]
  apply isSome_run_star
  rw [run_concat_cons, flagsRe, run_opt, Option.isSome_or, Bool.or_eq_true]
  exact Or.inr rfl

/-- White space before a symbol of another class is consumed whole. -/
theorem run_space {β : Type*} (T : CharTable) (b t : Text) (cs : List (ℕ × Text))
    (k : Cursor Char → Option β)
    (hk : ∀ a u d cs', T.space a = true → k ⟨d, a :: u, cs'⟩ = none) :
    run (CharSet.mem T) (star spaceRe) ⟨b, t, cs⟩ k =
      k ⟨(t.takeWhile T.space).reverse ++ b, t.dropWhile T.space, cs⟩ := by
  have hposs := run_star_possessive (oneSymbol_space T) (t.takeWhile T.space) b
    (t.dropWhile T.space) cs k (fun _ ha => List.mem_takeWhile_imp ha)
    (stops_dropWhile _ _) hk
  rw [List.takeWhile_append_dropWhile] at hposs
  simpa using hposs

theorem run_equals_of_space {β : Type*} (T : CharTable) (a : Char) (u d : Text)
    (cs : List (ℕ × Text)) (k : Cursor Char → Option β) (ha : T.space a = true) :
    run (CharSet.mem T) (literalRe '=') ⟨d, a :: u, cs⟩ k = none := by
  have hne : a ≠ '=' := by
    rintro rfl
    rw [not_space_equals] at ha
    cases ha
  rw [run_literalRe_cons, if_neg hne]

/-- The expression behind the name. -/
def assignRe : List (Regex CharSet) :=
  [star spaceRe, literalRe '=', star spaceRe,
    group 3 (concat [group 4 (concat [plus wordRe]), star componentRe]),
    star spaceRe, flagsRe]

theorem run_assign_of_isNameChar (T : CharTable) (a : Char) (t d : Text)
    (cs : List (ℕ × Text)) (ha : isNameChar T a = true) :
    run (CharSet.mem T) (concat assignRe) ⟨d, a :: t, cs⟩ some = none := by
  rw [assignRe, run_concat_cons, run_star_stop (oneSymbol_space T) d (a :: t) cs _
    ((stops_cons _ a t).mpr (not_space_of_isNameChar T ha)), run_concat_cons,
    run_literalRe_cons, if_neg]
  rintro rfl
  rw [not_isNameChar_equals] at ha
  cases ha

/-- Behind the name the engine finds the callable that the scan finds, and it
keeps the captured name. -/
theorem run_assign (T : CharTable) (b rest : Text) (cs : List (ℕ × Text)) :
    ((run (CharSet.mem T) (concat assignRe) ⟨b, rest, cs⟩ some).bind fun m =>
        (m.group 1).bind fun name => (m.group 3).map fun callable => (name, callable)) =
      match rest.dropWhile T.space with
      | '=' :: t => (scanCallable T (t.dropWhile T.space)).bind fun callable =>
          (cs.lookup 1).map fun name => (name, callable)
      | _ => none := by
  rw [assignRe, run_concat_cons, run_space T b rest cs _ fun a u d cs' ha => by
    rw [run_concat_cons]; exact run_equals_of_space T a u d cs' _ ha]
  rw [run_concat_cons]
  cases hrest : rest.dropWhile T.space with
  | nil => rfl
  | cons a t =>
      rw [run_literalRe_cons]
      by_cases ha : a = '='
      · subst ha
        rw [if_pos rfl, run_concat_cons, run_space]
        · simp only [run_concat_cons _ (group 3 _)]
          cases hscan : scanCallable T (t.dropWhile T.space) with
          | none => rw [run_callable_none T _ _ _ _ hscan]; rfl
          | some callable =>
              obtain ⟨new, hrun, hnew⟩ := run_callable T
                (fun d => run (CharSet.mem T) (concat [star spaceRe, flagsRe]) d some)
                (isSome_run_tail T) ((t.takeWhile T.space).reverse ++
                  '=' :: ((rest.takeWhile T.space).reverse ++ b)) _ cs callable hscan
              rw [hrun]
              obtain ⟨m, hm⟩ := Option.isSome_iff_exists.mp (isSome_run_tail T
                ⟨callable.reverse ++ ((t.takeWhile T.space).reverse ++
                  '=' :: ((rest.takeWhile T.space).reverse ++ b)),
                  (t.dropWhile T.space).drop callable.length, (3, callable) :: new ++ cs⟩)
              obtain ⟨d, hd, hsome⟩ := run_sound hm
              obtain rfl := Option.some.inj hsome
              have h1 : d.group 1 = cs.lookup 1 := by
                rw [hd.group_eq 1 (by decide), Cursor.group, List.cons_append,
                  List.lookup_cons, List.lookup_append]
                have hnone : new.lookup 1 = none := by
                  rw [List.lookup_eq_none_iff]
                  intro x hx
                  rcases hnew x hx with h | h
                  · simp [h]
                  · simp [h]
                rw [hnone]
                rfl
              have h3 : d.group 3 = some callable := by
                rw [hd.group_eq 3 (by decide), Cursor.group, List.cons_append]
                rfl
              rw [hm, Option.bind_some, Option.bind_some, h1, h3]
              cases cs.lookup 1 <;> rfl
        · intro c u d cs' hc
          rw [run_concat_cons]
          apply run_callable_none
          have hw : T.word c = false := by
            by_contra h
            rw [T.not_space_of_word c (Bool.not_eq_false _ ▸ h)] at hc
            cases hc
          simp [scanCallable, hw]
      · rw [if_neg ha]
        split
        case h_1 t' heq => exact absurd (List.cons.inj heq).1 ha
        case h_2 => rfl

/-- The engine finds what the scan finds. -/
theorem matchEntry_eq_scanEntry (T : CharTable) (line : Text) :
    matchEntry T line = scanEntry T line := by
  have hgroups : matchEntry T line = (run (CharSet.mem T) entryRe.re ⟨[], line, []⟩ some).bind
      fun m => (m.group 1).bind fun name =>
        (m.group 3).map fun callable => (name, callable) := rfl
  obtain ⟨name, rest, rfl, hname, hrest⟩ := exists_run_append (isNameChar T) line
  have hre : entryRe.re = concat (group 1 (concat [plus nameRe]) :: assignRe) := rfl
  rw [hgroups, hre, run_concat_cons, scanEntry, takeWhile_append_of_stops hname hrest,
    dropWhile_append_of_stops hname hrest]
  by_cases hne : name = []
  · subst hne
    rw [List.nil_append, run_name_none T _ _ _ _ hrest, if_pos rfl]
    rfl
  · obtain ⟨new, hrun, -⟩ := run_name T
      (fun d => run (CharSet.mem T) (concat assignRe) d some) name [] rest [] hne hname hrest
      (fun a t d cs' ha => run_assign_of_isNameChar T a t d cs' ha)
    rw [hrun, run_assign, if_neg hne]
    split
    case h_1 t _ => cases scanCallable T (t.dropWhile T.space) <;> rfl
    case h_2 => rfl

end Launcher
