import ThirdpartyMsvc.Shell.Cmd

/-!
# The words of a command line

What is needed to follow a line of unknown text through expansion, lexing and
parsing. Text without active characters keeps its characters; every other text
loses at least one of them, which the weight of a path counts.
-/

namespace Shell

/-- A character that is not special to the lexer outside a quotation. -/
def isInactive (c : Char) : Bool := !(c == '\x22' || c == '^' || isOp c)

/-- A character of a word: inactive and no delimiter. -/
def isWordChar (c : Char) : Bool := isInactive c && !isDelim c

theorem isInactive_iff (c : Char) :
    isInactive c = true ↔ c ≠ '\x22' ∧ c ≠ '^' ∧ isOp c = false := by
  simp [isInactive, and_assoc]

theorem isWordChar_iff (c : Char) :
    isWordChar c = true ↔ isInactive c = true ∧ isDelim c = false := by
  simp [isWordChar]

/-! ## Expansion -/

theorem expandFrom_cons (e : Env) {c : Char} (t : Text) (hc : c ≠ '%') :
    expandFrom e none (c :: t) = c :: expandFrom e none t := by
  rw [expandFrom.eq_def]
  split <;> simp_all

theorem expandFrom_append (e : Env) (w t : Text) (hw : '%' ∉ w) :
    expandFrom e none (w ++ t) = w ++ expandFrom e none t := by
  induction w with
  | nil => rfl
  | cons c w ih =>
      rw [List.mem_cons, not_or] at hw
      rw [List.cons_append, expandFrom_cons e _ (Ne.symm hw.1), ih hw.2, List.cons_append]

theorem expand_of_notMem (e : Env) (w : Text) (hw : '%' ∉ w) : expand e w = w := by
  have h := expandFrom_append e w [] hw
  rw [List.append_nil] at h
  rw [expand, h, expandFrom, List.append_nil]

/-! ## Lexing -/

theorem lex_cons {c : Char} (t : Text) (hc : isInactive c = true) :
    lex false (c :: t) = .plain c :: lex false t := by
  obtain ⟨hquote, hcaret, hop⟩ := (isInactive_iff c).mp hc
  have hgt : c ≠ '>' := by
    rintro rfl
    simp [isOp] at hop
  rw [lex.eq_def]
  split <;> simp_all

theorem lex_quote (t : Text) : lex false ('\x22' :: t) = .inert '\x22' :: lex true t := by
  rw [lex] <;> simp

theorem lex_append (w t : Text) (hw : ∀ c ∈ w, isInactive c = true) :
    lex false (w ++ t) = w.map .plain ++ lex false t := by
  induction w with
  | nil => rfl
  | cons c w ih =>
      rw [List.cons_append, lex_cons _ (hw c (by simp)), ih fun d hd => hw d (by simp [hd]),
        List.map_cons, List.cons_append]

/-- Whether a text has an active operator or caret; the flag says whether a
quotation is open. -/
def hasActive : Bool → Text → Bool
  | _, [] => false
  | true, c :: t => hasActive (c ≠ '\x22') t
  | false, c :: t => if c = '\x22' then hasActive true t else c == '^' || isOp c || hasActive false t

theorem chars_append (ss ts : List Sym) : chars (ss ++ ts) = chars ss ++ chars ts :=
  List.filterMap_append

theorem chars_map_plain (w : Text) : chars (w.map .plain) = w := by
  rw [chars, List.filterMap_map]
  exact List.filterMap_some

theorem chars_cons_inert (c : Char) (ss : List Sym) :
    chars (.inert c :: ss) = c :: chars ss := rfl

theorem chars_cons_plain (c : Char) (ss : List Sym) :
    chars (.plain c :: ss) = c :: chars ss := rfl

theorem chars_cons_op (c : Char) (ss : List Sym) : chars (.op c :: ss) = chars ss := rfl

/-- A text without active characters has no operators and keeps its characters. -/
theorem lex_of_not_hasActive (q : Bool) (t : Text) (ht : hasActive q t = false) :
    (∀ s ∈ lex q t, s.isOperator = false) ∧ chars (lex q t) = t := by
  induction t generalizing q with
  | nil => cases q <;> exact ⟨by simp [lex], rfl⟩
  | cons c t ih =>
      cases q with
      | true =>
          rw [hasActive] at ht
          have h := ih _ ht
          rw [lex, chars_cons_inert, h.2]
          exact ⟨List.forall_mem_cons.mpr ⟨rfl, h.1⟩, rfl⟩
      | false =>
          rw [hasActive] at ht
          by_cases hquote : c = '\x22'
          · rw [if_pos hquote] at ht
            have h := ih _ ht
            rw [hquote, lex_quote, chars_cons_inert, h.2]
            exact ⟨List.forall_mem_cons.mpr ⟨rfl, h.1⟩, rfl⟩
          · rw [if_neg hquote] at ht
            simp only [Bool.or_eq_false_iff, beq_eq_false_iff_ne] at ht
            have h := ih _ ht.2
            rw [lex_cons t ((isInactive_iff c).mpr ⟨hquote, ht.1⟩), chars_cons_plain, h.2]
            exact ⟨List.forall_mem_cons.mpr ⟨rfl, h.1⟩, rfl⟩

theorem length_chars_lex_le (q : Bool) (t : Text) : (chars (lex q t)).length ≤ t.length := by
  induction q, t using lex.induct with
  | case1 q => cases q <;> simp [lex, chars]
  | case2 c t ih => simpa [lex, chars_cons_inert] using ih
  | case3 => simp [lex, chars]
  | case4 d t ih =>
      rw [lex, chars_cons_inert]
      simp only [List.length_cons]
      omega
  | case5 t ih =>
      rw [lex, chars_cons_op, chars_cons_inert]
      simp only [List.length_cons]
      omega
  | case6 t _ _ _ ih => simpa [lex_quote, chars_cons_inert] using ih
  | case7 c t h₁ h₂ h₃ hquote hop ih =>
      rw [lex, if_neg hquote, if_pos hop, chars_cons_op, List.length_cons]
      · omega
      all_goals assumption
  | case8 c t h₁ h₂ h₃ hquote hop ih =>
      rw [lex, if_neg hquote, if_neg hop, chars_cons_plain, List.length_cons, List.length_cons]
      · omega
      all_goals assumption

/-- A text with an active character loses one. -/
theorem length_chars_lex_lt (q : Bool) (t : Text) (ht : hasActive q t = true) :
    (chars (lex q t)).length < t.length := by
  induction q, t using lex.induct with
  | case1 q => cases q <;> simp [hasActive] at ht
  | case2 c t ih =>
      rw [hasActive] at ht
      simpa [lex, chars_cons_inert] using ih ht
  | case3 => simp [lex, chars]
  | case4 d t =>
      have hle := length_chars_lex_le false t
      rw [lex, chars_cons_inert]
      simp only [List.length_cons]
      omega
  | case5 t =>
      have hle := length_chars_lex_le false t
      rw [lex, chars_cons_op, chars_cons_inert]
      simp only [List.length_cons]
      omega
  | case6 t _ _ _ ih =>
      rw [hasActive, if_pos rfl] at ht
      simpa [lex_quote, chars_cons_inert] using ih ht
  | case7 c t h₁ h₂ h₃ hquote hop =>
      have hle := length_chars_lex_le false t
      rw [lex, if_neg hquote, if_pos hop, chars_cons_op, List.length_cons]
      · omega
      all_goals assumption
  | case8 c t h₁ h₂ h₃ hquote hop ih =>
      have hcaret : c ≠ '^' := by
        rintro rfl
        cases t with
        | nil => exact h₁ rfl rfl
        | cons d t => exact h₂ d t rfl rfl
      rw [hasActive, if_neg hquote] at ht
      simp only [beq_eq_false_iff_ne.mpr hcaret, Bool.not_eq_true _ ▸ hop, Bool.false_or] at ht
      have hlt := ih ht
      rw [lex, if_neg hquote, if_neg hop, chars_cons_plain, List.length_cons, List.length_cons]
      · omega
      all_goals assumption

/-! ## Commands -/

/-- The first command of a line reaches up to the first separator. -/
theorem commands_eq_cons (ss : List Sym) :
    ∃ rest, commands ss = (ss.takeWhile fun s => !s.separates) :: rest := by
  induction ss with
  | nil => exact ⟨[], by simp [commands]⟩
  | cons s ss ih =>
      obtain ⟨rest, hrest⟩ := ih
      unfold commands at hrest ⊢
      rw [List.splitOnP_cons_eq_if_modifyHead]
      by_cases hs : s.separates = true
      · exact ⟨ss.splitOnP Sym.separates, by simp [hs]⟩
      · exact ⟨rest, by simp [hs, hrest]⟩

theorem commands_of_not_separates (ss : List Sym) (hss : ∀ s ∈ ss, s.separates = false) :
    commands ss = [ss] :=
  List.splitOnP_eq_singleton hss

theorem separates_of_not_isOperator {s : Sym} (hs : s.isOperator = false) :
    s.separates = false := by
  cases s with
  | plain c => rfl
  | inert c => rfl
  | op c => simp [Sym.isOperator] at hs

theorem isOperator_of_mem_map_plain (w : Text) :
    ∀ s ∈ w.map Sym.plain, s.isOperator = false := by
  intro s hs
  obtain ⟨c, -, rfl⟩ := List.mem_map.mp hs
  rfl

theorem dropRedirects_append (w ss : List Sym) (hw : ∀ s ∈ w, s.isOperator = false) :
    dropRedirects .none (w ++ ss) = w ++ dropRedirects .none ss := by
  induction w with
  | nil => rfl
  | cons s w ih =>
      rw [List.cons_append, dropRedirects, if_neg (by simp [hw s (by simp)]),
        ih fun s' hs' => hw s' (by simp [hs']), List.cons_append]

theorem dropRedirects_of_not_isOperator (ss : List Sym) (hss : ∀ s ∈ ss, s.isOperator = false) :
    dropRedirects .none ss = ss := by
  have h := dropRedirects_append ss [] hss
  rwa [List.append_nil, dropRedirects, List.append_nil] at h

theorem sublist_dropRedirects (r : Redirect) (ss : List Sym) :
    List.Sublist (dropRedirects r ss) ss := by
  induction ss generalizing r with
  | nil => cases r <;> simp [dropRedirects]
  | cons s ss ih =>
      cases r with
      | none =>
          rw [dropRedirects]
          split
          · exact (ih _).cons s
          · exact (ih _).cons_cons s
      | operator =>
          rw [dropRedirects]
          split <;> exact (ih _).cons s
      | target =>
          rw [dropRedirects]
          split
          · exact (ih _).cons s
          · split
            · exact (ih _).cons_cons s
            · exact (ih _).cons s

theorem takeWhile_dropWhile_append {α : Type} (p : α → Bool) (w rest : List α)
    (hw : ∀ x ∈ w, p x = true) (hrest : ∀ x ∈ rest.head?, p x = false) :
    (w ++ rest).takeWhile p = w ∧ (w ++ rest).dropWhile p = rest := by
  rw [List.takeWhile_append_of_pos hw, List.dropWhile_append_of_pos hw]
  cases rest with
  | nil => simp
  | cons x rest =>
      have hx := hrest x (by simp)
      simp [hx]

/-- A command whose program word is known. -/
theorem parseCommand_append (w rest : List Sym)
    (hw : ∀ x ∈ w, x.isOperator = false ∧ x.delimits = false)
    (hat : ∀ x ∈ w.head?, x ≠ .plain '@') (hne : w ≠ [])
    (hrest : ∀ s ∈ rest.head?, s.delimits = true) :
    parseCommand (w ++ rest) =
      ⟨(chars w).filter (· ≠ '\x22'), chars (dropRedirects .none rest)⟩ := by
  have hhead : ∀ s ∈ (dropRedirects .none rest).head?, (!s.delimits) = false := by
    cases rest with
    | nil => simp [dropRedirects]
    | cons s rest =>
        have hs := hrest s rfl
        have hop : s.isOperator = false := by
          cases s with
          | plain c => rfl
          | inert c => rfl
          | op c => simp [Sym.delimits] at hs
        simp [dropRedirects, hop, hs]
  have hword := takeWhile_dropWhile_append (fun s : Sym => !s.delimits) w
    (dropRedirects .none rest) (by simpa using fun x hx => (hw x hx).2) hhead
  obtain ⟨x, w', rfl⟩ := List.exists_cons_of_ne_nil hne
  have hx := (hw x (by simp)).2
  have hx' : x ≠ .plain '@' := hat x rfl
  have hbody : ((dropRedirects .none ((x :: w') ++ rest)).dropWhile Sym.delimits).dropWhile
      (· = .plain '@') = (x :: w') ++ dropRedirects .none rest := by
    rw [dropRedirects_append _ _ fun y hy => (hw y hy).1, List.cons_append,
      List.dropWhile_cons_of_neg (by simp [hx]), List.dropWhile_cons_of_neg (by simpa using hx')]
  simp only [parseCommand]
  rw [hbody, hword.1, hword.2]

/-- A program named after a path is none of the commands that are executed. -/
theorem runCommands_cons (vars : List (Text × Text)) (ss : List Sym) (rest : List (List Sym))
    {x y : Char} {p : Text} (hprogram : (parseCommand ss).program = x :: y :: p)
    (hy : y = ':' ∨ y = '\\') :
    runCommands vars (ss :: rest) =
      ((runCommands vars rest).1, parseCommand ss :: (runCommands vars rest).2) := by
  have hlower : y.toLower = y := by
    rcases hy with rfl | rfl <;> rfl
  have hne : y ≠ 'e' ∧ y ≠ 'c' := by
    rcases hy with rfl | rfl <;> decide
  rw [runCommands, hprogram]
  simp [hlower, hne]

/-! ## Arguments and paths -/

theorem argument_append (w t : Text) (hw : ∀ c ∈ w, isWordChar c = true)
    (ht : ∀ c ∈ t.head?, isBlank c = true) : argument false (w ++ t) = (w, t) := by
  induction w with
  | nil =>
      cases t with
      | nil => rfl
      | cons c t =>
          have hc := ht c rfl
          have hquote : c ≠ '\x22' := by
            rintro rfl
            exact absurd hc (by decide)
          simp [argument, hquote, hc]
  | cons c w ih =>
      have hc := hw c (by simp)
      simp only [isWordChar, isInactive, isDelim, Bool.and_eq_true, Bool.not_eq_true',
        Bool.or_eq_false_iff, beq_eq_false_iff_ne] at hc
      rw [List.cons_append, argument, if_neg hc.1.1.1, if_neg (by simp [isBlank, hc]),
        ih fun d hd => hw d (by simp [hd])]

theorem firstArgument_append (w t : Text) (hne : w ≠ []) (hw : ∀ c ∈ w, isWordChar c = true)
    (ht : ∀ c ∈ t.head?, isBlank c = true) : firstArgument (' ' :: (w ++ t)) = (w, t) := by
  obtain ⟨c, w', rfl⟩ := List.exists_cons_of_ne_nil hne
  have hc := hw c (by simp)
  simp only [isWordChar, isDelim, Bool.and_eq_true, Bool.not_eq_true', Bool.or_eq_false_iff,
    beq_eq_false_iff_ne] at hc
  have hblank : isBlank c = false := by simp [isBlank, hc]
  rw [firstArgument, List.dropWhile_cons_of_pos (by rfl), List.cons_append,
    List.dropWhile_cons_of_neg (by simp [hblank]), ← List.cons_append]
  exact argument_append _ t hw ht

/-- The number of characters that are no separators. -/
def weight (p : Text) : Nat := p.countP (· ≠ '\\')

theorem weight_append (p q : Text) : weight (p ++ q) = weight p + weight q :=
  List.countP_append

theorem weight_filter_le (f : Char → Bool) (p : Text) : weight (p.filter f) ≤ weight p :=
  List.Sublist.countP_le List.filter_sublist

theorem length_flatten_componentsFrom (acc p : Text) :
    (componentsFrom acc p).flatten.length = acc.length + weight p := by
  induction p generalizing acc with
  | nil =>
      rw [componentsFrom]
      split <;> simp_all [weight]
  | cons c p ih =>
      rw [componentsFrom]
      split
      · next hc =>
          have hw : weight (c :: p) = weight p := by simp [weight, hc]
          rw [List.flatten_append, List.length_append, ih, hw]
          split <;> simp_all
      · next hc =>
          have hw : weight (c :: p) = weight p + 1 := by simp [weight, hc]
          rw [ih, hw, List.length_cons]
          omega

/-- The components of a path determine its weight. -/
theorem weight_eq_of_components_eq {p q : Text} (h : components p = components q) :
    weight p = weight q := by
  have hp := length_flatten_componentsFrom [] p
  have hq := length_flatten_componentsFrom [] q
  rw [components, components] at h
  rw [h, hq] at hp
  simpa using hp.symm

theorem componentsFrom_append_slash (acc p q : Text) :
    componentsFrom acc (p ++ '\\' :: '\\' :: q) = componentsFrom acc (p ++ '\\' :: q) := by
  induction p generalizing acc with
  | nil => simp [componentsFrom]
  | cons c p ih =>
      rw [List.cons_append, List.cons_append, componentsFrom, componentsFrom, ih, ih]

theorem weight_cons_of_ne {c : Char} (p : Text) (hc : c ≠ '\\') : weight (c :: p) = weight p + 1 := by
  simp [weight, hc]

/-- The symbols `pre` are the first word of the line `ss`, whose program is
spelled `t` with an e behind it. The word is not heavier than its spelling, and
lighter when a delimiter, an ampersand or a caret stands in the way. -/
structure FirstWord (t : Text) (ss pre : List Sym) : Prop where
  line : ∃ s rest, ss = pre ++ s :: rest ∧ (s.delimits = true ∨ s.separates = true)
  word : ∀ x ∈ pre, x.isOperator = false ∧ x.delimits = false
  weight_le : weight (chars pre) ≤ weight t + 1
  weight_le_of : (∃ c ∈ t, isWordChar c = false) → weight (chars pre) ≤ weight t

theorem firstWord_nil (t : Text) (s : Sym) (rest : List Sym)
    (hs : s.delimits = true ∨ s.separates = true) : FirstWord t (s :: rest) [] where
  line := ⟨s, rest, rfl, hs⟩
  word := by simp
  weight_le := Nat.zero_le _
  weight_le_of _ := Nat.zero_le _

theorem FirstWord.plain {t : Text} {ss pre : List Sym} (h : FirstWord t ss pre) {c : Char}
    (hc : isWordChar c = true) : FirstWord (c :: t) (.plain c :: ss) (.plain c :: pre) := by
  have hcons : ∀ q : Text, weight (c :: q) = weight [c] + weight q := weight_append [c]
  obtain ⟨s, rest, hss, hs⟩ := h.line
  refine ⟨⟨s, rest, by rw [hss, List.cons_append], hs⟩, ?_, ?_, ?_⟩
  · exact List.forall_mem_cons.mpr ⟨⟨rfl, ((isWordChar_iff c).mp hc).2⟩, h.word⟩
  · have hle := h.weight_le
    rw [chars_cons_plain, hcons, hcons t]
    omega
  · rintro ⟨d, hd, hdw⟩
    have hd' : d ∈ t := by
      rcases List.mem_cons.mp hd with rfl | hd
      · rw [hc] at hdw
        cases hdw
      · exact hd
    have hle := h.weight_le_of ⟨d, hd', hdw⟩
    rw [chars_cons_plain, hcons, hcons t]
    omega

theorem FirstWord.caret {t : Text} {ss pre : List Sym} (h : FirstWord t ss pre) (d : Char) :
    FirstWord ('^' :: d :: t) (.inert d :: ss) (.inert d :: pre) := by
  have hcons : ∀ q : Text, weight (d :: q) = weight [d] + weight q := weight_append [d]
  have hcaret : weight ('^' :: d :: t) = weight [d] + weight t + 1 := by
    rw [weight_cons_of_ne _ (by decide), hcons]
  obtain ⟨s, rest, hss, hs⟩ := h.line
  have hle := h.weight_le
  refine ⟨⟨s, rest, by rw [hss, List.cons_append], hs⟩, ?_, ?_, fun _ => ?_⟩
  · exact List.forall_mem_cons.mpr ⟨⟨rfl, rfl⟩, h.word⟩
  · rw [chars_cons_inert, hcons, hcaret]
    omega
  · rw [chars_cons_inert, hcons, hcaret]
    omega

theorem isInactive_of_isDelim {c : Char} (hc : isDelim c = true) : isInactive c = true := by
  simp only [isDelim, Bool.or_eq_true, beq_iff_eq] at hc
  rcases hc with (((rfl | rfl) | rfl) | rfl) | rfl <;> decide

theorem lex_ampersand (t : Text) : lex false ('&' :: t) = .op '&' :: lex false t := by
  rw [lex] <;> simp [isOp]

theorem exists_firstWord_cons {c : Char} {t : Text} (u : Text)
    (hc : isWordChar c = true ∨ isDelim c = true ∨ c = '&')
    (h : ∃ pre, FirstWord t (lex false (t ++ u)) pre) :
    ∃ pre, FirstWord (c :: t) (lex false (c :: t ++ u)) pre := by
  obtain ⟨pre, hpre⟩ := h
  rcases hc with hc | hc | rfl
  · rw [List.cons_append, lex_cons _ ((isWordChar_iff c).mp hc).1]
    exact ⟨_, hpre.plain hc⟩
  · rw [List.cons_append, lex_cons _ (isInactive_of_isDelim hc)]
    exact ⟨[], firstWord_nil _ _ _ (.inl hc)⟩
  · rw [List.cons_append, lex_ampersand]
    exact ⟨[], firstWord_nil _ _ _ (.inr rfl)⟩

theorem firstWord_end (u : Text) : FirstWord [] (lex false ('e' :: ' ' :: u)) [.plain 'e'] := by
  rw [lex_cons _ (by decide), lex_cons _ (by decide)]
  refine ⟨⟨.plain ' ', lex false u, rfl, .inl rfl⟩, ?_, Nat.le_refl 1, by simp⟩
  simp [Sym.isOperator, Sym.delimits, isDelim]

theorem firstWord_caret_end (u : Text) :
    FirstWord ['^'] (lex false ('^' :: 'e' :: ' ' :: u)) [.inert 'e'] := by
  rw [lex, lex_cons _ (by decide)]
  refine ⟨⟨.plain ' ', lex false u, rfl, .inl rfl⟩, ?_, ?_, fun _ => Nat.le_refl 1⟩
  · simp [Sym.isOperator, Sym.delimits]
  · exact Nat.le_succ 1

theorem exists_firstWord (u : Text) : ∀ t : Text,
    (∀ c ∈ t, (isWordChar c = true ∨ isDelim c = true ∨ c = '&') ∨ c = '^') →
    ∃ pre, FirstWord t (lex false (t ++ 'e' :: ' ' :: u)) pre
  | [], _ => ⟨_, firstWord_end u⟩
  | [c], ht => by
      rcases ht c (by simp) with hc | rfl
      · exact exists_firstWord_cons _ hc ⟨_, firstWord_end u⟩
      · exact ⟨_, firstWord_caret_end u⟩
  | c :: d :: t, ht => by
      rcases ht c (by simp) with hc | rfl
      · exact exists_firstWord_cons _ hc
          (exists_firstWord u (d :: t) fun x hx => ht x (List.mem_cons_of_mem c hx))
      · obtain ⟨pre, hpre⟩ := exists_firstWord u t fun x hx => ht x (by simp [hx])
        rw [List.cons_append, List.cons_append, lex]
        exact ⟨_, hpre.caret d⟩

end Shell
