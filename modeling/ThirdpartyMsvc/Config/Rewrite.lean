import ThirdpartyMsvc.Config.PrefixRe

/-!
# What the line functions do with a plain prefix

The three line functions differ in the separators they know and in the
expressions they put in. A `Rewriting` holds these, and `Rewrites` states what
a line function does: the first quotation mark with the prefix behind it is
rewritten together with everything up to the last quotation mark of the line.
-/

namespace Config

open Python Regex Text

/-- The separators behind the prefix, and the expressions for the prefix itself
and in front of the rest. -/
structure Rewriting where
  seps : List Text
  base : Text
  join : Text

def backslashes : Text := ['\\', '\\']

def sipRewriting : Rewriting := ⟨[backslashes], sysPrefix, joinSysPrefix⟩

def sysPrefixRewriting : Rewriting := ⟨[backslashes, ['/']], sysPrefix, joinSysPrefix⟩

def qtDirRewriting : Rewriting := ⟨[backslashes, ['/']], qtDir, joinQtDir⟩

/-- What the prefix and a text `s` behind it are replaced with. -/
def Rewriting.value (R : Rewriting) (s : Text) : Text :=
  match R.seps.find? (·.isPrefixOf s) with
  | none => R.base
  | some sep => R.join ++ (s.drop sep.length ++ ['\'', ')'])

/-- `f` rewrites the prefix `p` in a line. -/
structure Rewrites (R : Rewriting) (p : Text) (f : Text → Except PatchError Text) : Prop where
  unchanged : ∀ x : Text, '\n' ∉ x → (∀ u r, x = u ++ '\'' :: (p ++ r) → '\'' ∉ r) → f x = .ok x
  rewritten : ∀ x s post : Text, '\n' ∉ x ++ '\'' :: (p ++ (s ++ '\'' :: post)) → '\'' ∉ post →
    (∀ u v, x = u ++ v → v ≠ [] → ¬ '\'' :: p <+: v ++ '\'' :: (p ++ (s ++ '\'' :: post))) →
    f (x ++ '\'' :: (p ++ (s ++ '\'' :: post))) = .ok (x ++ (R.value s ++ post))

section tails

variable (T : CharTable)

theorem find_eq_run (p : Pattern) (c : Cursor Char) :
    p.find T false c = run (CharSet.mem T) p.re c some := by
  simp [Pattern.find]

theorem mem_literal_iff (a c : Char) : CharSet.mem T (.literal a) c = true ↔ a = c := by
  simp

/-- The group takes everything up to the last quotation mark. -/
theorem run_untilQuote (i : ℕ) (b s post : Text) (cs : List (ℕ × Text))
    (hnewline : '\n' ∉ s ++ '\'' :: post) (hpost : '\'' ∉ post) :
    run (CharSet.mem T) (.concat (untilQuote i)) ⟨b, s ++ '\'' :: post, cs⟩ some =
      some ⟨(s ++ ['\'']).reverse ++ b, post, (i, s) :: cs⟩ := by
  have hany : ∀ a ∈ s ++ '\'' :: post, CharSet.mem T .any a = true := by
    intro a ha
    have hne : a ≠ '\n' := fun h => hnewline (h ▸ ha)
    simpa using hne
  have hcut := run_star_cut
    (oneSymbol_sat (β := Cursor Char) (CharSet.mem T) .any) s ('\'' :: post) b [] cs
    (fun d => run (CharSet.mem T) (.concat [literal '\'']) (d.capture i ⟨b, s ++ '\'' :: post, cs⟩)
      some) (x := ⟨(s ++ ['\'']).reverse ++ b, post, (i, s) :: cs⟩) hany (by simp)
      (by
        have hcapture := Cursor.capture_append i ⟨b, s ++ '\'' :: post, cs⟩ s (s.reverse ++ b)
          ('\'' :: post ++ []) cs rfl
        simp only [symbolCaps_none, List.nil_append]
        rw [hcapture]
        simp [literal, concat, run_seq])
      (by
        intro a v₁ v₂ hv
        have hv₂ : '\'' ∉ v₂ := by
          intro h
          rw [List.cons_append, List.cons_eq_cons] at hv
          exact hpost (hv.2 ▸ List.mem_append_right _ h)
        cases v₂ with
        | nil => rfl
        | cons c v₂ =>
            have hc : '\'' ≠ c := fun h => hv₂ (h ▸ List.mem_cons_self)
            simp [Cursor.capture, literal, concat, run_seq, hc])
  rw [List.append_nil] at hcut
  exact hcut

theorem run_untilQuote_none (i : ℕ) (b a : Text) (cs : List (ℕ × Text)) (ha : '\'' ∉ a) :
    run (CharSet.mem T) (.concat (untilQuote i)) ⟨b, a, cs⟩ some = none := by
  obtain ⟨w, rest, rfl, hw, hrest⟩ := exists_run_append (CharSet.mem T .any) a
  have hnone := run_star_none
    (oneSymbol_sat (β := Cursor Char) (CharSet.mem T) .any) w b rest cs
    (fun d => run (CharSet.mem T) (.concat [literal '\'']) (d.capture i ⟨b, w ++ rest, cs⟩) some)
    hw hrest (by
      rintro u v rfl
      cases hv : v ++ rest with
      | nil => rfl
      | cons c t =>
          have hc : '\'' ≠ c := by
            rintro rfl
            apply ha
            rw [List.append_assoc, hv]
            simp
          simp [Cursor.capture, literal, concat, run_seq, hc])
  exact hnone

/-- A group around a word, in front of that word. -/
theorem run_group_word (i : ℕ) (w b t : Text) (cs : List (ℕ × Text))
    (k : Cursor Char → Option (Cursor Char)) :
    run (CharSet.mem T) (.group i (word (w.map .literal))) ⟨b, w ++ t, cs⟩ k =
      k ⟨w.reverse ++ b, t, (i, w) :: cs⟩ := by
  rw [run_group, run_word _ _ (mem_literal_iff T),
    Cursor.capture_append i ⟨b, w ++ t, cs⟩ w _ _ _ rfl]

theorem run_group_word_none (i : ℕ) (w b a : Text) (cs : List (ℕ × Text))
    (k : Cursor Char → Option (Cursor Char)) (ha : ¬ w <+: a) :
    run (CharSet.mem T) (.group i (word (w.map .literal))) ⟨b, a, cs⟩ k = none := by
  rw [run_group, run_word_of_not_prefix _ _ (mem_literal_iff T) _ _ _ _ _ ha]

theorem separatorRe_eq (i : ℕ) : separatorRe i = .group i (word (backslashes.map .literal)) := rfl

def anySeparatorRe : Regex CharSet :=
  .group 1 (.alt (.concat [separatorRe 2]) (.concat [literal '/']))

theorem slash_eq_word : Regex.concat [literal '/'] = word (['/'].map .literal) := rfl

theorem run_anySeparatorRe_backslashes (b t : Text) (k : Cursor Char → Option (Cursor Char)) :
    run (CharSet.mem T) anySeparatorRe ⟨b, backslashes ++ t, []⟩ k =
      k ⟨backslashes.reverse ++ b, t, [(1, backslashes), (2, backslashes)]⟩ := by
  have hnot : ¬ ['/'] <+: backslashes ++ t := by
    rintro ⟨u, hu⟩
    cases hu
  have hcapture := Cursor.capture_append 1 ⟨b, backslashes ++ t, []⟩ backslashes
    (backslashes.reverse ++ b) t [(2, backslashes)] rfl
  rw [anySeparatorRe, run_group, run_alt, run_concat_cons, separatorRe_eq, run_group_word,
    slash_eq_word, run_word_of_not_prefix _ _ (mem_literal_iff T) _ _ _ _ _ hnot, Option.or_none]
  simp only [concat, run_empty, hcapture]

theorem run_anySeparatorRe_slash (b t : Text) (k : Cursor Char → Option (Cursor Char)) :
    run (CharSet.mem T) anySeparatorRe ⟨b, ['/'] ++ t, []⟩ k =
      k ⟨['/'].reverse ++ b, t, [(1, ['/'])]⟩ := by
  have hnot : ¬ backslashes <+: ['/'] ++ t := by
    rintro ⟨u, hu⟩
    cases hu
  rw [anySeparatorRe, run_group, run_alt, run_concat_cons, separatorRe_eq,
    run_group_word_none _ _ _ _ _ _ _ hnot, Option.none_or, slash_eq_word,
    run_word _ _ (mem_literal_iff T), Cursor.capture_append 1 ⟨b, ['/'] ++ t, []⟩ ['/'] _ _ _ rfl]

theorem run_anySeparatorRe_none (b a : Text) (k : Cursor Char → Option (Cursor Char))
    (hback : ¬ backslashes <+: a) (hslash : ¬ ['/'] <+: a) :
    run (CharSet.mem T) anySeparatorRe ⟨b, a, []⟩ k = none := by
  rw [anySeparatorRe, run_group, run_alt, run_concat_cons, separatorRe_eq,
    run_group_word_none _ _ _ _ _ _ _ hback, slash_eq_word,
    run_word_of_not_prefix _ _ (mem_literal_iff T) _ _ _ _ _ hslash]
  rfl

/-- What a tail does behind the prefix, for the rewriting `R` and the
replacement `rep`. -/
structure TailRule (R : Rewriting) (rep : Groups → Except PatchError Text)
    (tail : List (Regex CharSet)) : Prop where
  found : ∀ b s post : Text, '\n' ∉ s ++ '\'' :: post → '\'' ∉ post → ∃ caps,
    run (CharSet.mem T) (.concat tail) ⟨b, s ++ '\'' :: post, []⟩ some =
      some ⟨(s ++ ['\'']).reverse ++ b, post, caps⟩ ∧
    rep (fun i => caps.lookup i) = .ok (R.value s)
  missing : ∀ b a : Text, '\'' ∉ a → run (CharSet.mem T) (.concat tail) ⟨b, a, []⟩ some = none

/-- A word without the symbol `q` that begins a text is not cut by `q`. -/
theorem prefix_of_prefix_append_cons {α : Type} {w s t : List α} {q : α} (hq : q ∉ w)
    (h : w <+: s ++ q :: t) : w <+: s := by
  rcases List.prefix_or_prefix_of_prefix h (List.prefix_append s (q :: t)) with hw | hw
  · exact hw
  · obtain ⟨u, rfl⟩ := hw
    cases u with
    | nil => simp
    | cons c u =>
        rw [List.prefix_append_right_inj, List.cons_prefix_cons] at h
        exact absurd (by simp [h.1]) hq

theorem value_of_begins (R : Rewriting) {sep t : Text} (rest : List Text)
    (hR : R.seps = sep :: rest) :
    R.value (sep ++ t) = R.join ++ (t ++ ['\'', ')']) := by
  have hbegin : sep.isPrefixOf (sep ++ t) = true :=
    List.isPrefixOf_iff_prefix.mpr (List.prefix_append sep t)
  simp [Rewriting.value, hR, hbegin]

theorem value_of_not_begins (R : Rewriting) {s : Text} (hs : ∀ sep ∈ R.seps, ¬ sep <+: s) :
    R.value s = R.base := by
  have hnone : R.seps.find? (·.isPrefixOf s) = none := by
    simpa using hs
  rw [Rewriting.value, hnone]

theorem tailRule_sip :
    TailRule T sipRewriting (repl [1] 2 sysPrefix joinSysPrefix) sipTailRe where
  found b s post hnewline hpost := by
    rw [sipTailRe, run_concat_cons, run_opt, separatorRe_eq]
    by_cases hs : backslashes <+: s
    · obtain ⟨t, rfl⟩ := hs
      have hrun := run_untilQuote T 2 (backslashes.reverse ++ b) t post [(1, backslashes)]
        (fun h => hnewline (by rw [List.append_assoc]; exact List.mem_append_right _ h)) hpost
      refine ⟨[(2, t), (1, backslashes)], ?_, ?_⟩
      · rw [List.append_assoc, run_group_word, hrun, Option.some_or]
        simp
      · rw [value_of_begins sipRewriting [] rfl]
        simp [repl, List.lookup_cons, sipRewriting]
    · have hrun := run_untilQuote T 2 b s post [] hnewline hpost
      refine ⟨[(2, s)], ?_, ?_⟩
      · rw [run_group_word_none _ _ _ _ _ _ _ fun h => hs (prefix_of_prefix_append_cons
          (by decide) h), hrun, Option.none_or]
      · rw [value_of_not_begins sipRewriting (by simpa [sipRewriting] using hs)]
        simp [repl, List.lookup_cons, sipRewriting]
  missing b a ha := by
    rw [sipTailRe, run_concat_cons, run_opt, run_untilQuote_none T 2 b a [] ha, Option.or_none,
      separatorRe_eq]
    by_cases hs : backslashes <+: a
    · obtain ⟨t, rfl⟩ := hs
      rw [run_group_word, run_untilQuote_none T 2 _ t _ fun h => ha (List.mem_append_right _ h)]
    · rw [run_group_word_none _ _ _ _ _ _ _ hs]

theorem tailRule_pyqt (base join : Text) :
    TailRule T ⟨[backslashes, ['/']], base, join⟩ (repl [1, 2] 3 base join) pyqtTailRe where
  found b s post hnewline hpost := by
    have htail : pyqtTailRe = .opt anySeparatorRe :: untilQuote 3 := rfl
    rw [htail, run_concat_cons, run_opt]
    by_cases hs : backslashes <+: s
    · obtain ⟨t, rfl⟩ := hs
      have hrun := run_untilQuote T 3 (backslashes.reverse ++ b) t post
        [(1, backslashes), (2, backslashes)]
        (fun h => hnewline (by rw [List.append_assoc]; exact List.mem_append_right _ h)) hpost
      refine ⟨[(3, t), (1, backslashes), (2, backslashes)], ?_, ?_⟩
      · rw [List.append_assoc, run_anySeparatorRe_backslashes, hrun, Option.some_or]
        simp
      · rw [value_of_begins _ [['/']] rfl]
        simp [repl, List.lookup_cons]
    · by_cases hs' : ['/'] <+: s
      · obtain ⟨t, rfl⟩ := hs'
        have hrun := run_untilQuote T 3 (['/'].reverse ++ b) t post [(1, ['/'])]
          (fun h => hnewline (by rw [List.append_assoc]; exact List.mem_append_right _ h)) hpost
        refine ⟨[(3, t), (1, ['/'])], ?_, ?_⟩
        · rw [List.append_assoc, run_anySeparatorRe_slash, hrun, Option.some_or]
          simp
        · simp [repl, List.lookup_cons, Rewriting.value, backslashes]
      · have hrun := run_untilQuote T 3 b s post [] hnewline hpost
        refine ⟨[(3, s)], ?_, ?_⟩
        · rw [run_anySeparatorRe_none _ _ _ _
            (fun h => hs (prefix_of_prefix_append_cons (by decide) h))
            (fun h => hs' (prefix_of_prefix_append_cons (by decide) h)), hrun, Option.none_or]
        · rw [value_of_not_begins _ (by simpa using ⟨hs, hs'⟩)]
          simp [repl, List.lookup_cons]
  missing b a ha := by
    have htail : pyqtTailRe = .opt anySeparatorRe :: untilQuote 3 := rfl
    rw [htail, run_concat_cons, run_opt, run_untilQuote_none T 3 b a [] ha, Option.or_none]
    by_cases hs : backslashes <+: a
    · obtain ⟨t, rfl⟩ := hs
      rw [run_anySeparatorRe_backslashes,
        run_untilQuote_none T 3 _ t _ fun h => ha (List.mem_append_right _ h)]
    · by_cases hs' : ['/'] <+: a
      · obtain ⟨t, rfl⟩ := hs'
        rw [run_anySeparatorRe_slash,
          run_untilQuote_none T 3 _ t _ fun h => ha (List.mem_append_right _ h)]
      · rw [run_anySeparatorRe_none _ _ _ _ hs hs']

/-! ## Whole lines -/

/-- The pattern of a plain prefix finds the prefix behind a quotation mark, when
another quotation mark follows. -/
theorem find_prefixRe_none (p : Text) {R : Rewriting} {rep : Groups → Except PatchError Text}
    {tail : List (Regex CharSet)} (htail : TailRule T R rep tail) (b a : Text)
    (ha : ∀ r, a = '\'' :: (p ++ r) → '\'' ∉ r) :
    (prefixRe p tail).find T false ⟨b, a, []⟩ = none := by
  have hword : ('\'' :: p).map literal = (('\'' :: p).map CharSet.literal).map sat := by
    rw [List.map_map]
    rfl
  rw [find_eq_run, prefixRe]
  simp only
  rw [run_concat_append, hword]
  by_cases hpre : '\'' :: p <+: a
  · obtain ⟨r, rfl⟩ := hpre
    exact (run_word _ _ (mem_literal_iff T) _ _ _ _ _).trans (htail.missing _ r (ha r rfl))
  · exact run_word_of_not_prefix _ _ (mem_literal_iff T) _ _ _ _ _ hpre

theorem find_prefixRe_some (p : Text) {R : Rewriting} {rep : Groups → Except PatchError Text}
    {tail : List (Regex CharSet)} (htail : TailRule T R rep tail) (b s post : Text)
    (hnewline : '\n' ∉ s ++ '\'' :: post) (hpost : '\'' ∉ post) : ∃ caps,
    (prefixRe p tail).find T false ⟨b, '\'' :: (p ++ (s ++ ['\''])) ++ post, []⟩ =
      some ⟨('\'' :: (p ++ (s ++ ['\'']))).reverse ++ b, post, caps⟩ ∧
    rep (fun i => caps.lookup i) = .ok (R.value s) := by
  have hword : ('\'' :: p).map literal = (('\'' :: p).map CharSet.literal).map sat := by
    rw [List.map_map]
    rfl
  obtain ⟨caps, hrun, hrep⟩ := htail.found (('\'' :: p).reverse ++ b) s post hnewline hpost
  refine ⟨caps, ?_, hrep⟩
  have hsubject : '\'' :: (p ++ (s ++ ['\''])) ++ post = '\'' :: p ++ (s ++ '\'' :: post) := by
    simp
  rw [find_eq_run, prefixRe]
  simp only
  rw [run_concat_append, hword, hsubject]
  refine (run_word _ _ (mem_literal_iff T) _ _ _ _ _).trans (hrun.trans ?_)
  simp

theorem rewrites_prefixRe (p : Text) {R : Rewriting} {rep : Groups → Except PatchError Text}
    {tail : List (Regex CharSet)} (htail : TailRule T R rep tail) :
    Rewrites R p fun line => substitute rep ((prefixRe p tail).scan T line) where
  unchanged x _ hx := by
    apply substitute_scan_of_no_match
    intro u v huv
    refine find_prefixRe_none T p htail _ v ?_
    rintro r rfl
    exact hx u r huv
  rewritten x s post hnewline hpost hx := by
    obtain ⟨caps, hfind, hrep⟩ := find_prefixRe_some T p htail x.reverse s post
      (fun h => hnewline (by simp at h ⊢; tauto)) hpost
    have hsubject : x ++ '\'' :: (p ++ (s ++ '\'' :: post)) =
        x ++ ('\'' :: (p ++ (s ++ ['\''])) ++ post) := by
      simp
    rw [hsubject]
    refine substitute_scan_of_match T _ rep x '\'' (p ++ (s ++ ['\''])) post caps ?_ hfind ?_ hrep
    · intro u v huv hv
      refine find_prefixRe_none T p htail _ _ fun r hr => ?_
      refine absurd ?_ (hx u v huv hv)
      refine ⟨r, ?_⟩
      rw [List.cons_append, ← hr]
      simp
    · intro b v hv
      refine find_prefixRe_none T p htail _ _ ?_
      rintro r rfl
      exact absurd (hv.subset List.mem_cons_self) hpost

end tails

/-! ## The line functions of the scripts -/

section scripts

variable (T : CharTable)

theorem compile_sre_sip {p : Text} (hp : isPlain p = true) :
    (sre T).compile (prefixPattern p sipTail) = some (prefixRe p sipTailRe) := by
  simp only [sre, compile_sipPattern hp]
  rfl

theorem compile_sre_pyqt {p : Text} (hp : isPlain p = true) :
    (sre T).compile (prefixPattern p pyqtTail) = some (prefixRe p pyqtTailRe) := by
  simp only [sre, compile_pyqtPattern hp]
  rfl

theorem rewrites_patchLine (p : Text) :
    Rewrites sipRewriting p fun line => patchLine (sre T) line (prefixRe p sipTailRe) :=
  rewrites_prefixRe T p (tailRule_sip T)

theorem rewrites_patchSysPrefixLine (p : Text) :
    Rewrites sysPrefixRewriting p fun line =>
      patchSysPrefixLine (sre T) line (prefixRe p pyqtTailRe) :=
  rewrites_prefixRe T p (tailRule_pyqt T sysPrefix joinSysPrefix)

theorem rewrites_patchQtDirLine (p : Text) :
    Rewrites qtDirRewriting p fun line => patchQtDirLine (sre T) line (prefixRe p pyqtTailRe) :=
  rewrites_prefixRe T p (tailRule_pyqt T qtDir joinQtDir)

end scripts

end Config
