import ThirdpartyMsvc.Regex.Match
import Mathlib.Data.List.TakeWhile

/-!
# Rules for greedy repetition

The search of `star r` is decided by where the continuation succeeds. When one
round of `r` consumes one symbol of a class `p`, the repetition over a maximal
run of `p` offers the continuation every cut of that run, the longest first;
`run_star_cut` and `run_star_none` read the result off that order. A literal
word has exactly one cut, so `run_word` needs no order at all.
-/

namespace Regex

/-- One round of `r` consumes one symbol of `p` and records the captures
`e`. -/
structure OneSymbol {σ α β : Type*} (mem : σ → α → Bool) (r : Regex σ) (p : α → Bool)
    (e : α → List (ℕ × List α)) : Prop where
  nil : ∀ (b : List α) (cs : List (ℕ × List α)) (k : Cursor α → Option β),
    run mem r ⟨b, [], cs⟩ k = none
  cons : ∀ (a : α) (b t : List α) (cs : List (ℕ × List α)) (k : Cursor α → Option β),
    run mem r ⟨b, a :: t, cs⟩ k = if p a then k ⟨a :: b, t, e a ++ cs⟩ else none

theorem oneSymbol_sat {σ α β : Type*} (mem : σ → α → Bool) (s : σ) :
    OneSymbol (β := β) mem (sat s) (mem s) (fun _ => []) where
  nil _ _ _ := rfl
  cons _ _ _ _ _ := rfl

/-- A captured choice between two classes is one symbol of their union. -/
theorem oneSymbol_group_alt {σ α β : Type*} (mem : σ → α → Bool) (i : ℕ) (s t : σ) :
    OneSymbol (β := β) mem (group i (alt (concat [sat s]) (concat [sat t])))
      (fun a => mem s a || mem t a) (fun a => [(i, [a])]) where
  nil _ _ _ := rfl
  cons a b u cs k := by
    have hcap : ∀ d : Cursor α, d = ⟨a :: b, u, cs⟩ →
        d.capture i ⟨b, a :: u, cs⟩ = ⟨a :: b, u, (i, [a]) :: cs⟩ := by
      rintro d rfl
      exact Cursor.capture_append i _ [a] _ _ _ rfl
    rw [run_group, run_alt, run_concat_cons, run_concat_cons, run_sat_cons, run_sat_cons]
    simp only [concat, run_empty, hcap _ rfl]
    cases hs : mem s a <;> cases ht : mem t a <;> simp

/-- The next symbol of `rest`, if there is one, is not in `p`. -/
def Stops {α : Type*} (p : α → Bool) (rest : List α) : Prop :=
  ∀ a ∈ rest.head?, p a = false

@[simp] theorem stops_nil {α : Type*} (p : α → Bool) : Stops p ([] : List α) := by
  simp [Stops]

@[simp] theorem stops_cons {α : Type*} (p : α → Bool) (a : α) (t : List α) :
    Stops p (a :: t) ↔ p a = false := by
  simp [Stops]

theorem stops_dropWhile {α : Type*} (p : α → Bool) (l : List α) :
    Stops p (l.dropWhile p) := by
  intro a ha
  have hhead := List.head?_dropWhile_not p l
  rw [Option.mem_def.mp ha] at hhead
  simpa using hhead

/-- Every text is a run of `p` followed by a text where `p` stops. -/
theorem exists_run_append {α : Type*} (p : α → Bool) (l : List α) :
    ∃ w rest, l = w ++ rest ∧ (∀ a ∈ w, p a = true) ∧ Stops p rest :=
  ⟨l.takeWhile p, l.dropWhile p, (List.takeWhile_append_dropWhile).symm,
    fun _ ha => List.mem_takeWhile_imp ha, stops_dropWhile p l⟩

theorem takeWhile_append_of_stops {α : Type*} {p : α → Bool} {w rest : List α}
    (hw : ∀ a ∈ w, p a = true) (hr : Stops p rest) : (w ++ rest).takeWhile p = w := by
  rw [List.takeWhile_append_of_pos hw]
  cases rest with
  | nil => simp
  | cons a t => simp [(stops_cons p a t).mp hr]

theorem dropWhile_append_of_stops {α : Type*} {p : α → Bool} {w rest : List α}
    (hw : ∀ a ∈ w, p a = true) (hr : Stops p rest) : (w ++ rest).dropWhile p = rest := by
  rw [List.dropWhile_append_of_pos hw]
  cases rest with
  | nil => simp
  | cons a t => simp [(stops_cons p a t).mp hr]

section star

variable {σ α β : Type*} {mem : σ → α → Bool} {r : Regex σ} {p : α → Bool}
  {e : α → List (ℕ × List α)}

/-- The captures added by the rounds that consumed `w`. -/
def symbolCaps (e : α → List (ℕ × List α)) (w : List α) : List (ℕ × List α) :=
  w.reverse.flatMap e

@[simp] theorem symbolCaps_nil : symbolCaps e [] = [] := rfl

theorem symbolCaps_cons (a : α) (w : List α) :
    symbolCaps e (a :: w) = symbolCaps e w ++ e a := by
  simp [symbolCaps]

@[simp] theorem symbolCaps_none (w : List α) :
    symbolCaps (fun _ => ([] : List (ℕ × List α))) w = [] := by
  simp [symbolCaps]

theorem run_star_step (h : OneSymbol (β := β) mem r p e) (a : α) (b t : List α)
    (cs : List (ℕ × List α)) (k : Cursor α → Option β) (hp : p a = true) :
    run mem (star r) ⟨b, a :: t, cs⟩ k =
      (run mem (star r) ⟨a :: b, t, e a ++ cs⟩ k).or (k ⟨b, a :: t, cs⟩) := by
  rw [run_star_unfold, h.cons, if_pos hp]
  simp

theorem run_star_stop (h : OneSymbol (β := β) mem r p e) (b rest : List α)
    (cs : List (ℕ × List α)) (k : Cursor α → Option β) (hr : Stops p rest) :
    run mem (star r) ⟨b, rest, cs⟩ k = k ⟨b, rest, cs⟩ := by
  rw [run_star_unfold]
  cases rest with
  | nil => rw [h.nil, Option.none_or]
  | cons a t => simp [h.cons, (stops_cons p a t).mp hr]

/-- No cut of the run is accepted. -/
theorem run_star_none (h : OneSymbol (β := β) mem r p e) (w b rest : List α)
    (cs : List (ℕ × List α)) (k : Cursor α → Option β) (hw : ∀ a ∈ w, p a = true)
    (hr : Stops p rest)
    (hk : ∀ u v, w = u ++ v →
      k ⟨u.reverse ++ b, v ++ rest, symbolCaps e u ++ cs⟩ = none) :
    run mem (star r) ⟨b, w ++ rest, cs⟩ k = none := by
  induction w generalizing b cs with
  | nil =>
      rw [List.nil_append, run_star_stop h b rest cs k hr]
      exact hk [] [] rfl
  | cons a w ih =>
      have hstop : k ⟨b, a :: (w ++ rest), cs⟩ = none := hk [] (a :: w) rfl
      rw [List.cons_append, run_star_step h a b _ cs k (hw a (by simp)), hstop,
        Option.or_none]
      apply ih (a :: b) (e a ++ cs) fun c hc => hw c (by simp [hc])
      rintro u v rfl
      simpa [symbolCaps_cons] using hk (a :: u) v rfl

/-- The longest accepted cut of the run is the one after `u`. -/
theorem run_star_cut (h : OneSymbol (β := β) mem r p e) (u v b rest : List α)
    (cs : List (ℕ × List α)) (k : Cursor α → Option β) {x : β}
    (hw : ∀ a ∈ u ++ v, p a = true) (hr : Stops p rest)
    (hx : k ⟨u.reverse ++ b, v ++ rest, symbolCaps e u ++ cs⟩ = some x)
    (hk : ∀ a v₁ v₂, v = a :: v₁ ++ v₂ →
      k ⟨(a :: v₁).reverse ++ (u.reverse ++ b), v₂ ++ rest,
        symbolCaps e (a :: v₁) ++ (symbolCaps e u ++ cs)⟩ = none) :
    run mem (star r) ⟨b, u ++ v ++ rest, cs⟩ k = some x := by
  induction u generalizing b cs with
  | nil =>
      cases v with
      | nil => simpa [run_star_stop h b rest cs k hr] using hx
      | cons a v =>
          have hnone : run mem (star r) ⟨a :: b, v ++ rest, e a ++ cs⟩ k = none := by
            apply run_star_none h v (a :: b) rest (e a ++ cs) k
              (fun c hc => hw c (by simp [hc])) hr
            rintro v₁ v₂ rfl
            simpa [symbolCaps_cons] using hk a v₁ v₂ rfl
          have hstep := run_star_step h a b (v ++ rest) cs k (hw a (by simp))
          rw [hnone, Option.none_or] at hstep
          exact hstep.trans hx
  | cons a u ih =>
      have hrec := ih (a :: b) (e a ++ cs) (fun c hc => hw c (by simp at hc ⊢; tauto))
        (by simpa [symbolCaps_cons] using hx)
        (fun c v₁ v₂ hv => by simpa [symbolCaps_cons] using hk c v₁ v₂ hv)
      have hstep := run_star_step h a b (u ++ v ++ rest) cs k (hw a (by simp))
      rw [hrec, Option.some_or] at hstep
      exact hstep

/-- The whole run is consumed when the continuation accepts its end. -/
theorem run_star_greedy (h : OneSymbol (β := β) mem r p e) (w b rest : List α)
    (cs : List (ℕ × List α)) (k : Cursor α → Option β) {x : β}
    (hw : ∀ a ∈ w, p a = true) (hr : Stops p rest)
    (hx : k ⟨w.reverse ++ b, rest, symbolCaps e w ++ cs⟩ = some x) :
    run mem (star r) ⟨b, w ++ rest, cs⟩ k = some x := by
  have hcut := run_star_cut h w [] b rest cs k (by simpa using hw) hr (by simpa using hx)
    (by simp)
  simpa using hcut

/-- The whole run is consumed when the continuation refuses every cut before
its end. -/
theorem run_star_possessive (h : OneSymbol (β := β) mem r p e) (w b rest : List α)
    (cs : List (ℕ × List α)) (k : Cursor α → Option β)
    (hw : ∀ a ∈ w, p a = true) (hr : Stops p rest)
    (hk : ∀ a t d cs', p a = true → k ⟨d, a :: t, cs'⟩ = none) :
    run mem (star r) ⟨b, w ++ rest, cs⟩ k =
      k ⟨w.reverse ++ b, rest, symbolCaps e w ++ cs⟩ := by
  cases hx : k ⟨w.reverse ++ b, rest, symbolCaps e w ++ cs⟩ with
  | some x => exact run_star_greedy h w b rest cs k hw hr hx
  | none =>
      apply run_star_none h w b rest cs k hw hr
      intro u v huv
      cases v with
      | nil =>
          rw [List.append_nil] at huv
          simpa [huv] using hx
      | cons a v => exact hk a _ _ _ (hw a (by simp [huv]))

end star

/-! ## Literal words -/

/-- The expression of a literal word, one one-symbol description each. -/
def word {σ : Type*} (l : List σ) : Regex σ := concat (l.map sat)

/-- A literal word is matched by one prefix of the subject or by none. -/
theorem run_word {α β : Type*} {σ : Type*} (mem : σ → α → Bool) (f : α → σ)
    (hf : ∀ a c, mem (f a) c = true ↔ a = c) (w b a : List α) (cs : List (ℕ × List α))
    (k : Cursor α → Option β) :
    run mem (word (w.map f)) ⟨b, w ++ a, cs⟩ k = k ⟨w.reverse ++ b, a, cs⟩ := by
  induction w generalizing b with
  | nil => rfl
  | cons x w ih =>
      have hstep : run mem (word ((x :: w).map f)) ⟨b, x :: (w ++ a), cs⟩ k =
          run mem (word (w.map f)) ⟨x :: b, w ++ a, cs⟩ k := by
        simp [word, run_concat_cons, (hf x x).mpr rfl]
      simpa using hstep.trans (ih (x :: b))

theorem run_word_of_not_prefix {α β : Type*} {σ : Type*} (mem : σ → α → Bool) (f : α → σ)
    (hf : ∀ a c, mem (f a) c = true ↔ a = c) (w b a : List α) (cs : List (ℕ × List α))
    (k : Cursor α → Option β) (h : ¬ w <+: a) :
    run mem (word (w.map f)) ⟨b, a, cs⟩ k = none := by
  induction w generalizing a b with
  | nil => exact absurd (List.nil_prefix) h
  | cons x w ih =>
      cases a with
      | nil => rfl
      | cons y a =>
          have hstep : run mem (word ((x :: w).map f)) ⟨b, y :: a, cs⟩ k =
              if mem (f x) y then run mem (word (w.map f)) ⟨y :: b, a, cs⟩ k else none := by
            simp [word, run_concat_cons]
          rw [hstep]
          split
          case isTrue hxy =>
            obtain rfl := (hf x y).mp hxy
            exact ih (x :: b) a fun hpre => h (by simpa using hpre)
          case isFalse => rfl

end Regex
