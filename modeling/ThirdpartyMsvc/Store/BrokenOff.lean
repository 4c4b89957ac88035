import Mathlib.Logic.Relation

/-!
# Computations that are broken off

A computation changes a state and ends with a value or with an error. It may
also be broken off on its way, by a power cut or by its user, and then it leaves
one of several states behind. `Within` bounds what a computation does to the
state in both cases, and is shown for one computation from its parts; what
bounds each of them bounds any number of computations that come one behind the
other, however each one ends (`Within.history`).
-/

namespace Store

/-- What a computation does when it is not disturbed, and the states that it may
leave when it is broken off. -/
structure Breakable (σ ε α : Type) where
  run : σ → Except ε α × σ
  left : σ → σ → Prop

namespace Breakable

section

variable {σ ε α β : Type}

/-- Between two parts a computation may be broken off as well as in them. -/
instance : Monad (Breakable σ ε) where
  pure a := ⟨fun s => (.ok a, s), fun s s' => s' = s⟩
  bind x f :=
    { run := fun s =>
        match x.run s with
        | (.ok a, s') => (f a).run s'
        | (.error e, s') => (.error e, s')
      left := fun s s'' =>
        x.left s s'' ∨ ∃ a s', x.run s = (.ok a, s') ∧ (f a).left s' s'' }

/-- A computation that happens at once: it is broken off before it or behind it. -/
def whole (f : σ → Except ε α × σ) : Breakable σ ε α where
  run := f
  left s s' := s' = s ∨ s' = (f s).2

theorem run_bind_of_ok {x : Breakable σ ε α} (f : α → Breakable σ ε β) {s s' : σ} {a : α}
    (h : x.run s = (.ok a, s')) : (x >>= f).run s = (f a).run s' := by
  change (match x.run s with
    | (.ok a, s') => (f a).run s'
    | (.error e, s') => (.error e, s')) = _
  rw [h]

theorem run_bind_of_error {x : Breakable σ ε α} (f : α → Breakable σ ε β) {s s' : σ} {e : ε}
    (h : x.run s = (.error e, s')) : (x >>= f).run s = (.error e, s') := by
  change (match x.run s with
    | (.ok a, s') => (f a).run s'
    | (.error e, s') => (.error e, s')) = _
  rw [h]

/-- Where a computation may have got to, from `s`: to its end, or to some state
on its way. -/
def Ends (x : Breakable σ ε α) (s s' : σ) : Prop := s' = (x.run s).2 ∨ x.left s s'

/-- From the states in `I`, a computation stays within `R`, however it ends. -/
structure Within (I : σ → Prop) (R : σ → σ → Prop) (x : Breakable σ ε α) : Prop where
  run : ∀ s, I s → R s (x.run s).2
  left : ∀ s s', I s → x.left s s' → R s s'

variable {I : σ → Prop} {R : σ → σ → Prop}

theorem Within.ends {x : Breakable σ ε α} (hx : Within I R x) {s s' : σ} (hs : I s)
    (h : x.Ends s s') : R s s' := by
  rcases h with rfl | h
  · exact hx.run s hs
  · exact hx.left s s' hs h

theorem Within.whole (hrefl : ∀ s, R s s) {f : σ → Except ε α × σ}
    (hf : ∀ s, I s → R s (f s).2) : Within I R (whole f) where
  run := hf
  left s s' hs h := by
    rcases h with rfl | rfl
    · exact hrefl _
    · exact hf s hs

theorem Within.pure (hrefl : ∀ s, R s s) (a : α) :
    Within I R (Pure.pure a : Breakable σ ε α) where
  run s _ := hrefl s
  left s s' _ h := by
    obtain rfl : s' = s := h
    exact hrefl _

/-- Parts one behind the other. Only the values that the first one can give
matter for the second one. -/
theorem Within.bind (htrans : ∀ {s t u}, R s t → R t u → R s u)
    (hI : ∀ {s t}, I s → R s t → I t) {x : Breakable σ ε α} {f : α → Breakable σ ε β}
    (hx : Within I R x)
    (hf : ∀ a s s', I s → x.run s = (.ok a, s') → Within I R (f a)) :
    Within I R (x >>= f) where
  run s hs := by
    have hfirst := hx.run s hs
    cases h : x.run s with
    | mk r s' =>
        rw [h] at hfirst
        cases r with
        | ok a =>
            rw [run_bind_of_ok f h]
            exact htrans hfirst ((hf a s s' hs h).run s' (hI hs hfirst))
        | error e =>
            rw [run_bind_of_error f h]
            exact hfirst
  left s s'' hs h := by
    rcases h with h | ⟨a, s', hrun, h⟩
    · exact hx.left s s'' hs h
    · have hfirst := hx.run s hs
      rw [hrun] at hfirst
      exact htrans hfirst ((hf a s s' hs hrun).left s' s'' (hI hs hfirst) h)

end

/-- What bounds the computations in `P` bounds any number of them. -/
theorem Within.history {σ ε α : Type} {I : σ → Prop} {R : σ → σ → Prop}
    (hrefl : ∀ s, R s s) (htrans : ∀ {s t u}, R s t → R t u → R s u)
    (hI : ∀ {s t}, I s → R s t → I t) {P : Breakable σ ε α → Prop}
    (hP : ∀ x, P x → Within I R x) {s s' : σ} (hs : I s)
    (h : Relation.ReflTransGen (fun t u => ∃ x, P x ∧ x.Ends t u) s s') : R s s' := by
  induction h with
  | refl => exact hrefl s
  | tail _ hstep ih =>
      obtain ⟨x, hx, hends⟩ := hstep
      exact htrans ih ((hP x hx).ends (hI hs ih) hends)

end Breakable

end Store
