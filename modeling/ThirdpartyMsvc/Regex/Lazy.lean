import ThirdpartyMsvc.Regex.Preferred

/-!
# Lazy repetition

A lazy repetition offers the continuation its cuts in the opposite order: it
stops as soon as what comes behind accepts the rest of the subject. The search
is stated over the run of one round, as `iter` states the greedy one, and
`runLazyPlus_cut` reads its result off that order.
-/

namespace Regex

/-- At most `n` rounds of `m`, as few as the continuation accepts. -/
def lazyIter {α β : Type*} (m : Cursor α → (Cursor α → Option β) → Option β) :
    ℕ → Cursor α → (Cursor α → Option β) → Option β
  | 0, c, k => k c
  | n + 1, c, k =>
      (k c).or (m c fun d => if d.after.length < c.after.length then lazyIter m n d k else none)

/-- One or more rounds, as few as the continuation accepts. -/
def runLazyPlus {σ α β : Type*} (mem : σ → α → Bool) (r : Regex σ) (c : Cursor α)
    (k : Cursor α → Option β) : Option β :=
  run mem r c fun d => lazyIter (fun e l => run mem r e l) d.after.length d k

section cut

variable {σ α β : Type*} {mem : σ → α → Bool} {r : Regex σ} {p : α → Bool}

theorem lazyIter_cut (h : OneSymbol (β := β) mem r p fun _ => []) (w b rest : List α)
    (cs : List (ℕ × List α)) (k : Cursor α → Option β) {x : β} {n : ℕ} (hn : w.length ≤ n)
    (hw : ∀ a ∈ w, p a = true)
    (hk : ∀ u a v, w = u ++ a :: v → k ⟨u.reverse ++ b, a :: (v ++ rest), cs⟩ = none)
    (hx : k ⟨w.reverse ++ b, rest, cs⟩ = some x) :
    lazyIter (fun e l => run mem r e l) n ⟨b, w ++ rest, cs⟩ k = some x := by
  induction w generalizing b n with
  | nil =>
      have hc : k ⟨b, [] ++ rest, cs⟩ = some x := hx
      cases n with
      | zero => exact hc
      | succ n => rw [lazyIter, hc, Option.some_or]
  | cons a w ih =>
      obtain ⟨n, rfl⟩ : ∃ m, n = m + 1 := ⟨n - 1, by simp at hn; omega⟩
      have hnone : k ⟨b, a :: w ++ rest, cs⟩ = none := hk [] a w rfl
      have hrest := ih (n := n) (a :: b) (by simpa using hn) (fun c hc => hw c (by simp [hc]))
        (fun u c v huv => by simpa using hk (a :: u) c v (by simp [huv])) (by simpa using hx)
      rw [lazyIter, hnone, Option.none_or, List.cons_append, h.cons, if_pos (hw a (by simp)),
        if_pos (by simp)]
      exact hrest

/-- The repetition ends at the first cut that the continuation accepts. -/
theorem runLazyPlus_cut (h : OneSymbol (β := β) mem r p fun _ => []) {w : List α} (hne : w ≠ [])
    (b rest : List α) (cs : List (ℕ × List α)) (k : Cursor α → Option β) {x : β}
    (hw : ∀ a ∈ w, p a = true)
    (hk : ∀ u a v, u ≠ [] → w = u ++ a :: v →
      k ⟨u.reverse ++ b, a :: (v ++ rest), cs⟩ = none)
    (hx : k ⟨w.reverse ++ b, rest, cs⟩ = some x) :
    runLazyPlus mem r ⟨b, w ++ rest, cs⟩ k = some x := by
  obtain ⟨c, w, rfl⟩ := List.exists_cons_of_ne_nil hne
  rw [runLazyPlus, List.cons_append, h.cons, if_pos (hw c (by simp))]
  refine lazyIter_cut h w (c :: b) rest cs k (by simp) (fun a ha => hw a (by simp [ha])) ?_
    (by simpa using hx)
  intro u a v huv
  simpa using hk (c :: u) a v (by simp) (by simp [huv])

end cut

end Regex
