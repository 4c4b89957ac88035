import Mathlib.Data.List.Basic
import Mathlib.Logic.Function.Basic

/-!
# Stores and their last writes

A sequence of writes whose keys and values do not depend on the store. The
final value of a key is the value of the last write to it, so a sequence is
described by `lastPut` alone, and doing it twice is doing it once.
-/

namespace Store

/-- A write to one key; `none` removes the key. -/
structure Put (κ ν : Type*) where
  key : κ
  value : Option ν

/-- The store behind a sequence of writes. -/
def applyAll {κ ν : Type*} [DecidableEq κ] : List (Put κ ν) → (κ → Option ν) → κ → Option ν
  | [], s => s
  | p :: ps, s => applyAll ps (Function.update s p.key p.value)

/-- The last write to a key. -/
def lastPut {κ ν : Type*} [DecidableEq κ] (ps : List (Put κ ν)) (k : κ) : Option (Put κ ν) :=
  (ps.filter fun p => p.key = k).getLast?

section

variable {κ ν : Type*} [DecidableEq κ]

theorem applyAll_append (ps qs : List (Put κ ν)) (s : κ → Option ν) :
    applyAll (ps ++ qs) s = applyAll qs (applyAll ps s) := by
  induction ps generalizing s with
  | nil => rfl
  | cons p ps ih => exact ih _

theorem lastPut_cons (p : Put κ ν) (ps : List (Put κ ν)) (k : κ) :
    lastPut (p :: ps) k = (lastPut ps k).or (if p.key = k then some p else none) := by
  rw [lastPut, lastPut, List.filter_cons]
  by_cases hk : p.key = k
  · rw [if_pos (decide_eq_true hk), if_pos hk, List.getLast?_cons]
    cases (ps.filter fun p => p.key = k).getLast? <;> rfl
  · rw [if_neg (by simpa using hk), if_neg hk, Option.or_none]

/-- The last write to a key decides its final value. -/
theorem applyAll_apply (ps : List (Put κ ν)) (s : κ → Option ν) (k : κ) :
    applyAll ps s k = (lastPut ps k).elim (s k) Put.value := by
  induction ps generalizing s with
  | nil => rfl
  | cons p ps ih =>
      rw [applyAll, ih, lastPut_cons]
      cases lastPut ps k with
      | some q => rfl
      | none =>
          by_cases hk : p.key = k
          · subst hk
            simp
          · simp [hk, Function.update_of_ne (Ne.symm hk)]

/-- What a sequence of writes makes of a key depends on that key alone. -/
theorem applyAll_congr_apply (ps : List (Put κ ν)) {s t : κ → Option ν} {k : κ} (h : s k = t k) :
    applyAll ps s k = applyAll ps t k := by
  rw [applyAll_apply, applyAll_apply, h]

theorem applyAll_of_notMem {ps : List (Put κ ν)} {k : κ} (h : ∀ p ∈ ps, p.key ≠ k)
    (s : κ → Option ν) : applyAll ps s k = s k := by
  induction ps generalizing s with
  | nil => rfl
  | cons p ps ih =>
      rw [applyAll, ih fun q hq => h q (List.mem_cons_of_mem _ hq),
        Function.update_of_ne (h p List.mem_cons_self).symm]

/-- Writes to different keys all last. -/
theorem applyAll_of_mem {ps : List (Put κ ν)} (hnodup : (ps.map Put.key).Nodup) {p : Put κ ν}
    (hp : p ∈ ps) (s : κ → Option ν) : applyAll ps s p.key = p.value := by
  induction ps generalizing s with
  | nil => cases hp
  | cons q ps ih =>
      rw [List.map_cons, List.nodup_cons] at hnodup
      rw [applyAll]
      rcases List.mem_cons.mp hp with rfl | hp
      · have hother : ∀ q ∈ ps, q.key ≠ p.key := fun q hq hkey =>
          hnodup.1 (hkey ▸ List.mem_map_of_mem hq)
        rw [applyAll_of_notMem hother, Function.update_self]
      · exact ih hnodup.2 hp _

/-- Doing the same writes again changes nothing. -/
theorem applyAll_idem (ps : List (Put κ ν)) (s : κ → Option ν) :
    applyAll ps (applyAll ps s) = applyAll ps s := by
  funext k
  rw [applyAll_apply, applyAll_apply]
  cases lastPut ps k <;> rfl

/-- Writes hide every difference in the keys that they write to. -/
theorem applyAll_congr {ps : List (Put κ ν)} {s t : κ → Option ν}
    (h : ∀ k, (∀ p ∈ ps, p.key ≠ k) → s k = t k) : applyAll ps s = applyAll ps t := by
  induction ps generalizing s t with
  | nil => exact funext fun k => h k (by simp)
  | cons p ps ih =>
      apply ih
      intro k hk
      by_cases hp : k = p.key
      · rw [hp, Function.update_self, Function.update_self]
      · rw [Function.update_of_ne hp, Function.update_of_ne hp]
        exact h k (List.forall_mem_cons.mpr ⟨Ne.symm hp, hk⟩)

/-- The last write of a loop to a key, when each round writes to the key at
most once. -/
theorem lastPut_flatMap {α : Type*} (f : α → List (Put κ ν)) (k : κ) (g : α → Bool)
    (h : α → Put κ ν) (as : List α)
    (hf : ∀ a ∈ as, (f a).filter (fun p => p.key = k) = if g a then [h a] else []) :
    lastPut (as.flatMap f) k = ((as.filter g).getLast?).map h := by
  have hfilter : (as.flatMap f).filter (fun p => p.key = k) = (as.filter g).map h := by
    induction as with
    | nil => rfl
    | cons a as ih =>
        rw [List.flatMap_cons, List.filter_append, hf a (by simp),
          ih fun b hb => hf b (by simp [hb]), List.filter_cons]
        cases g a <;> simp
  rw [lastPut, hfilter, List.getLast?_map]

end

end Store
