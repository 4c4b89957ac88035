import ThirdpartyMsvc.Regex.Greedy

/-!
# Preferred matches

A backtracking engine tries the ways to match an expression in an order, and
`Prefers mem r c d` says that the way from `c` to `d` is the first one: wherever
what comes behind accepts `d`, the search ends there. `Refuses mem r c` says
that there is no way at all. The rules build the preferred match of an
expression from the ones of its parts.
-/

namespace Regex

variable {σ α : Type*} (mem : σ → α → Bool)

/-- The first way to match `r` from `c` leads to `d`. -/
def Prefers (r : Regex σ) (c d : Cursor α) : Prop :=
  ∀ ⦃β : Type⦄ (k : Cursor α → Option β) (x : β), k d = some x → run mem r c k = some x

/-- There is no way to match `r` from `c`. -/
def Refuses (r : Regex σ) (c : Cursor α) : Prop :=
  ∀ ⦃β : Type⦄ (k : Cursor α → Option β), run mem r c k = none

variable {mem}

section rules

variable {r s : Regex σ} {c d e : Cursor α}

theorem Prefers.empty (c : Cursor α) : Prefers mem empty c c := fun _ _ _ hx => hx

theorem Prefers.sat {s : σ} {a : α} (h : mem s a = true) (b t : List α)
    (cs : List (ℕ × List α)) : Prefers mem (sat s) ⟨b, a :: t, cs⟩ ⟨a :: b, t, cs⟩ := by
  intro β k x hx
  rw [run_sat_cons, if_pos h]
  exact hx

theorem Prefers.seq (hr : Prefers mem r c d) (hs : Prefers mem s d e) :
    Prefers mem (seq r s) c e := fun _ k x hx => hr _ x (hs k x hx)

theorem Prefers.concat_nil (c : Cursor α) : Prefers mem (concat []) c c := .empty c

theorem Prefers.concat_cons {rs : List (Regex σ)} (hr : Prefers mem r c d)
    (hs : Prefers mem (concat rs) d e) : Prefers mem (concat (r :: rs)) c e := hr.seq hs

theorem Prefers.group (i : ℕ) (hr : Prefers mem r c d) :
    Prefers mem (group i r) c (d.capture i c) := fun _ _ x hx => hr _ x hx

theorem Prefers.opt (hr : Prefers mem r c d) : Prefers mem (opt r) c d := by
  intro β k x hx
  rw [run_opt, hr k x hx, Option.some_or]

theorem Prefers.opt_none (hr : Refuses mem r c) : Prefers mem (Regex.opt r) c c := by
  intro β k x hx
  rw [run_opt, hr k, Option.none_or, hx]

theorem Prefers.star_stop (hr : Refuses mem r c) : Prefers mem (star r) c c := by
  intro β k x hx
  rw [run_star_unfold, hr, Option.none_or, hx]

theorem Prefers.star_step (hr : Prefers mem r c d) (hlt : d.after.length < c.after.length)
    (hs : Prefers mem (star r) d e) : Prefers mem (star r) c e := by
  intro β k x hx
  rw [run_star_unfold, hr _ x (by rw [if_pos hlt]; exact hs k x hx), Option.some_or]

theorem Prefers.eos_end (nl : σ) (b : List α) (cs : List (ℕ × List α)) :
    Prefers mem (eos nl) ⟨b, [], cs⟩ ⟨b, [], cs⟩ := fun _ _ _ hx => hx

theorem Refuses.concat_cons {rs : List (Regex σ)} (hr : Refuses mem r c) :
    Refuses mem (concat (r :: rs)) c := fun _ _ => hr _

/-- No round can begin, and what comes behind the rounds cannot either. -/
theorem Refuses.star_concat {rs : List (Regex σ)} (hr : Refuses mem r c)
    (hs : Refuses mem (concat rs) c) : Refuses mem (concat (star r :: rs)) c := by
  intro β k
  rw [run_concat_cons, run_star_unfold, hr, Option.none_or]
  exact hs k

theorem Refuses.group (i : ℕ) (hr : Refuses mem r c) : Refuses mem (group i r) c :=
  fun _ _ => hr _

theorem Refuses.sat {s : σ} {b rest : List α} {cs : List (ℕ × List α)}
    (h : Stops (mem s) rest) : Refuses mem (sat s) ⟨b, rest, cs⟩ := by
  intro β k
  cases rest with
  | nil => rfl
  | cons a t => rw [run_sat_cons, (stops_cons _ a t).mp h, if_neg Bool.false_ne_true]

end rules

section symbols

variable {r : Regex σ} {p : α → Bool} {e : α → List (ℕ × List α)}

/-- A repetition of one-symbol rounds consumes the whole run. -/
theorem Prefers.star_symbols (h : ∀ β : Type, OneSymbol (β := β) mem r p e) {w : List α}
    (hw : ∀ a ∈ w, p a = true) {rest : List α} (hr : Stops p rest) (b : List α)
    (cs : List (ℕ × List α)) :
    Prefers mem (star r) ⟨b, w ++ rest, cs⟩ ⟨w.reverse ++ b, rest, symbolCaps e w ++ cs⟩ :=
  fun β k _ hx => run_star_greedy (h β) w b rest cs k hw hr hx

theorem Prefers.plus_symbols (h : ∀ β : Type, OneSymbol (β := β) mem r p e) {w : List α}
    (hne : w ≠ []) (hw : ∀ a ∈ w, p a = true) {rest : List α} (hr : Stops p rest) (b : List α)
    (cs : List (ℕ × List α)) :
    Prefers mem (plus r) ⟨b, w ++ rest, cs⟩ ⟨w.reverse ++ b, rest, symbolCaps e w ++ cs⟩ := by
  obtain ⟨a, w, rfl⟩ := List.exists_cons_of_ne_nil hne
  intro β k x hx
  have hstar := run_star_greedy (h β) w (a :: b) rest (e a ++ cs) k
    (fun c hc => hw c (List.mem_cons_of_mem a hc)) hr
    (by simpa [symbolCaps_cons] using hx)
  rw [run_plus, List.cons_append, (h β).cons, if_pos (hw a List.mem_cons_self), hstar]

end symbols

end Regex
