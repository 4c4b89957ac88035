import Mathlib.Order.Nat
import Mathlib.Data.List.Basic
import Mathlib.Tactic.Common

/-!
# Backtracking matching of regular expressions

`Regex σ` is the syntax of a regular expression whose one-symbol steps are
described by `σ`, and `run mem r c k` is the backtracking search for a match
of `r` at the cursor `c`, followed by the continuation `k`. Alternatives are
tried in the order in which a backtracking engine tries them, so the first
success is the match such an engine reports: `star` prefers another round over
stopping, `alt` prefers its left branch.

`Matches mem r c d` is the same language read as a relation, without the
priorities. `run_sound` and `run_complete` bind the two: a success of the
search is a related cursor accepted by the continuation, and if some related
cursor is accepted, then the search succeeds.
-/

/-- Regular expressions over one-symbol descriptions `σ`. `bos` and `eos` are
the anchors; `eos nl` also accepts the position before one final symbol of
`nl`. -/
inductive Regex (σ : Type*) where
  | empty
  | sat (s : σ)
  | seq (r s : Regex σ)
  | alt (r s : Regex σ)
  | star (r : Regex σ)
  | group (i : ℕ) (r : Regex σ)
  | bos
  | eos (nl : σ)
deriving DecidableEq, Repr

namespace Regex

/-- A position in the subject. `before` is the consumed part, last symbol
first, and `caps` holds the captured groups, the most recent first. -/
@[ext] structure Cursor (α : Type*) where
  before : List α
  after : List α
  caps : List (ℕ × List α)
deriving DecidableEq, Repr

/-- The text captured last by the group `i`, if the group took part. -/
def Cursor.group {α : Type*} (c : Cursor α) (i : ℕ) : Option (List α) :=
  c.caps.lookup i

/-- Closes the group `i` that was opened at `start`. -/
def Cursor.capture {α : Type*} (c : Cursor α) (i : ℕ) (start : Cursor α) : Cursor α :=
  { c with caps :=
      (i, (c.before.take (c.before.length - start.before.length)).reverse) :: c.caps }

/-- The cursor that has consumed `w`, with `rest` still to come. -/
def Cursor.past {α : Type*} (w : List α) (c : Cursor α) (rest : List α) : Cursor α :=
  ⟨w.reverse ++ c.before, rest, c.caps⟩

@[simp] theorem Cursor.past_nil {α : Type*} (c : Cursor α) :
    c.past [] c.after = c := rfl

/-- A group that was opened where `w` begins captures exactly `w`. -/
theorem Cursor.capture_append {α : Type*} (i : ℕ) (start : Cursor α)
    (w b a : List α) (cs : List (ℕ × List α)) (hb : b = w.reverse ++ start.before) :
    (⟨b, a, cs⟩ : Cursor α).capture i start = ⟨b, a, (i, w) :: cs⟩ := by
  subst hb
  simp [Cursor.capture]

/-- At most `n` greedy rounds of `m`. A round that consumes nothing ends the
repetition, so `n` bounds the search only when it is below the length of the
remaining subject. -/
def iter {α β : Type*} (m : Cursor α → (Cursor α → Option β) → Option β) :
    ℕ → Cursor α → (Cursor α → Option β) → Option β
  | 0, c, k => k c
  | n + 1, c, k =>
      (m c fun d => if d.after.length < c.after.length then iter m n d k else none).or (k c)

/-- The first match of `r` at `c` that the continuation `k` accepts. -/
def run {σ α β : Type*} (mem : σ → α → Bool) :
    Regex σ → Cursor α → (Cursor α → Option β) → Option β
  | empty, c, k => k c
  | sat s, c, k =>
      match c.after with
      | [] => none
      | a :: t => if mem s a then k ⟨a :: c.before, t, c.caps⟩ else none
  | seq r s, c, k => run mem r c fun d => run mem s d k
  | alt r s, c, k => (run mem r c k).or (run mem s c k)
  | star r, c, k => iter (fun d l => run mem r d l) c.after.length c k
  | group i r, c, k => run mem r c fun d => k (d.capture i c)
  | bos, c, k => if c.before.isEmpty then k c else none
  | eos nl, c, k =>
      match c.after with
      | [] => k c
      | [a] => if mem nl a then k c else none
      | _ => none

/-- An optional part, preferred when it matches. -/
def opt {σ : Type*} (r : Regex σ) : Regex σ := alt r empty

/-- One or more rounds. -/
def plus {σ : Type*} (r : Regex σ) : Regex σ := seq r (star r)

/-- `n` rounds. -/
def times {σ : Type*} (r : Regex σ) : ℕ → Regex σ
  | 0 => empty
  | n + 1 => seq r (times r n)

/-- At most `n` further rounds. -/
def upTo {σ : Type*} (r : Regex σ) : ℕ → Regex σ
  | 0 => empty
  | n + 1 => opt (seq r (upTo r n))

/-- The concatenation of a list of expressions. -/
def concat {σ : Type*} : List (Regex σ) → Regex σ
  | [] => empty
  | r :: rs => seq r (concat rs)

section equations

variable {σ α β : Type*} (mem : σ → α → Bool)

@[simp] theorem run_empty (c : Cursor α) (k : Cursor α → Option β) :
    run mem empty c k = k c := rfl

@[simp] theorem run_sat_nil (s : σ) (b : List α) (cs : List (ℕ × List α))
    (k : Cursor α → Option β) : run mem (sat s) ⟨b, [], cs⟩ k = none := rfl

@[simp] theorem run_sat_cons (s : σ) (a : α) (b t : List α) (cs : List (ℕ × List α))
    (k : Cursor α → Option β) :
    run mem (sat s) ⟨b, a :: t, cs⟩ k = if mem s a then k ⟨a :: b, t, cs⟩ else none := rfl

theorem run_seq (r s : Regex σ) (c : Cursor α) (k : Cursor α → Option β) :
    run mem (seq r s) c k = run mem r c fun d => run mem s d k := rfl

theorem run_alt (r s : Regex σ) (c : Cursor α) (k : Cursor α → Option β) :
    run mem (alt r s) c k = (run mem r c k).or (run mem s c k) := rfl

theorem run_opt (r : Regex σ) (c : Cursor α) (k : Cursor α → Option β) :
    run mem (opt r) c k = (run mem r c k).or (k c) := rfl

theorem run_plus (r : Regex σ) (c : Cursor α) (k : Cursor α → Option β) :
    run mem (plus r) c k = run mem r c fun d => run mem (star r) d k := rfl

theorem run_star (r : Regex σ) (c : Cursor α) (k : Cursor α → Option β) :
    run mem (star r) c k = iter (fun d l => run mem r d l) c.after.length c k := rfl

theorem run_group (i : ℕ) (r : Regex σ) (c : Cursor α) (k : Cursor α → Option β) :
    run mem (group i r) c k = run mem r c fun d => k (d.capture i c) := rfl

theorem run_concat_cons (r : Regex σ) (rs : List (Regex σ)) (c : Cursor α)
    (k : Cursor α → Option β) :
    run mem (concat (r :: rs)) c k = run mem r c fun d => run mem (concat rs) d k := rfl

theorem run_concat_append (rs ss : List (Regex σ)) (c : Cursor α)
    (k : Cursor α → Option β) :
    run mem (concat (rs ++ ss)) c k =
      run mem (concat rs) c fun d => run mem (concat ss) d k := by
  induction rs generalizing c with
  | nil => rfl
  | cons r rs ih =>
      simp only [List.cons_append, run_concat_cons]
      congr 1
      funext d
      exact ih d

end equations

/-! ## The relational reading -/

/-- `Matches mem r c d` says that `r` can take the cursor from `c` to `d`. -/
inductive Matches {σ α : Type*} (mem : σ → α → Bool) :
    Regex σ → Cursor α → Cursor α → Prop
  | empty (c : Cursor α) : Matches mem empty c c
  | sat {s : σ} {a : α} (b t : List α) (cs : List (ℕ × List α)) (h : mem s a = true) :
      Matches mem (sat s) ⟨b, a :: t, cs⟩ ⟨a :: b, t, cs⟩
  | seq {r s : Regex σ} {c d e : Cursor α} (hr : Matches mem r c d)
      (hs : Matches mem s d e) : Matches mem (seq r s) c e
  | altLeft {r : Regex σ} (s : Regex σ) {c d : Cursor α} (h : Matches mem r c d) :
      Matches mem (alt r s) c d
  | altRight (r : Regex σ) {s : Regex σ} {c d : Cursor α} (h : Matches mem s c d) :
      Matches mem (alt r s) c d
  | starStop (r : Regex σ) (c : Cursor α) : Matches mem (star r) c c
  | starStep {r : Regex σ} {c d e : Cursor α} (hr : Matches mem r c d)
      (hlt : d.after.length < c.after.length) (hs : Matches mem (star r) d e) :
      Matches mem (star r) c e
  | group (i : ℕ) {r : Regex σ} {c d : Cursor α} (h : Matches mem r c d) :
      Matches mem (group i r) c (d.capture i c)
  | bos (a : List α) (cs : List (ℕ × List α)) : Matches mem bos ⟨[], a, cs⟩ ⟨[], a, cs⟩
  | eosEnd (nl : σ) (b : List α) (cs : List (ℕ × List α)) :
      Matches mem (eos nl) ⟨b, [], cs⟩ ⟨b, [], cs⟩
  | eosLast {nl : σ} {a : α} (b : List α) (cs : List (ℕ × List α)) (h : mem nl a = true) :
      Matches mem (eos nl) ⟨b, [a], cs⟩ ⟨b, [a], cs⟩

theorem iter_sound {σ α β : Type*} {mem : σ → α → Bool} {r : Regex σ}
    (hr : ∀ (c : Cursor α) (k : Cursor α → Option β) (x : β), run mem r c k = some x →
      ∃ d, Matches mem r c d ∧ k d = some x)
    (n : ℕ) (c : Cursor α) (k : Cursor α → Option β) (x : β)
    (h : iter (fun d l => run mem r d l) n c k = some x) :
    ∃ d, Matches mem (star r) c d ∧ k d = some x := by
  induction n generalizing c with
  | zero => exact ⟨c, .starStop r c, h⟩
  | succ n ih =>
      rw [iter, Option.or_eq_some_iff] at h
      rcases h with h | ⟨-, h⟩
      · obtain ⟨d, hd, hk⟩ := hr c _ x h
        split at hk
        case isTrue hlt =>
          obtain ⟨e, he, hke⟩ := ih d hk
          exact ⟨e, .starStep hd hlt he, hke⟩
        case isFalse => cases hk
      · exact ⟨c, .starStop r c, h⟩

/-- A success of the search is a related cursor that the continuation
accepts. -/
theorem run_sound {σ α β : Type*} {mem : σ → α → Bool} {r : Regex σ} {c : Cursor α}
    {k : Cursor α → Option β} {x : β} (h : run mem r c k = some x) :
    ∃ d, Matches mem r c d ∧ k d = some x := by
  induction r generalizing c k x with
  | empty => exact ⟨c, .empty c, h⟩
  | sat s =>
      obtain ⟨b, a, cs⟩ := c
      cases a with
      | nil => simp at h
      | cons a t =>
          rw [run_sat_cons] at h
          split at h
          case isTrue hm => exact ⟨_, .sat b t cs hm, h⟩
          case isFalse => cases h
  | seq r s ihr ihs =>
      obtain ⟨d, hd, hk⟩ := ihr h
      obtain ⟨e, he, hke⟩ := ihs hk
      exact ⟨e, .seq hd he, hke⟩
  | alt r s ihr ihs =>
      rw [run_alt, Option.or_eq_some_iff] at h
      rcases h with h | ⟨-, h⟩
      · obtain ⟨d, hd, hk⟩ := ihr h
        exact ⟨d, .altLeft s hd, hk⟩
      · obtain ⟨d, hd, hk⟩ := ihs h
        exact ⟨d, .altRight r hd, hk⟩
  | star r ih => exact iter_sound (fun _ _ _ h => ih h) _ c k x h
  | group i r ih =>
      obtain ⟨d, hd, hk⟩ := ih h
      exact ⟨_, .group i hd, hk⟩
  | bos =>
      obtain ⟨b, a, cs⟩ := c
      cases b with
      | nil => exact ⟨_, .bos a cs, by simpa [run] using h⟩
      | cons b t => simp [run] at h
  | eos nl =>
      obtain ⟨b, a, cs⟩ := c
      match a, h with
      | [], h => exact ⟨_, .eosEnd nl b cs, h⟩
      | [a], h =>
          by_cases hm : mem nl a = true
          · exact ⟨_, .eosLast b cs hm, by simpa [run, hm] using h⟩
          · simp [run, hm] at h
      | a :: a' :: t, h => simp [run] at h

/-- The numbers of the groups that occur in an expression. -/
def groups {σ : Type*} : Regex σ → List ℕ
  | seq r s => groups r ++ groups s
  | alt r s => groups r ++ groups s
  | star r => groups r
  | group i r => i :: groups r
  | _ => []

/-- A match only adds captures, of its own groups. -/
theorem Matches.caps_eq {σ α : Type*} {mem : σ → α → Bool} {r : Regex σ}
    {c d : Cursor α} (h : Matches mem r c d) :
    ∃ new, d.caps = new ++ c.caps ∧ ∀ x ∈ new, x.1 ∈ r.groups := by
  induction h with
  | seq _ _ ihr ihs =>
      obtain ⟨u, hu, hu'⟩ := ihr
      obtain ⟨v, hv, hv'⟩ := ihs
      refine ⟨v ++ u, by rw [hv, hu, List.append_assoc], ?_⟩
      intro x hx
      rcases List.mem_append.mp hx with hx | hx
      · exact List.mem_append_right _ (hv' x hx)
      · exact List.mem_append_left _ (hu' x hx)
  | altLeft s _ ih =>
      obtain ⟨u, hu, hu'⟩ := ih
      exact ⟨u, hu, fun x hx => List.mem_append_left _ (hu' x hx)⟩
  | altRight r _ ih =>
      obtain ⟨u, hu, hu'⟩ := ih
      exact ⟨u, hu, fun x hx => List.mem_append_right _ (hu' x hx)⟩
  | starStep _ _ _ ihr ihs =>
      obtain ⟨u, hu, hu'⟩ := ihr
      obtain ⟨v, hv, hv'⟩ := ihs
      refine ⟨v ++ u, by rw [hv, hu, List.append_assoc], ?_⟩
      intro x hx
      rcases List.mem_append.mp hx with hx | hx
      · exact hv' x hx
      · exact hu' x hx
  | group i _ ih =>
      obtain ⟨u, hu, hu'⟩ := ih
      refine ⟨_ :: u, by simp [Cursor.capture, hu]; rfl, ?_⟩
      intro x hx
      rcases List.mem_cons.mp hx with rfl | hx
      · exact List.mem_cons_self
      · exact List.mem_cons_of_mem _ (hu' x hx)
  | _ => exact ⟨[], rfl, by simp⟩

/-- A match of `r` leaves the captures of other groups alone. -/
theorem Matches.group_eq {σ α : Type*} {mem : σ → α → Bool} {r : Regex σ}
    {c d : Cursor α} (h : Matches mem r c d) (i : ℕ) (hi : i ∉ r.groups) :
    d.group i = c.group i := by
  obtain ⟨new, hnew, hmem⟩ := h.caps_eq
  rw [Cursor.group, Cursor.group, hnew, List.lookup_append]
  have hnone : new.lookup i = none := by
    rw [List.lookup_eq_none_iff]
    intro x hx
    have hne : i ≠ x.1 := fun heq => hi (heq ▸ hmem x hx)
    simpa using hne
  rw [hnone, Option.none_or]

theorem run_fail {σ α β : Type*} (mem : σ → α → Bool) (r : Regex σ) (c : Cursor α) :
    run mem r c (fun _ => (none : Option β)) = none := by
  cases h : run mem r c (fun _ => (none : Option β)) with
  | none => rfl
  | some x =>
      obtain ⟨_, _, hk⟩ := run_sound h
      cases hk

/-- The round bound of `star` is never the reason to stop. -/
theorem iter_eq_of_le {σ α β : Type*} (mem : σ → α → Bool) (r : Regex σ) (n : ℕ)
    (c : Cursor α) (k : Cursor α → Option β) (hn : c.after.length ≤ n) :
    iter (fun d l => run mem r d l) n c k = run mem (star r) c k := by
  suffices hstep : ∀ n (c : Cursor α), c.after.length ≤ n →
      iter (fun d l => run mem r d l) (n + 1) c k =
        iter (fun d l => run mem r d l) n c k by
    rw [run_star]
    induction n, hn using Nat.le_induction with
    | base => rfl
    | succ n hn ih => rw [hstep n c hn, ih]
  intro n
  induction n with
  | zero =>
      intro c hc
      have hlt : ∀ d : Cursor α, ¬ d.after.length < c.after.length := by omega
      simp [iter, hlt, run_fail]
  | succ n ih =>
      intro c hc
      have hround : (fun d : Cursor α => if d.after.length < c.after.length then
            iter (fun d l => run mem r d l) (n + 1) d k else none) =
          fun d => if d.after.length < c.after.length then
            iter (fun d l => run mem r d l) n d k else none := by
        funext d
        by_cases hd : d.after.length < c.after.length
        · rw [if_pos hd, if_pos hd, ih d (by omega)]
        · rw [if_neg hd, if_neg hd]
      rw [iter, hround, ← iter]

/-- One more round of a repetition, or none. -/
theorem run_star_unfold {σ α β : Type*} (mem : σ → α → Bool) (r : Regex σ)
    (c : Cursor α) (k : Cursor α → Option β) :
    run mem (star r) c k =
      (run mem r c fun d =>
        if d.after.length < c.after.length then run mem (star r) d k else none).or (k c) := by
  rw [← iter_eq_of_le mem r (c.after.length + 1) c k (by omega), iter]
  congr 2
  funext d
  by_cases hd : d.after.length < c.after.length
  · rw [if_pos hd, if_pos hd, iter_eq_of_le mem r _ d k (by omega)]
  · rw [if_neg hd, if_neg hd]

/-- A repetition succeeds wherever its continuation does. -/
theorem isSome_run_star {σ α β : Type*} (mem : σ → α → Bool) (r : Regex σ)
    (c : Cursor α) (k : Cursor α → Option β) (hk : (k c).isSome) :
    (run mem (star r) c k).isSome := by
  rw [run_star_unfold, Option.isSome_or, hk, Bool.or_true]

/-- If a related cursor is accepted by the continuation, the search
succeeds. -/
theorem run_complete {σ α β : Type*} {mem : σ → α → Bool} {r : Regex σ} {c d : Cursor α}
    (h : Matches mem r c d) (k : Cursor α → Option β) (hk : (k d).isSome) :
    (run mem r c k).isSome := by
  induction h generalizing k with
  | empty => exact hk
  | sat b t cs hm => simpa [hm] using hk
  | seq _ _ ihr ihs => exact ihr _ (ihs k hk)
  | altLeft s _ ih => simp [run_alt, ih k hk]
  | altRight r _ ih => simp [run_alt, ih k hk]
  | starStop r c => exact isSome_run_star mem r c k hk
  | @starStep r c d e _ hlt _ ihr ihs =>
      rw [run_star_unfold, Option.isSome_or, Bool.or_eq_true]
      left
      apply ihr
      rw [if_pos hlt]
      exact ihs k hk
  | group i _ ih => exact ih _ hk
  | bos => simpa [run] using hk
  | eosEnd => exact hk
  | eosLast b cs hm => simpa [run, hm] using hk

end Regex
