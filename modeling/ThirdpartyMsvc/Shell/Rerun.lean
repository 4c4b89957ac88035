import Mathlib.Data.List.Basic
import Mathlib.Tactic.Common

/-!
# Runs that stop

A script is a list of parts, and a part says which commands it comes to in a
state. A run may end behind any of its commands, and the next one starts again
at the head of the script in the state that was left. `Throughout` is a
property of a whole history of runs. A part that shares nothing with the other
parts can be looked at alone (`throughout_iff_alone`), and there are two ways
for it to be met again: never, since a part that has begun is skipped from then
on (`throughout_iff_find`), or each time (`throughout_iff_count`).
-/

namespace Shell

/-- Where a run stops: `none` is a run that comes to its end, and `some (i, j)`
one that is broken off in the part `i` behind `j` of its commands. -/
abbrev Stop := Option (ℕ × ℕ)

namespace Stop

variable {κ : Type*}

/-- What a run does of the commands of the part `i`. -/
def portion (i : ℕ) : Stop → List κ → List κ
  | none, cs => cs
  | some (k, j), cs => if i < k then cs else if k = i then cs.take j else []

/-- What a run leaves out of the commands of the part `i`. -/
def omitted (i : ℕ) : Stop → List κ → List κ
  | none, _ => []
  | some (k, j), cs => if i < k then [] else if k = i then cs.drop j else cs

/-- A run gets as far as a first command of the part `i`. -/
def starts (i : ℕ) : Stop → Bool
  | none => true
  | some (k, j) => decide (i < k) || (k == i && decide (0 < j))

theorem portion_append_omitted (i : ℕ) (stop : Stop) (cs : List κ) :
    stop.portion i cs ++ stop.omitted i cs = cs := by
  cases stop with
  | none => exact List.append_nil cs
  | some at_ =>
      obtain ⟨k, j⟩ := at_
      simp only [portion, omitted]
      split
      · exact List.append_nil cs
      · split
        · exact List.take_append_drop j cs
        · rfl

theorem mem_of_mem_portion {i : ℕ} {stop : Stop} {cs : List κ} {c : κ}
    (h : c ∈ stop.portion i cs) : c ∈ cs := by
  rw [← portion_append_omitted i stop cs]
  exact List.mem_append_left _ h

theorem portion_nil (i : ℕ) (stop : Stop) : stop.portion i ([] : List κ) = [] :=
  (List.append_eq_nil_iff.mp (portion_append_omitted i stop [])).1

theorem portion_of_not_starts {i : ℕ} {stop : Stop} (h : stop.starts i = false) (cs : List κ) :
    stop.portion i cs = [] := by
  cases stop with
  | none => exact absurd h Bool.true_eq_false.mp
  | some at_ =>
      obtain ⟨k, j⟩ := at_
      simp only [starts, Bool.or_eq_false_iff, decide_eq_false_iff_not, Bool.and_eq_false_iff,
        beq_eq_false_iff_ne] at h
      rw [portion, if_neg h.1]
      split
      · rename_i hk
        have hj : j = 0 := by
          rcases h.2 with h | h
          · exact absurd hk h
          · omega
        rw [hj, List.take_zero]
      · rfl

theorem portion_cons_of_starts {i : ℕ} {stop : Stop} (h : stop.starts i = true) (c : κ)
    (cs : List κ) : ∃ ds, stop.portion i (c :: cs) = c :: ds := by
  cases stop with
  | none => exact ⟨cs, rfl⟩
  | some at_ =>
      obtain ⟨k, j⟩ := at_
      simp only [starts, Bool.or_eq_true, decide_eq_true_eq, Bool.and_eq_true,
        beq_iff_eq] at h
      rw [portion]
      rcases h with h | ⟨rfl, hj⟩
      · exact ⟨cs, if_pos h⟩
      · obtain ⟨m, rfl⟩ := Nat.exists_eq_succ_of_ne_zero (Nat.ne_of_gt hj)
        exact ⟨cs.take m, by rw [if_neg (Nat.lt_irrefl _), if_pos rfl, List.take_succ_cons]⟩

theorem portion_singleton_of_starts {i : ℕ} {stop : Stop} (h : stop.starts i = true) (c : κ) :
    stop.portion i [c] = [c] := by
  obtain ⟨ds, hds⟩ := portion_cons_of_starts h c []
  have hall := portion_append_omitted i stop [c]
  rw [hds, List.cons_append, List.cons.injEq, List.append_eq_nil_iff] at hall
  rw [hds, hall.2.1]

end Stop

section runs

variable {σ κ : Type*} (exec : κ → σ → σ)

/-- The state behind some commands. -/
def after (cs : List κ) (s : σ) : σ := cs.foldl (fun s c => exec c s) s

/-- A property of each command in the state that it is run in. -/
def Along (Good : σ → κ → Prop) : σ → List κ → Prop
  | _, [] => True
  | s, c :: cs => Good s c ∧ Along Good (exec c s) cs

/-- The commands that a run comes to in the parts from number `i` on. -/
def executedFrom : ℕ → List (σ → List κ) → Stop → σ → List κ
  | _, [], _, _ => []
  | i, part :: parts, stop, s =>
      stop.portion i (part s) ++
        executedFrom (i + 1) parts stop (after exec (stop.portion i (part s)) s)

/-- The commands that a run of a script comes to. -/
def executed (parts : List (σ → List κ)) : Stop → σ → List κ := executedFrom exec 0 parts

/-- In a history of runs, each command is `Good` where it is run, and each run
that comes to its end leaves a state that is `Done`. -/
def Throughout (commands : Stop → σ → List κ) (Good : σ → κ → Prop) (Done : σ → Prop) :
    σ → List Stop → Prop
  | _, [] => True
  | s, stop :: stops =>
      Along exec Good s (commands stop s) ∧
        (stop = none → Done (after exec (commands stop s) s)) ∧
          Throughout commands Good Done (after exec (commands stop s) s) stops

variable {exec}

theorem after_append (cs ds : List κ) (s : σ) :
    after exec (cs ++ ds) s = after exec ds (after exec cs s) := List.foldl_append

theorem along_append {Good : σ → κ → Prop} {cs ds : List κ} {s : σ} :
    Along exec Good s (cs ++ ds) ↔
      Along exec Good s cs ∧ Along exec Good (after exec cs s) ds := by
  induction cs generalizing s with
  | nil => exact ⟨fun h => ⟨trivial, h⟩, And.right⟩
  | cons c cs ih =>
      rw [List.cons_append, Along, Along, ih, and_assoc]
      rfl

theorem along_of_forall {Good : σ → κ → Prop} {cs : List κ}
    (h : ∀ c ∈ cs, ∀ s, Good s c) (s : σ) : Along exec Good s cs := by
  induction cs generalizing s with
  | nil => trivial
  | cons c cs ih =>
      exact ⟨h c List.mem_cons_self s, ih (fun d hd => h d (List.mem_cons_of_mem _ hd)) _⟩

theorem along_of_prefix {Good : σ → κ → Prop} {cs : List κ} {s : σ}
    (h : ∀ ds c es, cs = ds ++ c :: es → Good (after exec ds s) c) : Along exec Good s cs := by
  induction cs generalizing s with
  | nil => trivial
  | cons c cs ih =>
      refine ⟨h [] c cs rfl, ih fun ds d es hcs => ?_⟩
      exact h (c :: ds) d es (by rw [hcs, List.cons_append])

/-- What every command keeps holds behind all of them. -/
theorem after_induction {Inv : σ → Prop} {cs : List κ}
    (h : ∀ c ∈ cs, ∀ s, Inv s → Inv (exec c s)) {s : σ} (hs : Inv s) :
    Inv (after exec cs s) := by
  induction cs generalizing s with
  | nil => exact hs
  | cons c cs ih =>
      exact ih (fun d hd => h d (List.mem_cons_of_mem _ hd)) (h c List.mem_cons_self s hs)

theorem executedFrom_append (i : ℕ) (pre post : List (σ → List κ)) (stop : Stop) (s : σ) :
    executedFrom exec i (pre ++ post) stop s =
      executedFrom exec i pre stop s ++
        executedFrom exec (i + pre.length) post stop
          (after exec (executedFrom exec i pre stop s) s) := by
  induction pre generalizing i s with
  | nil => rfl
  | cons part pre ih =>
      rw [List.cons_append, executedFrom, ih, executedFrom, List.append_assoc, after_append,
        List.length_cons, Nat.add_right_comm, Nat.add_assoc]

variable (exec) in
/-- A run that comes to its end does all of every part. -/
theorem after_executed_none (parts : List (σ → List κ)) (s : σ) :
    after exec (executed exec parts none s) s =
      parts.foldl (fun s part => after exec (part s) s) s := by
  have h : ∀ i, after exec (executedFrom exec i parts none s) s =
      parts.foldl (fun s part => after exec (part s) s) s := by
    induction parts generalizing s with
    | nil => exact fun _ => rfl
    | cons part parts ih =>
        intro i
        rw [executedFrom, after_append, Stop.portion, ih, List.foldl_cons]
  exact h 0

theorem mem_executedFrom {i : ℕ} {parts : List (σ → List κ)} {stop : Stop} {s : σ} {c : κ}
    (h : c ∈ executedFrom exec i parts stop s) : ∃ part ∈ parts, ∃ s', c ∈ part s' := by
  induction parts generalizing i s with
  | nil => exact absurd h List.not_mem_nil
  | cons part parts ih =>
      rcases List.mem_append.mp h with h | h
      · exact ⟨part, List.mem_cons_self, s, Stop.mem_of_mem_portion h⟩
      · obtain ⟨other, hother, hc⟩ := ih h
        exact ⟨other, List.mem_cons_of_mem _ hother, hc⟩

variable (exec) in
/-- What a run does before a part, in it, and behind it. -/
theorem executed_split (pre post : List (σ → List κ)) (part : σ → List κ) (stop : Stop) (s : σ) :
    ∃ cs₁ cs₂, executed exec (pre ++ part :: post) stop s =
        cs₁ ++ (stop.portion pre.length (part (after exec cs₁ s)) ++ cs₂) ∧
      (∀ c ∈ cs₁, ∃ other ∈ pre, ∃ s', c ∈ other s') ∧
      ∀ c ∈ cs₂, ∃ other ∈ post, ∃ s', c ∈ other s' := by
  have h : executed exec (pre ++ part :: post) stop s = _ :=
    executedFrom_append 0 pre (part :: post) stop s
  rw [executedFrom, Nat.zero_add] at h
  exact ⟨_, _, h, fun c => mem_executedFrom, fun c => mem_executedFrom⟩

/-! ## A part of its own -/

section alone

variable {view : σ → σ} {pre post : List (σ → List κ)} {part : σ → List κ}
  {Good : σ → κ → Prop} {Done : σ → Prop}

theorem view_after_of_frame {cs : List κ} (h : ∀ c ∈ cs, ∀ s, view (exec c s) = view s) (s : σ) :
    view (after exec cs s) = view s := by
  have hkeep : ∀ c ∈ cs, ∀ s', view s' = view s → view (exec c s') = view s :=
    fun c hc s' hs' => (h c hc s').trans hs'
  exact after_induction hkeep rfl

theorem view_after {cs : List κ} (h : ∀ c ∈ cs, ∀ s, view (exec c s) = exec c (view s)) (s : σ) :
    view (after exec cs s) = after exec cs (view s) := by
  induction cs generalizing s with
  | nil => rfl
  | cons c cs ih =>
      change view (after exec cs (exec c s)) = after exec cs (exec c (view s))
      rw [ih (fun d hd => h d (List.mem_cons_of_mem _ hd)), h c List.mem_cons_self]

theorem along_view_iff {cs : List κ} (h : ∀ c ∈ cs, ∀ s, view (exec c s) = exec c (view s))
    (hgood : ∀ c ∈ cs, ∀ s, Good (view s) c ↔ Good s c) (s : σ) :
    Along exec Good (view s) cs ↔ Along exec Good s cs := by
  induction cs generalizing s with
  | nil => rfl
  | cons c cs ih =>
      rw [Along, Along, hgood c List.mem_cons_self, ← h c List.mem_cons_self,
        ih (fun d hd => h d (List.mem_cons_of_mem _ hd))
          (fun d hd => hgood d (List.mem_cons_of_mem _ hd))]

/-- A part that the other parts do not touch behaves in the runs of the whole
script as it does alone, in what it sees of the state. -/
theorem throughout_iff_alone
    (hothers : ∀ other ∈ pre ++ post, ∀ s, ∀ c ∈ other s,
      (∀ s', view (exec c s') = view s') ∧ ∀ s', Good s' c)
    (hpart : ∀ s, part (view s) = part s)
    (hexec : ∀ s, ∀ c ∈ part s, ∀ s', view (exec c s') = exec c (view s'))
    (hgood : ∀ s, ∀ c ∈ part s, ∀ s', Good (view s') c ↔ Good s' c)
    (hdone : ∀ s, Done (view s) ↔ Done s) (s : σ) (stops : List Stop) :
    Throughout exec (executed exec (pre ++ part :: post)) Good Done s stops ↔
      Throughout exec (fun stop s => stop.portion pre.length (part s)) Good Done
        (view s) stops := by
  induction stops generalizing s with
  | nil => rfl
  | cons stop stops ih =>
      obtain ⟨cs₁, cs₂, hexecuted, hpre, hpost⟩ := executed_split exec pre post part stop s
      have hcs₁ : ∀ c ∈ cs₁, (∀ s', view (exec c s') = view s') ∧ ∀ s', Good s' c := by
        intro c hc
        obtain ⟨other, hmem, s', hc'⟩ := hpre c hc
        exact hothers other (List.mem_append_left _ hmem) s' c hc'
      have hcs₂ : ∀ c ∈ cs₂, (∀ s', view (exec c s') = view s') ∧ ∀ s', Good s' c := by
        intro c hc
        obtain ⟨other, hmem, s', hc'⟩ := hpost c hc
        exact hothers other (List.mem_append_right _ hmem) s' c hc'
      have hview : view (after exec cs₁ s) = view s :=
        view_after_of_frame (fun c hc => (hcs₁ c hc).1) s
      have hcs : part (after exec cs₁ s) = part (view s) := by rw [← hview, hpart]
      rw [hcs] at hexecuted
      have hmem : ∀ c ∈ stop.portion pre.length (part (view s)), c ∈ part (view s) :=
        fun c hc => Stop.mem_of_mem_portion hc
      have hend : view (after exec (executed exec (pre ++ part :: post) stop s) s) =
          after exec (stop.portion pre.length (part (view s))) (view s) := by
        rw [hexecuted, after_append, after_append,
          view_after_of_frame (fun c hc => (hcs₂ c hc).1),
          view_after (fun c hc => hexec _ c (hmem c hc)), hview]
      have halong : Along exec Good s (executed exec (pre ++ part :: post) stop s) ↔
          Along exec Good (view s) (stop.portion pre.length (part (view s))) := by
        rw [hexecuted, along_append, along_append, ← hview,
          along_view_iff (fun c hc => hexec _ c (hmem c (hview ▸ hc)))
            (fun c hc => hgood _ c (hmem c (hview ▸ hc)))]
        exact ⟨fun h => h.2.1, fun h => ⟨along_of_forall (fun c hc => (hcs₁ c hc).2) s, h,
          along_of_forall (fun c hc => (hcs₂ c hc).2) _⟩⟩
      rw [Throughout, Throughout, halong, ← hdone, ih, hend]

end alone

/-! ## A part that is met again -/

section again

variable {i : ℕ} {part : σ → List κ} {Good : σ → κ → Prop} {Done : σ → Prop}

/-- A run that does not get to the part changes nothing of it. -/
theorem throughout_cons_of_not_starts {stop : Stop} (hstarts : stop.starts i = false) (s : σ)
    (stops : List Stop) :
    Throughout exec (fun stop s => stop.portion i (part s)) Good Done s (stop :: stops) ↔
      Throughout exec (fun stop s => stop.portion i (part s)) Good Done s stops := by
  have hne : stop ≠ none := by
    rintro rfl
    exact Bool.false_ne_true hstarts.symm
  rw [Throughout, Stop.portion_of_not_starts hstarts]
  exact ⟨fun h => h.2.2, fun h => ⟨trivial, fun h' => absurd h' hne, h⟩⟩

/-- Where a part has no command left, a history only asks for the state. -/
theorem throughout_iff_of_skipped {s : σ} (hs : part s = []) (stops : List Stop) :
    Throughout exec (fun stop s => stop.portion i (part s)) Good Done s stops ↔
      (none ∈ stops → Done s) := by
  induction stops with
  | nil => exact ⟨fun _ h => absurd h List.not_mem_nil, fun _ => trivial⟩
  | cons stop stops ih =>
      rw [Throughout, hs, Stop.portion_nil]
      change True ∧ (stop = none → Done s) ∧ _ ↔ _
      rw [true_and, show after exec [] s = s from rfl, ih, List.mem_cons, or_imp,
        eq_comm (a := none)]

/-- A part that is skipped as soon as it has begun: the first run that begins it
decides for all the others. -/
theorem throughout_iff_find {s : σ}
    (hskip : ∀ stop : Stop, stop.starts i = true →
      part (after exec (stop.portion i (part s)) s) = [])
    (hgood : Along exec Good s (part s)) (stops : List Stop) :
    Throughout exec (fun stop s => stop.portion i (part s)) Good Done s stops ↔
      (none ∈ stops → ∀ stop, stops.find? (·.starts i) = some stop →
        Done (after exec (stop.portion i (part s)) s)) := by
  induction stops with
  | nil => exact ⟨fun _ h => absurd h List.not_mem_nil, fun _ => trivial⟩
  | cons stop stops ih =>
      cases hstarts : stop.starts i with
      | false =>
          have hne : none ≠ stop := by
            rintro rfl
            exact Bool.false_ne_true hstarts.symm
          rw [throughout_cons_of_not_starts hstarts, ih, List.mem_cons, or_iff_right hne,
            List.find?_cons_of_neg (by rw [hstarts]; exact Bool.false_ne_true)]
      | true =>
          have hportion : Along exec Good s (stop.portion i (part s)) := by
            rw [← Stop.portion_append_omitted i stop (part s)] at hgood
            exact (along_append.mp hgood).1
          rw [Throughout, throughout_iff_of_skipped (hskip stop hstarts),
            List.find?_cons_of_pos (p := fun q : Stop => q.starts i) hstarts,
            List.mem_cons, or_imp, eq_comm (a := none)]
          constructor
          · rintro ⟨-, hnone, hlater⟩
            refine ⟨fun h stop' hstop' => ?_, fun h stop' hstop' => ?_⟩
            · cases hstop'
              exact hnone h
            · cases hstop'
              exact hlater h
          · intro h
            exact ⟨hportion, fun hn => h.1 hn stop rfl, fun hn => h.2 hn stop rfl⟩

/-- A part of one command that must not be run again, and that nothing keeps
from it: at most one run may get there. -/
theorem throughout_iff_count {s : σ} {c : κ} (hs : part s = [c])
    (hagain : part (exec c s) = [c]) (hgood : Good s c) (hbad : ¬ Good (exec c s) c)
    (hdone : Done (exec c s)) (stops : List Stop) :
    Throughout exec (fun stop s => stop.portion i (part s)) Good Done s stops ↔
      (stops.filter (·.starts i)).length ≤ 1 := by
  have hspent : ∀ stops : List Stop,
      Throughout exec (fun stop s => stop.portion i (part s)) Good Done (exec c s) stops ↔
        (stops.filter (·.starts i)).length = 0 := by
    intro stops
    induction stops with
    | nil => exact ⟨fun _ => rfl, fun _ => trivial⟩
    | cons stop stops ih =>
        cases hstarts : stop.starts i with
        | false =>
            rw [throughout_cons_of_not_starts hstarts, ih,
              List.filter_cons_of_neg (by rw [hstarts]; exact Bool.false_ne_true)]
        | true =>
            rw [List.filter_cons_of_pos (by exact hstarts), Throughout, hagain,
              Stop.portion_singleton_of_starts hstarts]
            exact ⟨fun h => absurd h.1.1 hbad, fun h => absurd h (Nat.succ_ne_zero _)⟩
  induction stops with
  | nil => exact ⟨fun _ => Nat.zero_le 1, fun _ => trivial⟩
  | cons stop stops ih =>
      cases hstarts : stop.starts i with
      | false =>
          rw [List.filter_cons_of_neg (by rw [hstarts]; exact Bool.false_ne_true)]
          exact (throughout_cons_of_not_starts hstarts s stops).trans ih
      | true =>
          rw [List.filter_cons_of_pos (by exact hstarts), Throughout, hs,
            Stop.portion_singleton_of_starts hstarts, List.length_cons, Nat.succ_le_succ_iff,
            Nat.le_zero, ← hspent]
          exact ⟨fun h => h.2.2, fun h => ⟨⟨hgood, trivial⟩, fun _ => hdone, h⟩⟩

end again

end runs

end Shell
