import Mathlib.Logic.Relation

/-!
# Guarded blocks

A script that may be started again keeps each of its blocks behind a test for a
file: the block is skipped when the file is there. Commands report success or
failure, but nothing looks at the report, so a block goes on behind a command
that has failed. What a command does to the state is a parameter.
-/

namespace Shell

/-- `if not exist guard ( body )`. -/
structure Block (γ κ : Type*) where
  guard : γ
  body : List κ

section run

variable {γ κ σ : Type*} (present : γ → σ → Prop) (step : κ → Bool → σ → σ → Prop)

/-- The commands of a body, one after the other. The flag says whether every one
of them has succeeded. -/
inductive BodyRun : List κ → Bool → σ → σ → Prop
  | nil (s : σ) : BodyRun [] true s s
  | cons {c : κ} {cs : List κ} {ok ok' : Bool} {s s' s'' : σ} :
      step c ok s s' → BodyRun cs ok' s' s'' → BodyRun (c :: cs) (ok && ok') s s''

/-- One run of a script. -/
inductive Run : List (Block γ κ) → Bool → σ → σ → Prop
  | nil (s : σ) : Run [] true s s
  | skip {b : Block γ κ} {bs : List (Block γ κ)} {ok : Bool} {s s' : σ} :
      present b.guard s → Run bs ok s s' → Run (b :: bs) ok s s'
  | enter {b : Block γ κ} {bs : List (Block γ κ)} {ok ok' : Bool} {s s' s'' : σ} :
      ¬ present b.guard s → BodyRun step b.body ok s s' → Run bs ok' s' s'' →
        Run (b :: bs) (ok && ok') s s''

/-- Any number of runs of a script, each with any success. -/
def History (bs : List (Block γ κ)) : σ → σ → Prop :=
  Relation.ReflTransGen fun s s' => ∃ ok, Run present step bs ok s s'

variable {present step}

/-! ## Runs in which every command succeeds -/

theorem bodyRun_nil_iff {s s' : σ} : BodyRun step [] true s s' ↔ s' = s := by
  constructor
  · intro h
    cases h
    rfl
  · rintro rfl
    exact .nil _

theorem bodyRun_cons_iff {c : κ} {cs : List κ} {s s'' : σ} :
    BodyRun step (c :: cs) true s s'' ↔ ∃ s', step c true s s' ∧ BodyRun step cs true s' s'' := by
  constructor
  · intro h
    generalize hok : true = ok at h
    cases h with
    | cons hc hcs =>
        obtain ⟨rfl, rfl⟩ := Bool.and_eq_true_iff.mp hok.symm
        exact ⟨_, hc, hcs⟩
  · rintro ⟨s', hc, hcs⟩
    exact .cons hc hcs

theorem run_nil_iff {s s' : σ} : Run present step [] true s s' ↔ s' = s := by
  constructor
  · intro h
    cases h
    rfl
  · rintro rfl
    exact .nil _

theorem run_cons_iff_of_present {b : Block γ κ} {bs : List (Block γ κ)} {s s' : σ}
    (h : present b.guard s) :
    Run present step (b :: bs) true s s' ↔ Run present step bs true s s' := by
  constructor
  · intro hrun
    generalize true = ok at hrun
    cases hrun with
    | skip _ hbs => exact hbs
    | enter hnot => exact absurd h hnot
  · exact .skip h

theorem run_cons_iff_of_not_present {b : Block γ κ} {bs : List (Block γ κ)} {s s'' : σ}
    (h : ¬ present b.guard s) :
    Run present step (b :: bs) true s s'' ↔
      ∃ s', BodyRun step b.body true s s' ∧ Run present step bs true s' s'' := by
  constructor
  · intro hrun
    generalize hok : true = ok at hrun
    cases hrun with
    | skip hpresent => exact absurd hpresent h
    | enter _ hbody hbs =>
        obtain ⟨rfl, rfl⟩ := Bool.and_eq_true_iff.mp hok.symm
        exact ⟨_, hbody, hbs⟩
  · rintro ⟨s', hbody, hbs⟩
    exact .enter h hbody hbs

/-! ## Invariants -/

theorem BodyRun.invariant {Inv : σ → Prop} {cs : List κ} {ok : Bool} {s s' : σ}
    (hrun : BodyRun step cs ok s s')
    (hstep : ∀ c ∈ cs, ∀ ok s s', Inv s → step c ok s s' → Inv s') (hs : Inv s) : Inv s' := by
  induction hrun with
  | nil => exact hs
  | cons hc _ ih =>
      exact ih (fun c hmem => hstep c (List.mem_cons_of_mem _ hmem))
        (hstep _ List.mem_cons_self _ _ _ hs hc)

/-- What every command of a script keeps holds behind a run. -/
theorem Run.invariant {Inv : σ → Prop} {bs : List (Block γ κ)} {ok : Bool} {s s' : σ}
    (hrun : Run present step bs ok s s')
    (hstep : ∀ b ∈ bs, ∀ c ∈ b.body, ∀ ok s s', Inv s → step c ok s s' → Inv s')
    (hs : Inv s) : Inv s' := by
  induction hrun with
  | nil => exact hs
  | skip _ _ ih => exact ih (fun b hmem => hstep b (List.mem_cons_of_mem _ hmem)) hs
  | enter _ hbody _ ih =>
      exact ih (fun b hmem => hstep b (List.mem_cons_of_mem _ hmem))
        (hbody.invariant (hstep _ List.mem_cons_self) hs)

/-- What every command of a script keeps holds behind any number of runs. -/
theorem History.invariant {Inv : σ → Prop} {bs : List (Block γ κ)} {s s' : σ}
    (h : History present step bs s s')
    (hstep : ∀ b ∈ bs, ∀ c ∈ b.body, ∀ ok s s', Inv s → step c ok s s' → Inv s')
    (hs : Inv s) : Inv s' := by
  induction h with
  | refl => exact hs
  | tail _ hrun ih =>
      obtain ⟨ok, hrun⟩ := hrun
      exact hrun.invariant hstep ih

end run

end Shell
