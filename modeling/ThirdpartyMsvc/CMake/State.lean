import ThirdpartyMsvc.CMake.Lists
import Mathlib.Logic.Function.Basic

/-!
# The state of a cmake run

A run of cmake reads one file after the other, and all of them work on the same
variables, targets and properties of targets. Of the policies only CMP0054 is
kept: without it a quoted operand of `if` that is the name of a variable stands
for the value of that variable. An error ends the run.

Most commands are quiet: they touch nothing but variables that nobody else
relies on. `Quiet` says so for a predicate of the variables that somebody relies
on, and composes.
-/

namespace CMake

/-- The variables that are set, the settings of CMP0054, innermost first, the
imported targets in the order in which they were added, and their properties. -/
structure State where
  vars : Text → Option Text
  policies : List Bool
  targets : List Text
  props : Text × Text → Option Text

namespace State

/-- Nothing has happened yet. -/
def empty : State := ⟨fun _ => none, [], [], fun _ => none⟩

/-- A reference to a variable; one that is not set is empty. -/
def get (name : Text) (s : State) : Text := (s.vars name).getD []

def set (name value : Text) (s : State) : State :=
  { s with vars := Function.update s.vars name (some value) }

def unset (name : Text) (s : State) : State :=
  { s with vars := Function.update s.vars name none }

/-- `list(APPEND …)`. -/
def append (name : Text) (values : List Text) (s : State) : State :=
  s.set name (appended (s.get name) values)

/-- A quoted operand of a comparison. -/
def operand (t : Text) (s : State) : Text :=
  if s.policies.head? = some true then t else (s.vars t).getD t

/-- `cmake_policy(PUSH)` and then `cmake_policy(VERSION …)`. -/
def pushPolicies (cmp0054 : Bool) (s : State) : State :=
  { s with policies := cmp0054 :: s.policies }

/-- `cmake_policy(POP)`. -/
def popPolicies (s : State) : State := { s with policies := s.policies.tail }

/-- `add_library(… IMPORTED)`. A new target has no properties. -/
def addLibrary (target : Text) (s : State) : Except Text State :=
  if target ∈ s.targets then
    .error ("add_library cannot create imported target \"".toList ++ target ++
      "\" because another target with the same name already exists.".toList)
  else
    .ok { s with
      targets := s.targets ++ [target]
      props := fun k => if k.1 = target then none else s.props k }

/-- `set_target_properties` for one property. -/
def setProperty (target property value : Text) (s : State) : Except Text State :=
  if target ∈ s.targets then
    .ok { s with props := Function.update s.props (target, property) (some value) }
  else
    .error ("set_target_properties Can not find target to add properties to: ".toList ++ target)

/-- `set_property(TARGET … APPEND PROPERTY …)`. -/
def appendProperty (target property value : Text) (s : State) : Except Text State :=
  if target ∈ s.targets then
    .ok { s with
      props := Function.update s.props (target, property)
        (some (appended ((s.props (target, property)).getD []) [value])) }
  else
    .error ("set_property could not find TARGET ".toList ++ target ++
      ".  Perhaps it has not yet been created.".toList)

@[simp] theorem vars_set_self (name value : Text) (s : State) :
    (s.set name value).vars name = some value := Function.update_self ..

theorem vars_set_of_ne {name other : Text} (h : other ≠ name) (value : Text) (s : State) :
    (s.set name value).vars other = s.vars other := Function.update_of_ne h ..

@[simp] theorem vars_unset_self (name : Text) (s : State) : (s.unset name).vars name = none :=
  Function.update_self ..

theorem vars_unset_of_ne {name other : Text} (h : other ≠ name) (s : State) :
    (s.unset name).vars other = s.vars other := Function.update_of_ne h ..

@[simp] theorem get_set_self (name value : Text) (s : State) :
    (s.set name value).get name = value := by
  rw [get, vars_set_self, Option.getD_some]

theorem get_set_of_ne {name other : Text} (h : other ≠ name) (value : Text) (s : State) :
    (s.set name value).get other = s.get other := by
  rw [get, vars_set_of_ne h, get]

theorem get_unset_self (name : Text) (s : State) : (s.unset name).get name = [] := by
  rw [get, vars_unset_self, Option.getD_none]

theorem get_unset_of_ne {name other : Text} (h : other ≠ name) (s : State) :
    (s.unset name).get other = s.get other := by
  rw [get, vars_unset_of_ne h, get]

/-- An operand that is not the name of a variable stands for itself. -/
theorem operand_of_none {t : Text} {s : State} (h : s.vars t = none) : s.operand t = t := by
  rw [operand, h, Option.getD_none, ite_self]

theorem addLibrary_of_notMem {target : Text} {s : State} (h : target ∉ s.targets) :
    s.addLibrary target = .ok { s with
      targets := s.targets ++ [target]
      props := fun k => if k.1 = target then none else s.props k } := if_neg h

theorem setProperty_of_mem {target : Text} {s : State} (h : target ∈ s.targets)
    (property value : Text) : s.setProperty target property value =
      .ok { s with props := Function.update s.props (target, property) (some value) } := if_pos h

theorem appendProperty_of_mem {target : Text} {s : State} (h : target ∈ s.targets)
    (property value : Text) : s.appendProperty target property value =
      .ok { s with
        props := Function.update s.props (target, property)
          (some (appended ((s.props (target, property)).getD []) [value])) } := if_pos h

end State

/-! ## Quiet commands -/

/-- Nothing is different but variables outside `G`. -/
structure Quiet (G : Text → Prop) (s s' : State) : Prop where
  vars : ∀ n, G n → s'.vars n = s.vars n
  policies : s'.policies = s.policies
  targets : s'.targets = s.targets
  props : s'.props = s.props

namespace Quiet

variable {G : Text → Prop} {s s' s'' : State}

theorem refl (s : State) : Quiet G s s := ⟨fun _ _ => rfl, rfl, rfl, rfl⟩

theorem trans (h : Quiet G s s') (h' : Quiet G s' s'') : Quiet G s s'' where
  vars n hn := (h'.vars n hn).trans (h.vars n hn)
  policies := h'.policies.trans h.policies
  targets := h'.targets.trans h.targets
  props := h'.props.trans h.props

theorem ne_of_not {n name : Text} (hn : G n) (hname : ¬ G name) : n ≠ name := by
  rintro rfl
  exact hname hn

theorem set {name : Text} (hname : ¬ G name) (value : Text) (s : State) :
    Quiet G s (s.set name value) where
  vars _ hn := State.vars_set_of_ne (ne_of_not hn hname) value s
  policies := rfl
  targets := rfl
  props := rfl

theorem unset {name : Text} (hname : ¬ G name) (s : State) : Quiet G s (s.unset name) where
  vars _ hn := State.vars_unset_of_ne (ne_of_not hn hname) s
  policies := rfl
  targets := rfl
  props := rfl

/-- A loop of quiet rounds. -/
theorem foldl {α : Type*} {step : State → α → State} {as : List α}
    (hstep : ∀ a ∈ as, ∀ s, Quiet G s (step s a)) (s : State) : Quiet G s (as.foldl step s) := by
  induction as generalizing s with
  | nil => exact refl s
  | cons a as ih =>
      exact (hstep a (by simp) s).trans (ih (fun b hb => hstep b (by simp [hb])) _)

theorem mono {H : Text → Prop} (hGH : ∀ n, H n → G n) (h : Quiet G s s') : Quiet H s s' :=
  ⟨fun n hn => h.vars n (hGH n hn), h.policies, h.targets, h.props⟩

end Quiet

/-! ## Scripts that end with an error -/

/-- A script ends without an error exactly when `p` holds, and then in a state
with `post`. -/
structure Yields (x : Except Text State) (p : Prop) (post : State → Prop) : Prop where
  ok : p → ∃ s, x = .ok s ∧ post s
  error : ¬ p → ∃ e, x = .error e

namespace Yields

variable {x : Except Text State} {p q : Prop} {post post' : State → Prop}

theorem iff (h : Yields x p post) : (∃ s, x = .ok s ∧ post s) ↔ p := by
  refine ⟨fun ⟨s, hs, _⟩ => ?_, h.ok⟩
  by_contra hp
  obtain ⟨e, he⟩ := h.error hp
  rw [hs] at he
  cases he

theorem of_ok {s : State} (h : post s) : Yields (.ok s) True post :=
  ⟨fun _ => ⟨s, rfl, h⟩, fun hp => absurd trivial hp⟩

theorem mono (h : Yields x p post) (hpost : ∀ s, post s → post' s) : Yields x p post' where
  ok hp := by
    obtain ⟨s, hs, hpost'⟩ := h.ok hp
    exact ⟨s, hs, hpost s hpost'⟩
  error := h.error

theorem congr (h : Yields x p post) (hpq : p ↔ q) : Yields x q post :=
  ⟨fun hq => h.ok (hpq.mpr hq), fun hq => h.error (mt hpq.mp hq)⟩

/-- One script behind another. -/
theorem bind (h : Yields x p post) {f : State → Except Text State}
    (hf : ∀ s, post s → Yields (f s) q post') : Yields (x >>= f) (p ∧ q) post' := by
  by_cases hp : p
  · obtain ⟨s, rfl, hs⟩ := h.ok hp
    exact (hf s hs).congr (iff_and_self.mpr fun _ => hp)
  · obtain ⟨e, rfl⟩ := h.error hp
    exact ⟨fun hpq => absurd hpq.1 hp, fun _ => ⟨e, rfl⟩⟩

/-- A step that cannot fail behind a script. -/
theorem map (h : Yields x p post) {f : State → State} (hf : ∀ s, post s → post' (f s)) :
    Yields (x >>= fun s => pure (f s)) p post' :=
  (h.bind fun s hs => of_ok (hf s hs)).congr (and_iff_left trivial)

end Yields

end CMake
