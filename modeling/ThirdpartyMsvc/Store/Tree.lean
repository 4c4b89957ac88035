import Mathlib.Data.List.Basic
import Mathlib.Tactic.Common

/-!
# Directory trees in listing order

A command that goes through a directory meets its files in an order, so a tree
is here the list of its files. Writing a file that exists leaves it at its
place; a new file comes last. The part of a tree that some commands work on is
again a tree, and `restrict_write` says that they do there what they do in the
whole.
-/

namespace Store

/-- The files of a tree, with their contents, in the order of the listing. -/
abbrev Tree (κ ν : Type*) := List (κ × ν)

namespace Tree

variable {κ ν : Type*}

/-- The names of the files. -/
def names (t : Tree κ ν) : List κ := t.map Prod.fst

/-- The part of a tree whose names satisfy `W`. -/
def restrict (W : κ → Bool) (t : Tree κ ν) : Tree κ ν := t.filter fun entry => W entry.1

theorem names_restrict (W : κ → Bool) (t : Tree κ ν) :
    names (restrict W t) = (names t).filter W := by
  rw [names, names, restrict, List.filter_map]
  rfl

theorem restrict_cons_of_pos {W : κ → Bool} {name : κ} (h : W name = true) (contents : ν)
    (t : Tree κ ν) : restrict W ((name, contents) :: t) = (name, contents) :: restrict W t :=
  List.filter_cons_of_pos h

theorem restrict_cons_of_neg {W : κ → Bool} {name : κ} (h : W name = false) (contents : ν)
    (t : Tree κ ν) : restrict W ((name, contents) :: t) = restrict W t :=
  List.filter_cons_of_neg (by rw [h]; exact Bool.false_ne_true)

variable [DecidableEq κ]

/-- The contents of a file. -/
def read : Tree κ ν → κ → Option ν
  | [], _ => none
  | (name, contents) :: t, path => if name = path then some contents else read t path

/-- Overwrites a file, or creates it. -/
def write (path : κ) (new : ν) : Tree κ ν → Tree κ ν
  | [] => [(path, new)]
  | (name, contents) :: t =>
      if name = path then (path, new) :: t else (name, contents) :: write path new t

/-- Whether a file exists. -/
def present (t : Tree κ ν) (path : κ) : Bool := (read t path).isSome

theorem read_write_self (path : κ) (new : ν) (t : Tree κ ν) :
    read (write path new t) path = some new := by
  induction t with
  | nil => exact if_pos rfl
  | cons entry t ih =>
      by_cases h : entry.1 = path
      · rw [write, if_pos h]
        exact if_pos rfl
      · rw [write, if_neg h, read, if_neg h]
        exact ih

theorem read_write_of_ne {path other : κ} (hne : other ≠ path) (new : ν) (t : Tree κ ν) :
    read (write path new t) other = read t other := by
  induction t with
  | nil => exact if_neg hne.symm
  | cons entry t ih =>
      by_cases h : entry.1 = path
      · rw [write, if_pos h, read, if_neg hne.symm, read, if_neg (h ▸ hne.symm)]
      · rw [write, if_neg h, read, read, ih]

theorem read_restrict {W : κ → Bool} {path : κ} (hW : W path = true) (t : Tree κ ν) :
    read (restrict W t) path = read t path := by
  induction t with
  | nil => rfl
  | cons entry t ih =>
      obtain ⟨name, contents⟩ := entry
      by_cases h : name = path
      · rw [h, restrict_cons_of_pos hW, read, if_pos rfl, read, if_pos rfl]
      · rw [read, if_neg h, ← ih]
        cases hname : W name with
        | true => rw [restrict_cons_of_pos hname, read, if_neg h]
        | false => rw [restrict_cons_of_neg hname]

/-- What is written outside of a part is not seen there. -/
theorem restrict_write_of_not {W : κ → Bool} {path : κ} (hW : W path = false) (new : ν)
    (t : Tree κ ν) : restrict W (write path new t) = restrict W t := by
  induction t with
  | nil => exact restrict_cons_of_neg hW new []
  | cons entry t ih =>
      obtain ⟨name, contents⟩ := entry
      by_cases h : name = path
      · rw [write, if_pos h, h, restrict_cons_of_neg hW, restrict_cons_of_neg hW]
      · rw [write, if_neg h]
        cases hname : W name with
        | true => rw [restrict_cons_of_pos hname, restrict_cons_of_pos hname, ih]
        | false => rw [restrict_cons_of_neg hname, restrict_cons_of_neg hname, ih]

/-- What is written inside of a part is written there alike. -/
theorem restrict_write {W : κ → Bool} {path : κ} (hW : W path = true) (new : ν)
    (t : Tree κ ν) : restrict W (write path new t) = write path new (restrict W t) := by
  induction t with
  | nil => exact restrict_cons_of_pos hW new []
  | cons entry t ih =>
      obtain ⟨name, contents⟩ := entry
      by_cases h : name = path
      · rw [write, if_pos h, h, restrict_cons_of_pos hW, restrict_cons_of_pos hW, write, if_pos rfl]
      · rw [write, if_neg h]
        cases hname : W name with
        | true =>
            rw [restrict_cons_of_pos hname, restrict_cons_of_pos hname, ih, write, if_neg h]
        | false => rw [restrict_cons_of_neg hname, restrict_cons_of_neg hname, ih]

theorem names_write {path : κ} {t : Tree κ ν} (h : present t path = true) (new : ν) :
    names (write path new t) = names t := by
  induction t with
  | nil => exact absurd h Bool.false_ne_true
  | cons entry t ih =>
      obtain ⟨name, contents⟩ := entry
      by_cases hname : name = path
      · rw [write, if_pos hname, ← hname]
        rfl
      · rw [present, read, if_neg hname] at h
        rw [write, if_neg hname]
        exact congrArg (name :: ·) (ih h)

theorem present_write (path : κ) (new : ν) {t : Tree κ ν} {other : κ}
    (h : present t other = true) : present (write path new t) other = true := by
  by_cases hne : other = path
  · rw [hne, present, read_write_self]
    rfl
  · rw [present, read_write_of_ne hne]
    exact h

theorem mem_names_of_read {t : Tree κ ν} {path : κ} {contents : ν}
    (h : read t path = some contents) : path ∈ names t := by
  induction t with
  | nil => exact absurd h.symm (Option.some_ne_none _)
  | cons entry t ih =>
      by_cases hname : entry.1 = path
      · exact hname ▸ List.mem_cons_self
      · rw [read, if_neg hname] at h
        exact List.mem_cons_of_mem _ (ih h)

end Tree

end Store
