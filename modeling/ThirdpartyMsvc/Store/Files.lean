import Mathlib.Data.List.Infix
import Mathlib.Logic.Function.Basic

/-!
# Files and the commands on them

A directory tree is a map from paths to the contents of the files that exist.
The commands of a batch file move, delete and overwrite files; none of them says
what happens to a file that it does not name.
-/

namespace Store

/-- The contents of the files that exist. -/
abbrev Files (κ ν : Type*) := κ → Option ν

section commands

variable {κ ν : Type*} [DecidableEq κ]

/-- Overwrites a file, or creates it. -/
def write (path : κ) (contents : ν) (fs : Files κ ν) : Files κ ν :=
  Function.update fs path (some contents)

/-- `del`: a missing file is no error that anyone looks at. -/
def del (path : κ) (fs : Files κ ν) : Files κ ν := Function.update fs path none

/-- `move /Y`: overwrites the target; without a source nothing happens. -/
def move (source target : κ) (fs : Files κ ν) : Files κ ν :=
  match fs source with
  | none => fs
  | some contents => write target contents (del source fs)

/-- `program > target`: the target is truncated to `empty` before the program
starts, and holds what the program has printed when it ends. -/
def redirect (empty : ν) (program : Files κ ν → ν) (target : κ) (fs : Files κ ν) : Files κ ν :=
  write target (program (write target empty fs)) fs

@[simp] theorem write_self (path : κ) (contents : ν) (fs : Files κ ν) :
    write path contents fs path = some contents := Function.update_self _ _ _

@[simp] theorem write_of_ne {path other : κ} (h : other ≠ path) (contents : ν)
    (fs : Files κ ν) : write path contents fs other = fs other := Function.update_of_ne h _ _

@[simp] theorem del_self (path : κ) (fs : Files κ ν) : del path fs path = none :=
  Function.update_self _ _ _

@[simp] theorem del_of_ne {path other : κ} (h : other ≠ path) (fs : Files κ ν) :
    del path fs other = fs other := Function.update_of_ne h _ _

/-- The target of a move has the contents of the source. -/
theorem move_target {source target : κ} {fs : Files κ ν} {contents : ν}
    (h : fs source = some contents) : move source target fs target = some contents := by
  rw [move, h]
  exact write_self _ _ _

theorem move_of_ne {source target other : κ} (hs : other ≠ source) (ht : other ≠ target)
    (fs : Files κ ν) : move source target fs other = fs other := by
  unfold move
  cases fs source with
  | none => rfl
  | some contents => exact (write_of_ne ht _ _).trans (del_of_ne hs _)

end commands

/-! ## Directories

A path is the list of its components, so the files below a directory are those
whose paths begin with it. -/

section directories

/-- The paths of the files of a directory. -/
theorem prefix_and_length_iff {κ : Type*} {dir other : List κ} {n : κ} :
    dir <+: other ++ [n] ∧ (other ++ [n]).length = dir.length + 1 ↔ dir = other := by
  constructor
  · rintro ⟨hdir, hlength⟩
    rw [List.length_append, List.length_singleton, Nat.add_right_cancel_iff] at hlength
    have hother : other <+: other ++ [n] := List.prefix_append _ _
    exact (List.prefix_of_prefix_length_le hdir hother hlength.ge).eq_of_length hlength.symm
  · rintro rfl
    exact ⟨List.prefix_append _ _, by simp⟩

variable {κ ν : Type*} [DecidableEq κ]

/-- `move /Y source\* target\`: the files of a directory, but not its
subdirectories, to a directory that exists. -/
def moveAll (source target : List κ) (fs : Files (List κ) ν) : Files (List κ) ν := fun p =>
  if source <+: p ∧ p.length = source.length + 1 then none
  else if target <+: p ∧ p.length = target.length + 1 then
    (fs (source ++ p.drop target.length)).or (fs p)
  else fs p

/-- `rmdir /S /Q`. -/
def rmdir (dir : List κ) (fs : Files (List κ) ν) : Files (List κ) ν := fun p =>
  if dir <+: p then none else fs p

theorem rmdir_of_prefix {dir p : List κ} (h : dir <+: p) (fs : Files (List κ) ν) :
    rmdir dir fs p = none := if_pos h

theorem rmdir_of_not_prefix {dir p : List κ} (h : ¬ dir <+: p) (fs : Files (List κ) ν) :
    rmdir dir fs p = fs p := if_neg h

/-- A file of the target is the one that was moved there, if there was one. -/
theorem moveAll_target {source target : List κ} (h : source ≠ target) (n : κ)
    (fs : Files (List κ) ν) : moveAll source target fs (target ++ [n]) =
      (fs (source ++ [n])).or (fs (target ++ [n])) := by
  rw [moveAll, if_neg (mt prefix_and_length_iff.mp h), if_pos (prefix_and_length_iff.mpr rfl),
    List.drop_left]

theorem moveAll_of_ne {source target dir : List κ} (hs : source ≠ dir) (ht : target ≠ dir) (n : κ)
    (fs : Files (List κ) ν) : moveAll source target fs (dir ++ [n]) = fs (dir ++ [n]) := by
  rw [moveAll, if_neg (mt prefix_and_length_iff.mp hs), if_neg (mt prefix_and_length_iff.mp ht)]

end directories

end Store
