import Mathlib.Data.List.TakeWhile
import Mathlib.Tactic.Common

/-!
# Strings in buffers of bytes

A function of the C library reads a buffer up to its first NUL. When there is
none, the scan leaves the buffer and the result is not determined by it.
-/

namespace CString

/-- The string at the beginning of a buffer, if it ends inside the buffer. -/
def cString : List UInt8 → Option (List UInt8)
  | [] => none
  | b :: t => if b = 0 then some [] else (cString t).map (b :: ·)

/-- The buffer `dst` behind strcpy from the buffer `src`. There is no result
when the string leaves one of the two buffers. -/
def strcpy (dst src : List UInt8) : Option (List UInt8) :=
  (cString src).bind fun s =>
    if s.length < dst.length then some (s ++ 0 :: dst.drop (s.length + 1)) else none

/-- In front of a NUL stands the string up to the first one. -/
theorem cString_append_nul (s t : List UInt8) :
    cString (s ++ 0 :: t) = some (s.takeWhile (· ≠ 0)) := by
  induction s with
  | nil => rfl
  | cons b s ih =>
      rw [List.cons_append, cString, ih]
      by_cases hb : b = 0
      · simp [hb]
      · simp [hb]

theorem cString_eq_none_iff {buf : List UInt8} : cString buf = none ↔ 0 ∉ buf := by
  induction buf with
  | nil => simp [cString]
  | cons b t ih =>
      rw [cString]
      by_cases hb : b = 0
      · simp [hb]
      · simp [hb, Ne.symm hb, ih]

/-- The string of a buffer with a NUL is the part before the first one. -/
theorem cString_of_mem {buf : List UInt8} (h : 0 ∈ buf) :
    cString buf = some (buf.takeWhile (· ≠ 0)) := by
  obtain ⟨s, t, rfl⟩ := List.append_of_mem h
  rw [cString_append_nul, List.takeWhile_append]
  split
  case isTrue hs =>
    have hself : s.takeWhile (· ≠ 0) = s := (List.takeWhile_prefix _).eq_of_length hs
    simpa using hself
  case isFalse => rfl

/-- A string that fits into the buffer is copied, and read back from it. -/
theorem exists_strcpy {dst src s : List UInt8} (hs : cString src = some s)
    (hfits : s.length < dst.length) :
    ∃ buf, strcpy dst src = some buf ∧ cString buf = some (s.takeWhile (· ≠ 0)) := by
  refine ⟨s ++ 0 :: dst.drop (s.length + 1), ?_, cString_append_nul _ _⟩
  rw [strcpy, hs, Option.bind_some, if_pos hfits]

end CString
