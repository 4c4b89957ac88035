import ThirdpartyMsvc.Nexus.CString

/-!
# The attribute name of NeXusFile.cpp

NeXusFile.cpp.patch replaces an array on the stack, into which getAttr copied
the name of the attribute with strcpy, by a vector of the characters of the
name. Both are handed to NXgetattrainfo and NXgetattra as strings of C. The
vector has no room for a terminator, so it holds a string only when the name
itself contains one.
-/

namespace Nexus

open CString

/-- The characters behind the pointer of name.c_str(). -/
def cStr (name : List UInt8) : List UInt8 := name ++ [0]

/-- The replaced code: `char attr_name[name.size()+1]` holds whatever the stack
holds, and then the copy of the name. -/
def arrayName (name : List UInt8) (stack : Vector UInt8 (name.length + 1)) :
    Option (List UInt8) :=
  strcpy stack.toList (cStr name)

/-- The patched code: `std::vector<char> attr_name(name.begin(), name.end())`. -/
def vectorName (name : List UInt8) : List UInt8 := name

/-- What NXgetattrainfo reports: whether its status is NX_OK, the rank, and
whether the type is NX_CHAR. -/
structure AttrInfo where
  ok : Bool
  rank : ℤ
  isChar : Bool
deriving DecidableEq, Repr

/-- The strings that NXgetattrainfo and NXgetattra read from the buffer, in the
order of the calls. An empty name is refused before the first call, and a
failure or another type before the second one. -/
def getAttrReads (name buffer : List UInt8) (info : AttrInfo) : List (Option (List UInt8)) :=
  if name = [] then []
  else cString buffer ::
    if !info.ok then []
    else if info.rank ≠ 2 ∨ info.isChar = false then []
    else [cString buffer]

/-- Whatever stood on the stack, and whatever the first call reports, the
patched code passes the string that the replaced code passed at each call: the
characters of the name before its first NUL or end. -/
def PreservesName (name : List UInt8) : Prop :=
  ∀ (stack : Vector UInt8 (name.length + 1)) (info : AttrInfo),
    (∃ buffer, arrayName name stack = some buffer ∧
      getAttrReads name (vectorName name) info = getAttrReads name buffer info) ∧
    ∀ read ∈ getAttrReads name (vectorName name) info,
      read = some (name.takeWhile (· ≠ 0))

/-- The replaced code passes the name up to its first NUL or end. -/
theorem exists_arrayName (name : List UInt8) (stack : Vector UInt8 (name.length + 1)) :
    ∃ buffer, arrayName name stack = some buffer ∧
      cString buffer = some (name.takeWhile (· ≠ 0)) := by
  have hlength := (name.takeWhile_prefix (· ≠ 0)).length_le
  have hfits : (name.takeWhile (· ≠ 0)).length < stack.toList.length := by
    rw [Vector.length_toList]
    omega
  obtain ⟨buffer, hcopy, hread⟩ := exists_strcpy (cString_append_nul name []) hfits
  refine ⟨buffer, hcopy, ?_⟩
  rw [hread, List.takeWhile_takeWhile]
  simp

theorem mem_getAttrReads {name buffer : List UInt8} {info : AttrInfo}
    {read : Option (List UInt8)} (h : read ∈ getAttrReads name buffer info) :
    read = cString buffer := by
  rw [getAttrReads] at h
  split_ifs at h
  · cases h
  · exact List.mem_singleton.mp h
  · exact List.mem_singleton.mp h
  · simpa using h

/-- The reads depend on the buffer through its string alone. -/
theorem getAttrReads_congr {name buffer buffer' : List UInt8} (info : AttrInfo)
    (h : cString buffer = cString buffer') :
    getAttrReads name buffer info = getAttrReads name buffer' info := by
  rw [getAttrReads, getAttrReads, h]

/-- The patch preserves a nonempty name exactly when the name contains a NUL. -/
theorem preservesName_iff (name : List UInt8) (hne : name ≠ []) :
    PreservesName name ↔ 0 ∈ name := by
  constructor
  · intro h
    have hread : cString name ∈ getAttrReads name (vectorName name) ⟨false, 0, false⟩ := by
      rw [getAttrReads, if_neg hne]
      exact List.mem_cons_self
    by_contra hnul
    have hsome := (h (Vector.replicate _ 0) ⟨false, 0, false⟩).2 _ hread
    rw [cString_eq_none_iff.mpr hnul] at hsome
    cases hsome
  · intro hnul stack info
    have hvector : cString (vectorName name) = some (name.takeWhile (· ≠ 0)) :=
      cString_of_mem hnul
    obtain ⟨buffer, hcopy, hread⟩ := exists_arrayName name stack
    refine ⟨⟨buffer, hcopy, getAttrReads_congr info (hvector.trans hread.symm)⟩, ?_⟩
    intro read hmem
    rw [mem_getAttrReads hmem, hvector]

/-- A name that is cut at its NUL. -/
theorem preservesName_iff_nul : PreservesName [117, 0, 110] ↔ 0 ∈ ([117, 0, 110] : List UInt8) :=
  preservesName_iff [117, 0, 110] (by decide)

/-- The name `units` leaves the vector before a NUL is found. -/
theorem not_preservesName_units :
    ([117, 110, 105, 116, 115] : List UInt8) ≠ [] ∧
      ¬ PreservesName [117, 110, 105, 116, 115] := by
  refine ⟨by decide, ?_⟩
  intro h
  have hread := (h (Vector.replicate _ 0) ⟨true, 2, true⟩).2 none (by decide)
  cases hread

end Nexus
