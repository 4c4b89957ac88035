import ThirdpartyMsvc.Shell.Guarded
import ThirdpartyMsvc.Text.Basic

/-!
# The scripts that fetch a source package

download-and-extract.cmd downloads an archive unless a file of that name exists,
and unpacks it unless the extracted directory exists. The names of the directory
and of the tar file in between are the path of the archive with a part of its
text erased.
-/

namespace Fetch

open Shell

/-! ## Substrings of variables -/

/-- `%t:~-n%`. -/
def lastChars (n : ℕ) (t : Text) : Text := t.drop (t.length - n)

/-- `w` begins `t`, whatever the case of the letters. -/
def beginsWith (w t : Text) : Bool := (w.map Char.toLower).isPrefixOf (t.map Char.toLower)

/-- Erases `w` from left to right; the first argument counts the characters that
are left of an occurrence. -/
def eraseFrom (w : Text) : ℕ → Text → Text
  | _, [] => []
  | n + 1, _ :: t => eraseFrom w n t
  | 0, c :: t =>
      if beginsWith w (c :: t) then eraseFrom w (w.length - 1) t else c :: eraseFrom w 0 t

/-- `%t:w=%`. -/
def erase (w t : Text) : Text := eraseFrom w 0 t

/-- Text in front of the first occurrence is kept. -/
theorem eraseFrom_append {w x t : Text}
    (h : ∀ u v, x = u ++ v → v ≠ [] → beginsWith w (v ++ t) = false) :
    eraseFrom w 0 (x ++ t) = x ++ eraseFrom w 0 t := by
  induction x with
  | nil => rfl
  | cons c x ih =>
      have hc : beginsWith w (c :: (x ++ t)) = false := h [] (c :: x) rfl (by simp)
      rw [List.cons_append, eraseFrom, hc, if_neg Bool.false_ne_true, ih]
      · rfl
      · rintro u v rfl hv
        exact h (c :: u) v rfl hv

theorem eraseFrom_length (w x t : Text) : eraseFrom w x.length (x ++ t) = eraseFrom w 0 t := by
  induction x with
  | nil => rfl
  | cons c x ih => exact ih

theorem beginsWith_append (w t : Text) : beginsWith w (w ++ t) = true := by
  rw [beginsWith, List.map_append, List.isPrefixOf_iff_prefix]
  exact List.prefix_append _ _

/-- A text that occurs at the end only is cut off there. -/
theorem erase_append {w x : Text} (hw : w ≠ [])
    (h : ∀ u v, x = u ++ v → v ≠ [] → beginsWith w (v ++ w) = false) : erase w (x ++ w) = x := by
  obtain ⟨c, w, rfl⟩ := List.exists_cons_of_ne_nil hw
  have hbegins := beginsWith_append (c :: w) []
  rw [List.append_nil] at hbegins
  have hskip := eraseFrom_length (c :: w) w []
  rw [List.append_nil] at hskip
  rw [erase, eraseFrom_append h, eraseFrom, hbegins, if_pos rfl, List.length_cons,
    Nat.add_sub_cancel, hskip, eraseFrom, List.append_nil]

theorem lastChars_append {n : ℕ} (x : Text) {w : Text} (hw : w.length = n) :
    lastChars n (x ++ w) = w := by
  rw [lastChars, List.length_append, hw, Nat.add_sub_cancel, List.drop_left]

/-! ## The scripts -/

/-- A call of a tool. -/
inductive Call where
  | curl (output : Text)
  | sevenZip (archive : Text)
deriving DecidableEq, Repr

/-- download-file.cmd. -/
def downloadFile (output : Text) : Block Text Call := ⟨output, [.curl output]⟩

/-- extract-zip-file.cmd. -/
def extractZipFile (zipfile : Text) : Block Text Call :=
  ⟨erase ".zip".toList zipfile, [.sevenZip zipfile]⟩

/-- extract-tarball.cmd. Other archives end it with an error. -/
def extractTarball (tarball : Text) : List (Block Text Call) :=
  if lastChars 7 tarball = ".tar.gz".toList then
    [⟨erase ".tar.gz".toList tarball, [.sevenZip tarball, .sevenZip (erase ".gz".toList tarball)]⟩]
  else if lastChars 8 tarball = ".tar.bz2".toList then
    [⟨erase ".tar.bz2".toList tarball,
      [.sevenZip tarball, .sevenZip (erase ".bz2".toList tarball)]⟩]
  else []

/-- download-and-extract.cmd. -/
def downloadAndExtract (outputPath : Text) : List (Block Text Call) :=
  downloadFile outputPath ::
    if lastChars 3 outputPath = "zip".toList then [extractZipFile outputPath]
    else extractTarball outputPath

end Fetch
