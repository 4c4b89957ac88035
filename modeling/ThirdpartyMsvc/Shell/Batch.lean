import ThirdpartyMsvc.Shell.Cmd
import Mathlib.Logic.Function.Basic

/-!
# Batch files that change directories

Every drive has a current directory of its own, and one drive is the current
one. A path without a drive is read on the current drive, and cd without /D
moves the directory of the drive that its path names, but not the current
drive. setlocal keeps the variables for endlocal, which brings them back.

The programs that a batch file starts are recorded with the directory in which
they run. Operators and percent signs in the values of variables are not
interpreted again.
-/

namespace Shell

/-! ## Arguments -/

/-- The words of a command line. Delimiters inside quotation marks do not
separate them. The first arguments are whether a quotation is open, and the word
that is being read, last character first. -/
def wordsFrom : Bool → Text → Text → List Text
  | _, acc, [] => if acc = [] then [] else [acc.reverse]
  | quoted, acc, c :: t =>
      if !quoted && isDelim c then
        (if acc = [] then [] else [acc.reverse]) ++ wordsFrom false [] t
      else wordsFrom (if c = '\x22' then !quoted else quoted) (c :: acc) t

def words (t : Text) : List Text := wordsFrom false [] t

/-- The parameter `%n`. -/
def param (args : List Text) (n : ℕ) : Text := args.getD (n - 1) []

/-- The text `%m %(m+1) … %9`. -/
def paramsFrom (args : List Text) (m : ℕ) : Text :=
  [' '].intercalate ((List.range' m (10 - m)).map (param args))

def quoted (t : Text) : Text := '\x22' :: (t ++ ['\x22'])

/-- A character that neither delimits nor quotes is part of its word. -/
theorem wordsFrom_append (w acc : Text) (hw : ∀ c ∈ w, isDelim c = false ∧ c ≠ '\x22') (t : Text) :
    wordsFrom false acc (w ++ t) = wordsFrom false (w.reverse ++ acc) t := by
  induction w generalizing acc with
  | nil => rfl
  | cons c w ih =>
      obtain ⟨hdelim, hquote⟩ := hw c (by simp)
      rw [List.cons_append, wordsFrom, hdelim, if_neg (by simp), if_neg hquote,
        ih _ fun d hd => hw d (by simp [hd])]
      simp

theorem words_append_space (w : Text) (hne : w ≠ [])
    (hw : ∀ c ∈ w, isDelim c = false ∧ c ≠ '\x22') (t : Text) :
    words (w ++ ' ' :: t) = w :: words t := by
  have hspace : isDelim ' ' = true := rfl
  rw [words, wordsFrom_append w [] hw, wordsFrom, hspace]
  simp [hne, words]

theorem param_cons_one (w : Text) (args : List Text) : param (w :: args) 1 = w := rfl

/-! ## Components of paths -/

theorem componentsFrom_append {n : Text} (hn : '\\' ∉ n) (acc t : Text) :
    componentsFrom acc (n ++ t) = componentsFrom (n.reverse ++ acc) t := by
  induction n generalizing acc with
  | nil => rfl
  | cons c n ih =>
      have hc : c ≠ '\\' := fun h => hn (by simp [h])
      rw [List.cons_append, componentsFrom, if_neg hc, ih fun h => hn (List.mem_cons_of_mem _ h)]
      simp

theorem components_slash (t : Text) : components ('\\' :: t) = components t := by
  rw [components, componentsFrom, if_pos rfl, if_pos rfl]
  rfl

/-- The components in front of another separator, or of the end. -/
theorem components_flatMap {ns : List Text} (hns : ∀ n ∈ ns, n ≠ [] ∧ '\\' ∉ n) {t : Text}
    (ht : ∀ c ∈ t.head?, c = '\\') :
    components (ns.flatMap ('\\' :: ·) ++ t) = ns ++ components t := by
  induction ns with
  | nil => rfl
  | cons n ns ih =>
      obtain ⟨hne, hslash⟩ := hns n (by simp)
      have hrest := ih fun m hm => hns m (by simp [hm])
      rw [List.flatMap_cons, List.cons_append, List.cons_append, components_slash,
        List.append_assoc, components, componentsFrom_append hslash, List.append_nil,
        List.cons_append, ← hrest]
      -- behind the name the text is empty or goes on with a separator
      cases hu : ns.flatMap ('\\' :: ·) ++ t with
      | nil => simp [componentsFrom, components, hne]
      | cons c u =>
          obtain rfl : c = '\\' := by
            cases ns with
            | nil => exact ht c (by simpa using congrArg List.head? hu)
            | cons m ns => simpa using (congrArg List.head? hu).symm
          rw [components_slash, componentsFrom, if_pos rfl, if_neg (by simpa using hne)]
          simp [components]

/-- The last component is dropped, up to the separator in front of it. -/
theorem rdropWhile_slash (u : Text) {n : Text} (hn : '\\' ∉ n) :
    (u ++ '\\' :: n).rdropWhile (· ≠ '\\') = u ++ ['\\'] := by
  induction n using List.reverseRecOn with
  | nil => exact List.rdropWhile_concat_neg _ _ _ (by simp)
  | append_singleton n c ih =>
      have hc : c ≠ '\\' := fun h => hn (by simp [h])
      have happend : u ++ '\\' :: (n ++ [c]) = (u ++ '\\' :: n) ++ [c] := by simp
      rw [happend, List.rdropWhile_concat_pos _ _ _ (by simpa using hc),
        ih fun h => hn (List.mem_append_left _ h)]

/-! ## Directories -/

/-- A directory: its drive, in upper case, and the components of its path. -/
structure Location where
  drive : Char
  path : List Text
deriving DecidableEq, Repr

/-- The drive that a path names, and the rest of the path. -/
def splitDrive : Text → Option Char × Text
  | d :: ':' :: p => (some d.toUpper, p)
  | p => (none, p)

theorem splitDrive_of_ne (d : Char) {c : Char} (hc : c ≠ ':') (p : Text) :
    splitDrive (d :: c :: p) = (none, d :: c :: p) := by
  rw [splitDrive]
  rintro _ _ ⟨-, rfl, -⟩
  exact hc rfl

/-- The letter of the current drive, the current directory of every drive, by its
upper-case letter, and the directories that exist. -/
structure Places where
  drive : Char
  cwd : Char → List Text
  dirs : Location → Bool

namespace Places

def current (P : Places) : Location := ⟨P.drive.toUpper, P.cwd P.drive.toUpper⟩

/-- The directory that a path without the components `.` and `..` denotes. -/
def resolve (P : Places) (path : Text) : Location :=
  let drive := (splitDrive path).1.getD P.drive.toUpper
  let rest := (splitDrive path).2
  if rest.head? = some '\\' then ⟨drive, components rest⟩
  else ⟨drive, P.cwd drive ++ components rest⟩

/-- `exist`, for directories. -/
def existsDir (P : Places) (path : Text) : Bool := P.dirs (P.resolve path)

/-- mkdir makes the directories on the way as well. -/
def mkdir (P : Places) (path : Text) : Places :=
  { P with dirs := fun l => P.dirs l || (l.drive == (P.resolve path).drive &&
      l.path.isPrefixOf (P.resolve path).path) }

/-- cd without /D. It does nothing when the directory does not exist. -/
def cd (P : Places) (path : Text) : Places :=
  if P.existsDir path then
    { P with cwd := Function.update P.cwd (P.resolve path).drive (P.resolve path).path }
  else P

/-- `%~p`: the path without its drive, up to and with its last separator. -/
def pathPart (P : Places) (path : Text) : Text :=
  let drive := (splitDrive path).1.getD P.drive.toUpper
  let rest := (splitDrive path).2
  if path = [] then []
  else if rest.head? = some '\\' then rest.rdropWhile (· ≠ '\\')
  else '\\' :: ((P.cwd drive).flatMap (· ++ ['\\']) ++ rest.rdropWhile (· ≠ '\\'))

theorem resolve_congr {P Q : Places} (hdrive : P.drive = Q.drive) (hcwd : P.cwd = Q.cwd)
    (path : Text) : P.resolve path = Q.resolve path := by
  rw [resolve, resolve, hdrive, hcwd]

/-- A path without a drive that begins with a separator. -/
theorem resolve_rooted (P : Places) {ns : List Text} (hne : ns ≠ [])
    (hns : ∀ n ∈ ns, n ≠ [] ∧ '\\' ∉ n ∧ ':' ∉ n) :
    P.resolve (ns.flatMap ('\\' :: ·)) = ⟨P.drive.toUpper, ns⟩ := by
  have hcomponents : components (ns.flatMap ('\\' :: ·)) = ns := by
    have h := components_flatMap (t := []) (fun n hn => ⟨(hns n hn).1, (hns n hn).2.1⟩) (by simp)
    rw [List.append_nil] at h
    rw [h]
    exact List.append_nil _
  -- behind the first separator stands a name, so the text has no drive
  obtain ⟨c, t, ht, hc⟩ : ∃ c t, ns.flatMap ('\\' :: ·) = '\\' :: c :: t ∧ c ≠ ':' := by
    obtain ⟨n, ms, rfl⟩ := List.exists_cons_of_ne_nil hne
    obtain ⟨hnil, -, hcolon⟩ := hns n (by simp)
    obtain ⟨c, u, rfl⟩ := List.exists_cons_of_ne_nil hnil
    exact ⟨c, u ++ ms.flatMap ('\\' :: ·), by simp, fun h => hcolon (by simp [h])⟩
  rw [resolve, ht, splitDrive_of_ne _ hc, ← ht, hcomponents]
  simp [ht]

/-- A path that names its drive and begins with a separator behind it. -/
theorem resolve_drive (P : Places) (d : Char) {p : Text} (hp : p.head? = some '\\') :
    P.resolve (d :: ':' :: p) = ⟨d.toUpper, components p⟩ := by
  rw [resolve]
  simp only [splitDrive, Option.getD_some]
  rw [if_pos hp]

@[simp] theorem drive_cd (P : Places) (path : Text) : (P.cd path).drive = P.drive := by
  rw [cd]
  split <;> rfl

@[simp] theorem dirs_cd (P : Places) (path : Text) : (P.cd path).dirs = P.dirs := by
  rw [cd]
  split <;> rfl

/-- Behind cd to an existing directory of the current drive, it is the current
directory. -/
theorem current_cd {P : Places} {path : Text} (h : P.existsDir path = true)
    (hdrive : (P.resolve path).drive = P.drive.toUpper) : (P.cd path).current = P.resolve path := by
  rw [cd, if_pos h, current, ← hdrive]
  simp

end Places

/-! ## The state of a batch file -/

/-- A program that was started, the text behind it, and the directory in which
it runs. -/
structure Started where
  program : String
  tail : Text
  dir : Location
deriving DecidableEq, Repr

/-- What setlocal keeps. -/
structure Saved where
  vars : String → Text
  drive : Char
  cwd : Char → List Text

structure State where
  places : Places
  vars : String → Text
  saved : List Saved
  started : List Started

namespace State

def set (name : String) (value : Text) (s : State) : State :=
  { s with vars := Function.update s.vars name value }

def setlocal (s : State) : State :=
  { s with saved := ⟨s.vars, s.places.drive, s.places.cwd⟩ :: s.saved }

/-- endlocal brings the variables back. Whether it brings the current
directories back as well is left open by `dirsToo`. -/
def endlocal (dirsToo : Bool) (s : State) : State :=
  match s.saved with
  | [] => s
  | k :: saved =>
      { s with
        vars := k.vars
        saved := saved
        places := if dirsToo then { s.places with drive := k.drive, cwd := k.cwd } else s.places }

def cd (path : Text) (s : State) : State := { s with places := s.places.cd path }

/-- `if not exist path mkdir path`. -/
def ensureDir (path : Text) (s : State) : State :=
  if s.places.existsDir path then s else { s with places := s.places.mkdir path }

@[simp] theorem vars_set_self (name : String) (value : Text) (s : State) :
    (s.set name value).vars name = value := Function.update_self ..

theorem vars_set_of_ne {name other : String} (h : other ≠ name) (value : Text) (s : State) :
    (s.set name value).vars other = s.vars other := Function.update_of_ne h ..

@[simp] theorem places_set (name : String) (value : Text) (s : State) :
    (s.set name value).places = s.places := rfl

@[simp] theorem places_setlocal (s : State) : s.setlocal.places = s.places := rfl

@[simp] theorem vars_ensureDir (path : Text) (s : State) : (s.ensureDir path).vars = s.vars := by
  rw [ensureDir]
  split <;> rfl

/-- Behind `ensureDir` the directory exists, and nothing else is different. -/
theorem exists_ensureDir (path : Text) (s : State) :
    ∃ P : Places, s.ensureDir path = { s with places := P } ∧ P.drive = s.places.drive ∧
      P.cwd = s.places.cwd ∧ P.dirs (s.places.resolve path) = true := by
  rw [ensureDir]
  by_cases h : s.places.existsDir path = true
  · rw [if_pos h]
    exact ⟨s.places, rfl, rfl, rfl, h⟩
  · rw [if_neg h]
    refine ⟨s.places.mkdir path, rfl, rfl, rfl, ?_⟩
    simp [Places.mkdir]

/-- Starts a program, which leaves the directories as they are. -/
def start (program : String) (tail : Text) (s : State) : State :=
  { s with started := s.started ++ [⟨program, tail, s.places.current⟩] }

@[simp] theorem started_endlocal (dirsToo : Bool) (s : State) :
    (s.endlocal dirsToo).started = s.started := by
  rw [endlocal]
  cases s.saved <;> rfl

end State

end Shell
