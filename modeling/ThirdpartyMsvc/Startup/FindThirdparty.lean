import ThirdpartyMsvc.Python.NormPath

/-!
# The search path of an interpreter

sitecustomize.py puts seven directories of its bundle before the search path of
each interpreter that is started, unless the bundle looks like a package. A
program that the interpreter starts inherits the search path, and an interpreter
among them puts its own directories before it. `search_starts_iff` says in which
directory a library is found behind any chain of starts.

What the machine knows about its files is a parameter. Directories that are
added for the DLLs of a process are not inherited.
-/

namespace Startup

open Python

/-- The answers of os.path.isfile and os.path.isdir, and the directories that
os.add_dll_directory accepts. -/
structure Machine where
  isFile : Text → Bool
  isDir : Text → Bool
  accepts : Text → Bool
  isDir_of_isFile : ∀ d n, isFile (d ++ '\\' :: n) = true → isDir d = true

/-- The environment variable PATH, and the directories added for DLLs. -/
structure Process where
  path : Option Text
  dllDirs : List Text
deriving DecidableEq, Repr

/-! ## The start of an interpreter -/

def pyExeDir (osFile : Text) : Text := normpath (dirname osFile ++ "\\..".toList)

def extraPaths (pyExeDir : Text) : List Text :=
  let thirdpartyLib := dirname pyExeDir
  let thirdpartyBin := dirname thirdpartyLib ++ "\\bin".toList
  [pyExeDir, thirdpartyBin, thirdpartyBin ++ "\\mingw".toList, thirdpartyLib ++ "\\qt4\\bin".toList,
    thirdpartyLib ++ "\\qt4\\lib".toList, thirdpartyLib ++ "\\qt5\\bin".toList,
    thirdpartyLib ++ "\\qt5\\lib".toList]

/-- The library by which a package is known. -/
def markerDll : Text := "\\zlib.dll".toList

variable (m : Machine)

/-- The script comes to its last line: the layout is the one of a development
build, and none of its directories is refused. -/
def updatesPath (osFile : Text) : Bool :=
  !m.isFile (pyExeDir osFile ++ markerDll) &&
    ((extraPaths (pyExeDir osFile)).filter m.isDir).all m.accepts

/-- find_thirdparty, at the start of an interpreter with the inherited PATH. The
interpreter only reports what the script raises: an OSError where a directory is
refused, and a KeyError in the last line where there is no PATH. -/
def findThirdparty (osFile : Text) (path : Option Text) : Process :=
  if m.isFile (pyExeDir osFile ++ markerDll) then ⟨path, []⟩
  else
    let dirs := (extraPaths (pyExeDir osFile)).filter m.isDir
    if dirs.all m.accepts then
      ⟨path.map fun p => [';'].intercalate (extraPaths (pyExeDir osFile)) ++ ';' :: p, dirs⟩
    else ⟨path, dirs.takeWhile m.accepts⟩

/-- The PATH behind a chain of interpreters, each one started by the one before
it. -/
def starts (osFiles : List Text) (path : Option Text) : Option Text :=
  osFiles.foldl (fun path osFile => (findThirdparty m osFile path).path) path

/-! ## The search for a library -/

/-- A directory holds a library. -/
def holds (name d : Text) : Bool := m.isFile (d ++ '\\' :: name)

/-- The directory that a library is found in by PATH. -/
def search (name path : Text) : Option Text := (path.splitOn ';').find? (holds m name)

variable {m}

theorem splitOn_prepend {dirs : List Text} (hne : dirs ≠ []) (h : ∀ d ∈ dirs, ';' ∉ d)
    (path : Text) :
    ([';'].intercalate dirs ++ ';' :: path).splitOn ';' = dirs ++ path.splitOn ';' := by
  rw [List.splitOn_append_cons_self, List.splitOn_intercalate ';' h hne]

/-- The directories that are put before a path are searched first. -/
theorem search_prepend {dirs : List Text} (hne : dirs ≠ []) (h : ∀ d ∈ dirs, ';' ∉ d)
    (name path : Text) :
    search m name ([';'].intercalate dirs ++ ';' :: path) =
      (dirs.find? (holds m name)).or (search m name path) := by
  rw [search, splitOn_prepend hne h, List.find?_append]
  rfl

theorem notMem_of_mem_splitOn {c : Char} (t : Text) : ∀ d ∈ t.splitOn c, c ∉ d := by
  induction t with
  | nil => simp
  | cons x t ih =>
      rw [List.splitOn_cons_eq_if_modifyHead]
      split
      case isTrue =>
        exact List.forall_mem_cons.mpr ⟨List.not_mem_nil, ih⟩
      case isFalse hx =>
        obtain ⟨d, ds, hds⟩ := List.exists_cons_of_ne_nil (List.splitOn_ne_nil c t)
        rw [hds] at ih ⊢
        obtain ⟨hd, hds'⟩ := List.forall_mem_cons.mp ih
        refine List.forall_mem_cons.mpr ⟨?_, hds'⟩
        rw [List.mem_cons, not_or]
        exact ⟨fun h => hx (by simp [h]), hd⟩

theorem semicolon_notMem_of_search {name path d : Text} (h : search m name path = some d) :
    ';' ∉ d :=
  notMem_of_mem_splitOn path d (List.mem_of_find?_eq_some h)

theorem semicolon_notMem_extraPaths {home : Text} (h : ';' ∉ home) :
    ∀ d ∈ extraPaths home, ';' ∉ d := by
  have hlib : ';' ∉ dirname home := fun hd => h (dirname_subset _ hd)
  have hroot : ';' ∉ dirname (dirname home) := fun hd => hlib (dirname_subset _ hd)
  intro d hd
  simp only [extraPaths, List.mem_cons, List.not_mem_nil, or_false] at hd
  rcases hd with rfl | rfl | rfl | rfl | rfl | rfl | rfl
  · exact h
  all_goals simp [hlib, hroot]

/-! ## Chains of starts -/

theorem path_findThirdparty (osFile path : Text) :
    (findThirdparty m osFile (some path)).path =
      some (if updatesPath m osFile then
        [';'].intercalate (extraPaths (pyExeDir osFile)) ++ ';' :: path else path) := by
  rw [findThirdparty, updatesPath]
  cases m.isFile (pyExeDir osFile ++ markerDll) with
  | true => rfl
  | false =>
      rw [if_neg Bool.false_ne_true]
      cases hdirs : ((extraPaths (pyExeDir osFile)).filter m.isDir).all m.accepts with
      | true => simp [hdirs]
      | false => simp [hdirs]

/-- The directories that some starts have put before the path, the last start
first. -/
def prepended (m : Machine) (osFiles : List Text) : List Text :=
  (osFiles.reverse.filter (updatesPath m)).flatMap fun osFile => extraPaths (pyExeDir osFile)

theorem prepended_cons (osFile : Text) (osFiles : List Text) :
    prepended m (osFile :: osFiles) =
      prepended m osFiles ++ if updatesPath m osFile then extraPaths (pyExeDir osFile) else [] := by
  rw [prepended, List.reverse_cons, List.filter_append, List.flatMap_append]
  cases h : updatesPath m osFile <;> simp [h, prepended]

theorem search_starts {osFiles : List Text} (h : ∀ f ∈ osFiles, ';' ∉ pyExeDir f)
    (name path : Text) :
    (starts m osFiles (some path)).map (search m name) =
      some (((prepended m osFiles).find? (holds m name)).or (search m name path)) := by
  induction osFiles generalizing path with
  | nil => rfl
  | cons osFile osFiles ih =>
      have hrest := ih (fun f hf => h f (by simp [hf]))
      rw [starts, List.foldl_cons, path_findThirdparty, ← starts, hrest, prepended_cons,
        List.find?_append, Option.or_assoc]
      congr 2
      split
      · exact search_prepend (List.cons_ne_nil _ _)
          (semicolon_notMem_extraPaths (h osFile (by simp))) name path
      · rfl

/-- A machine with one file. -/
def oneFile (file : Text) : Machine where
  isFile p := p == file
  isDir _ := true
  accepts _ := true
  isDir_of_isFile _ _ _ := rfl

theorem updatesPath_oneFile (home osFile : Text) :
    updatesPath (oneFile (home ++ ['\\', 'x'])) osFile = true := by
  have hmarker : pyExeDir osFile ++ markerDll ≠ home ++ ['\\', 'x'] := by
    intro heq
    have hlast := congrArg List.getLast? heq
    rw [List.getLast?_append_of_ne_nil _ (by decide),
      List.getLast?_append_of_ne_nil _ (by decide)] at hlast
    exact absurd hlast (by decide)
  simp [updatesPath, oneFile, hmarker]

/-- Behind any chain of starts, a library is found in the first directory that
holds it among those of the development builds, the last one started first, and
only then where the PATH had it before. This is so on every machine if and only
if none of the interpreters is in a directory with a semicolon in its path. -/
theorem search_starts_iff (osFiles : List Text) :
    (∀ (m : Machine) (name path : Text), (starts m osFiles (some path)).map (search m name) =
      some (((prepended m osFiles).find? (holds m name)).or (search m name path))) ↔
      ∀ f ∈ osFiles, ';' ∉ pyExeDir f := by
  constructor
  · intro h f hf hmem
    have hfound := h (oneFile (pyExeDir f ++ ['\\', 'x'])) ['x'] []
    have hholds : ∀ d, holds (oneFile (pyExeDir f ++ ['\\', 'x'])) ['x'] d = true ↔
        d = pyExeDir f := by
      intro d
      simp [holds, oneFile]
    have hprepended : pyExeDir f ∈ prepended (oneFile (pyExeDir f ++ ['\\', 'x'])) osFiles := by
      refine List.mem_flatMap.mpr ⟨f, ?_, List.mem_cons_self⟩
      exact List.mem_filter.mpr ⟨List.mem_reverse.mpr hf, updatesPath_oneFile _ f⟩
    obtain ⟨d, hd⟩ := Option.isSome_iff_exists.mp
      (List.find?_isSome.mpr ⟨_, hprepended, (hholds _).mpr rfl⟩)
    rw [hd, Option.some_or] at hfound
    obtain ⟨t, -, ht⟩ := Option.map_eq_some_iff.mp hfound
    have hd' := (hholds d).mp (List.find?_some hd)
    exact semicolon_notMem_of_search ht (hd' ▸ hmem)
  · exact fun h m name path => search_starts h name path

end Startup
