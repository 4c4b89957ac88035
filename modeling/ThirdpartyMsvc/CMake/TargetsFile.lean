import ThirdpartyMsvc.CMake.State
import ThirdpartyMsvc.Store.LastWrite

/-!
# The files that cmake exports targets with

szip-targets.cmake, zlib-targets.cmake, hdf5-targets.cmake and OCE-libraries.cmake
were generated by cmake, and so were the files of the single configurations that
they include. One definition stands for all of them, with what tells them apart:
the targets, how many directories there are between the file and the prefix, and
a few commands that one version of cmake writes and another one does not.

The tests of the version of cmake are left out, and so is the kind of a library.
The glob finds the files of the configurations in alphabetical order.
-/

namespace CMake

open Store

/-- `get_filename_component(… PATH)`. The separator behind a drive stays. -/
def directory (path : Text) : Text :=
  let p := path.rdropWhile (· ≠ '/')
  if p = ['/'] ∨ (p.length = 3 ∧ p[1]? = some ':') then p else p.dropLast

/-- Properties, with their values for a prefix. -/
abbrev Properties := List (Text × (Text → Text))

/-- What a configuration file says about one target: its properties, and the
files that have to exist, below the prefix. -/
structure Import where
  target : Text
  properties : Properties
  files : List Text

structure ConfigurationFile where
  fileName : Text
  configuration : Text
  imports : List Import

structure TargetsFile where
  /-- how often the last component is taken off the path of the file -/
  depth : ℕ
  /-- whether `cmake_policy(VERSION …)` sets CMP0054 -/
  cmp0054 : Bool
  /-- whether the variables of the test are unset before an early return -/
  tidies : Bool
  /-- whether the root directory is no prefix -/
  emptiesRoot : Bool
  targets : List (Text × Properties)
  configurations : List ConfigurationFile

/-! ## Variables -/

def targetsDefined : Text := "_targetsDefined".toList
def targetsNotDefined : Text := "_targetsNotDefined".toList
def expectedTargets : Text := "_expectedTargets".toList
def importFileVersion : Text := "CMAKE_IMPORT_FILE_VERSION".toList
def importPrefix : Text := "_IMPORT_PREFIX".toList
def importCheckTargets : Text := "_IMPORT_CHECK_TARGETS".toList
def importCheckFilesFor (target : Text) : Text := "_IMPORT_CHECK_FILES_FOR_".toList ++ target
def importedConfigurations : Text := "IMPORTED_CONFIGURATIONS".toList

/-! ## A configuration file -/

/-- `set_target_properties`. -/
def setProperties (pre target : Text) (properties : Properties) (s : State) : Except Text State :=
  properties.foldlM (fun s p => s.setProperty target p.1 (p.2 pre)) s

def Import.run (pre configuration : Text) (s : State) (i : Import) : Except Text State := do
  let s ← s.appendProperty i.target importedConfigurations configuration
  let s ← setProperties pre i.target i.properties s
  let s := s.append importCheckTargets [i.target]
  return s.append (importCheckFilesFor i.target) (i.files.map (pre ++ ·))

def ConfigurationFile.run (pre : Text) (C : ConfigurationFile) (s : State) : Except Text State := do
  let s := s.set importFileVersion "1".toList
  let s ← C.imports.foldlM (Import.run pre C.configuration) s
  return s.unset importFileVersion

/-! ## The targets file -/

namespace TargetsFile

variable (F : TargetsFile)

def names : List Text := F.targets.map Prod.fst

/-- The body of the loop that protects against multiple inclusion. -/
def expectTarget (s : State) (target : Text) : State :=
  let s := s.append expectedTargets [target]
  if target ∈ s.targets then s.append targetsDefined [target]
  else s.append targetsNotDefined [target]

/-- Up to the tests whether the targets are defined. -/
def start (s : State) : State :=
  let s := s.pushPolicies F.cmp0054
  let s := s.set importFileVersion "1".toList
  let s := ((s.unset targetsDefined).unset targetsNotDefined).unset expectedTargets
  F.names.foldl expectTarget s

def forgetTargets (s : State) : State :=
  ((s.unset targetsDefined).unset targetsNotDefined).unset expectedTargets

/-- The end of the file, and the early return. -/
def finish (s : State) : State := (s.unset importFileVersion).popPolicies

/-- The prefix, computed relative to the path of the file. -/
def prefixOf (file : Text) : Text :=
  let pre := directory^[F.depth] file
  if F.emptiesRoot && pre = ['/'] then [] else pre

def addTarget (pre : Text) (s : State) (target : Text × Properties) : Except Text State := do
  let s ← s.addLibrary target.1
  setProperties pre target.1 target.2 s

/-- The path of a configuration file. -/
def pathIn (dir : Text) (C : ConfigurationFile) : Text := dir ++ '/' :: C.fileName

def includeFile (dir pre : Text) (s : State) (f : Text) : Except Text State :=
  match F.configurations.find? fun C => pathIn dir C = f with
  | some C => C.run pre s
  | none => .error ("include could not find load file:\n\n  ".toList ++ f)

/-- Loads the information for each installed configuration. -/
def loadConfigurations (file pre : Text) (s : State) : Except Text State :=
  let s := s.set "_DIR".toList (directory file)
  let s := s.set "CONFIG_FILES".toList (joined (F.configurations.map (pathIn (directory file))))
  (elements (s.get "CONFIG_FILES".toList)).foldlM (F.includeFile (directory file) pre) s

def missingFile (file target f : Text) : Text :=
  "The imported target \"".toList ++ target ++ "\" references the file\n   \"".toList ++ f ++
    "\"\nbut this file does not exist.  Possible reasons include:\n".toList ++
    "* The file was deleted, renamed, or moved to another location.\n".toList ++
    "* An install or uninstall procedure did not complete successfully.\n".toList ++
    "* The installation package was faulty and contained\n   \"".toList ++ file ++
    "\"\nbut not all the files it references.\n".toList

/-- The loop over the files of one target. -/
def checkTarget (disk : Text → Bool) (file : Text) (s : State) (target : Text) :
    Except Text State :=
  match (elements (s.get (importCheckFilesFor target))).find? fun f => !disk f with
  | some f => .error (missingFile file target f)
  | none => .ok (s.unset (importCheckFilesFor target))

/-- The loop over all imported files verifies that they exist. -/
def checkFiles (disk : Text → Bool) (file : Text) (s : State) : Except Text State := do
  let s ← (elements (s.get importCheckTargets)).foldlM (checkTarget disk file) s
  return s.unset importCheckTargets

/-- What is done for targets that are not defined. -/
def importTargets (disk : Text → Bool) (file : Text) (s : State) : Except Text State := do
  let pre := F.prefixOf file
  let s ← F.targets.foldlM (addTarget pre) (s.set importPrefix pre)
  let s ← F.loadConfigurations file pre s
  checkFiles disk file (s.unset importPrefix)

def someDefined (defined notDefined : Text) : Text :=
  "Some (but not all) targets in this export set were already defined.\nTargets Defined: ".toList ++
    defined ++ "\nTargets not yet defined: ".toList ++ notDefined ++ "\n".toList

/-- The targets file `file`, with the files on the disk. -/
def load (disk : Text → Bool) (file : Text) (s : State) : Except Text State :=
  let s := F.start s
  if s.operand (s.get targetsDefined) = s.operand (s.get expectedTargets) then
    .ok (finish (if F.tidies then forgetTargets s else s))
  else if s.operand (s.get targetsDefined) ≠ s.operand [] then
    .error (someDefined (s.get targetsDefined) (s.get targetsNotDefined))
  else do
    let s ← F.importTargets disk file (forgetTargets s)
    return finish s

end TargetsFile

end CMake
