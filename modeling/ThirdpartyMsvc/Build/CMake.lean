import ThirdpartyMsvc.Shell.Batch

/-!
# Configuring and building a CMake project

The scripts cmake-build-and-install.cmd, cmake-configure.cmd and
build-and-install.cmd. The first one hands the source root to the second one,
which computes the build directory with `%~p1build`, and its own
`%1\build` to the third one. The two agree when the source root ends in a
separator and lies on the current drive; otherwise cmake runs in a directory
that is not the one inside the source root.
-/

namespace Build

open Shell Shell.State

/-! ## The scripts -/

/-- The arguments of cmake in cmake-configure.cmd. -/
def cmakeArguments (args : List Text) (s : State) : Text :=
  "-G ".toList ++ quoted (s.vars "generator") ++ " -DCMAKE_SYSTEM_VERSION=".toList ++
    s.vars "SDK_VERSION" ++ ' ' :: paramsFrom args 2 ++ ' ' :: s.vars "src_root"

/-- cmake-configure.cmd. -/
def cmakeConfigure (dirsToo : Bool) (args : List Text) (s : State) : State :=
  let s := s.setlocal
  let s := s.set "generator" "Visual Studio 14 2015 Win64".toList
  let s := s.set "src_root" (param args 1)
  let s := s.set "build_dir" (s.places.pathPart (param args 1) ++ "build".toList)
  let s := s.ensureDir (s.vars "build_dir")
  let s := s.cd (s.vars "build_dir")
  let s := s.start "cmake" (cmakeArguments args s)
  s.endlocal dirsToo

/-- The function build-release-and-debug of build-and-install.cmd. -/
def buildReleaseAndDebug (args : List Text) (s : State) : State :=
  let s := s.start "msbuild" ("/nologo /p:Configuration=Release ".toList ++ param args 1)
  s.start "msbuild" ("/nologo /p:Configuration=Debug ".toList ++ param args 1)

/-- The body of the loop of build-and-install.cmd. -/
def buildProject (s : State) (P : Text) : State :=
  let s := buildReleaseAndDebug (words P) s
  buildReleaseAndDebug (words (s.places.pathPart P ++ "INSTALL.vcxproj".toList)) s

/-- build-and-install.cmd. -/
def buildAndInstall (dirsToo : Bool) (args : List Text) (s : State) : State :=
  let s := s.setlocal
  let s := s.set "build_dir" (param args 1)
  let s := s.set "project_files" (paramsFrom args 2)
  let s := s.cd (s.vars "build_dir")
  let s := (words (s.vars "project_files")).foldl buildProject s
  s.endlocal dirsToo

/-- cmake-build-and-install.cmd. -/
def cmakeBuildAndInstall (dirsToo : Bool) (args : List Text) (s : State) : State :=
  let s := s.setlocal
  let s := s.set "src_dir" (param args 1)
  let s := s.set "build_dir" (param args 1 ++ "\\build".toList)
  let s := s.set "cache_file" (param args 2)
  let s := s.set "install_prefix" (param args 3)
  let s := s.set "project_files" (paramsFrom args 4)
  let s := cmakeConfigure dirsToo (words (s.vars "src_dir" ++ " -C ".toList ++
    quoted (s.vars "cache_file") ++ ' ' ::
      quoted ("-DCMAKE_INSTALL_PREFIX=".toList ++ s.vars "install_prefix"))) s
  let s := buildAndInstall dirsToo (words (s.vars "build_dir" ++ ' ' :: s.vars "project_files")) s
  s.endlocal dirsToo

/-! ## The directories -/

/-- The name of a directory, without the characters that a command line gives a
meaning to. -/
structure IsDirName (n : Text) : Prop where
  ne_nil : n ≠ []
  not_dots : n.getLast? ≠ some '.'
  chars : ∀ c ∈ n, isDelim c = false ∧ c ∉ ['\\', '/', ':', '\x22', '%', '&', '|', '<', '>', '^']

/-- The absolute root of a source tree, as it stands on a command line. -/
structure SourceRoot where
  drive : Char
  components : List Text
  trailing : Bool
  drive_alpha : drive.isAlpha = true
  names : ∀ n ∈ components, IsDirName n
  root_trailing : components = [] → trailing = true

namespace SourceRoot

/-- The path of the root behind its drive. -/
def path (S : SourceRoot) : Text :=
  S.components.flatMap ('\\' :: ·) ++ if S.trailing then ['\\'] else []

def text (S : SourceRoot) : Text := S.drive :: ':' :: S.path

/-- The directory in which the build should happen. -/
def buildDir (S : SourceRoot) : Location :=
  ⟨S.drive.toUpper, S.components ++ ["build".toList]⟩

end SourceRoot

/-- cmake runs and then msbuild, all of them in the directory `l`. -/
structure BuildsIn (l : Location) (started : List Started) : Prop where
  programs : ∃ n, started.map Started.program = "cmake" :: List.replicate n "msbuild"
  dir : ∀ p ∈ started, p.dir = l

end Build
