import ThirdpartyMsvc.CMake.TargetsFile

/-!
# The packages of the bundle for cmake

The directory cmake holds the configuration files of four packages. Each of them
loads the targets file of its package; hdf5-config.cmake loads those of zlib and
szip as well. The files differ in what they do with the components that a caller
asks for.

Operands of `if` that come from a component are taken as they are: a component
is neither a keyword of `if` nor the name of a variable. The list of all modules
in OCEConfig.cmake, which nothing reads, is left out, and so are the variables of
hdf5-config.cmake for options that are switched off.
-/

namespace CMake

/-! ## The targets files -/

/-- A path below the prefix. -/
def below (path pre : Text) : Text := pre ++ path

/-- A value without the prefix. -/
def constant (value _ : Text) : Text := value

/-- The name of a property in a configuration. -/
def inConfiguration (property configuration : Text) : Text := property ++ '_' :: configuration

def linkInterfaceLanguages : Text := "IMPORTED_LINK_INTERFACE_LANGUAGES".toList
def linkInterfaceLibraries : Text := "IMPORTED_LINK_INTERFACE_LIBRARIES".toList
def importedImplib : Text := "IMPORTED_IMPLIB".toList
def importedLocation : Text := "IMPORTED_LOCATION".toList
def includeDirectories : Text := "INTERFACE_INCLUDE_DIRECTORIES".toList
def compileDefinitions : Text := "INTERFACE_COMPILE_DEFINITIONS".toList
def linkLibraries : Text := "INTERFACE_LINK_LIBRARIES".toList

def debug : Text := "DEBUG".toList
def release : Text := "RELEASE".toList

/-- A static library, with the language that it was linked in. -/
def staticImport (configuration target language lib : Text) : Import where
  target := target
  properties :=
    [(inConfiguration linkInterfaceLanguages configuration, constant language),
      (inConfiguration importedLocation configuration, below lib)]
  files := [lib]

/-- A shared library, with its import library. -/
def sharedImport (configuration target lib dll : Text) : Import where
  target := target
  properties :=
    [(inConfiguration importedImplib configuration, below lib),
      (inConfiguration importedLocation configuration, below dll)]
  files := [lib, dll]

/-- szip-targets.cmake. -/
def szipTargets : TargetsFile where
  depth := 2
  cmp0054 := false
  tidies := true
  emptiesRoot := true
  targets :=
    [("szip-static".toList, [(includeDirectories, below "/include".toList)]),
      ("szip-shared".toList,
        [(compileDefinitions, constant "SZ_BUILT_AS_DYNAMIC_LIB=1".toList),
          (includeDirectories, below "/include".toList)])]
  configurations :=
    [⟨"szip-targets-debug.cmake".toList, debug,
        [staticImport debug "szip-static".toList "C".toList "/lib/libszip_D.lib".toList,
          sharedImport debug "szip-shared".toList "/lib/szip_D.lib".toList
            "/bin/szip_D.dll".toList]⟩,
      ⟨"szip-targets-release.cmake".toList, release,
        [staticImport release "szip-static".toList "C".toList "/lib/libszip.lib".toList,
          sharedImport release "szip-shared".toList "/lib/szip.lib".toList
            "/bin/szip.dll".toList]⟩]

/-- zlib-targets.cmake. -/
def zlibTargets : TargetsFile where
  depth := 2
  cmp0054 := false
  tidies := false
  emptiesRoot := false
  targets :=
    [("zlib".toList,
        [(compileDefinitions, constant "ZLIB_DLL=1".toList),
          (includeDirectories, below "/include".toList)])]
  configurations :=
    [⟨"zlib-targets-debug.cmake".toList, debug,
        [sharedImport debug "zlib".toList "/lib/zlib_D.lib".toList "/bin/zlib_D.dll".toList]⟩,
      ⟨"zlib-targets-release.cmake".toList, release,
        [sharedImport release "zlib".toList "/lib/zlib.lib".toList "/bin/zlib.dll".toList]⟩]

/-- What the compilers add to the libraries of every target of HDF5. -/
def compilerLibraries : Text := "$<$<C_COMPILER_ID:MSVC>:>;$<$<CXX_COMPILER_ID:MSVC>:>;".toList

/-- The include directory, which every target of HDF5 names twice. -/
def hdf5Include (pre : Text) : Text := below "/include;".toList pre ++ below "/include".toList pre

/-- A target of HDF5, with its compile definitions, if there are any. -/
def hdf5Target (target : Text) (definitions : List Text) (libraries : Text) : Text × Properties :=
  (target, (definitions.map fun d => (compileDefinitions, constant d)) ++
    [(includeDirectories, hdf5Include), (linkLibraries, constant (compilerLibraries ++ libraries))])

/-- The libraries of HDF5 with their languages. -/
def hdf5Libraries : List (Text × Text) :=
  [("hdf5".toList, "C".toList), ("hdf5_hl".toList, "C".toList),
    ("hdf5_cpp".toList, "CXX".toList), ("hdf5_hl_cpp".toList, "CXX".toList)]

/-- The name of a target of HDF5. -/
def hdf5Name (library kind : Text) : Text := "hdf5::".toList ++ library ++ '-' :: kind

/-- The imports of HDF5 in one configuration. -/
def hdf5Imports (configuration suffix : Text) : List Import :=
  hdf5Libraries.flatMap fun l =>
    [staticImport configuration (hdf5Name l.1 "static".toList) l.2
        ("/lib/lib".toList ++ l.1 ++ suffix ++ ".lib".toList),
      sharedImport configuration (hdf5Name l.1 "shared".toList)
        ("/lib/".toList ++ l.1 ++ suffix ++ ".lib".toList)
        ("/bin/".toList ++ l.1 ++ suffix ++ ".dll".toList)]

/-- The place at which zlib was when HDF5 was built. -/
def zlibOfBuild : Text :=
  "C:/Users/gigm/code/mantidproject/mantid/external/src/ThirdParty/lib/zlib.lib".toList

/-- hdf5-targets.cmake. The versions of its policies reach to 3.17, so CMP0054 is
set. -/
def hdf5Targets : TargetsFile where
  depth := 3
  cmp0054 := true
  tidies := true
  emptiesRoot := true
  targets :=
    [hdf5Target "hdf5::hdf5-static".toList ["$<IF:$<CONFIG:Debug>,DEBUG,NDEBUG>".toList]
        (zlibOfBuild ++ ";$<LINK_ONLY:szip-static>;$<LINK_ONLY:$<$<BOOL:OFF>:>>;".toList ++
          "$<$<NOT:$<PLATFORM_ID:Windows>>:>".toList),
      hdf5Target "hdf5::hdf5-shared".toList
        ["H5_BUILT_AS_DYNAMIC_LIB;$<IF:$<CONFIG:Debug>,DEBUG,NDEBUG>".toList]
        "$<$<NOT:$<PLATFORM_ID:Windows>>:>;$<$<BOOL:ON>:Threads::Threads>".toList,
      hdf5Target "hdf5::hdf5_hl-static".toList [] "hdf5::hdf5-static".toList,
      hdf5Target "hdf5::hdf5_hl-shared".toList ["H5_BUILT_AS_DYNAMIC_LIB".toList]
        "hdf5::hdf5-shared".toList,
      hdf5Target "hdf5::hdf5_cpp-static".toList [] "hdf5::hdf5-static".toList,
      hdf5Target "hdf5::hdf5_cpp-shared".toList ["H5_BUILT_AS_DYNAMIC_LIB".toList]
        "hdf5::hdf5-shared".toList,
      hdf5Target "hdf5::hdf5_hl_cpp-static".toList []
        "hdf5::hdf5_hl-static;hdf5::hdf5-static".toList,
      hdf5Target "hdf5::hdf5_hl_cpp-shared".toList ["H5_BUILT_AS_DYNAMIC_LIB".toList]
        "hdf5::hdf5_hl-shared;hdf5::hdf5-shared".toList]
  configurations :=
    [⟨"hdf5-targets-debug.cmake".toList, debug, hdf5Imports debug "_D".toList⟩,
      ⟨"hdf5-targets-release.cmake".toList, release, hdf5Imports release []⟩]

/-- A file of OCE, in the directory below the prefix that OCE is installed to. -/
def oceFile (folder name suffix extension : Text) : Text :=
  "/Win64/".toList ++ folder ++ '/' :: name ++ suffix ++ extension

/-- A library of OCE, with the libraries that it is linked to. -/
def oceImport (configuration suffix : Text) (library : Text × Text) : Import where
  target := library.1
  properties :=
    [(inConfiguration importedImplib configuration,
        below (oceFile "lib".toList library.1 suffix ".lib".toList)),
      (inConfiguration linkInterfaceLibraries configuration, constant library.2),
      (inConfiguration importedLocation configuration,
        below (oceFile "bin".toList library.1 suffix ".dll".toList))]
  files := [oceFile "lib".toList library.1 suffix ".lib".toList,
    oceFile "bin".toList library.1 suffix ".dll".toList]

/-- The libraries of OCE, each with the libraries that it is linked to. -/
def oceToolkits : List (Text × Text) :=
  [("TKernel".toList, "ws2_32;advapi32;gdi32;user32;kernel32;psapi".toList),
    ("TKMath".toList, "TKernel".toList),
    ("TKG2d".toList, "TKernel;TKMath".toList),
    ("TKG3d".toList, "TKMath;TKernel;TKG2d".toList),
    ("TKGeomBase".toList, "TKernel;TKMath;TKG2d;TKG3d".toList),
    ("TKBRep".toList, "TKMath;TKernel;TKG2d;TKG3d;TKGeomBase".toList),
    ("TKGeomAlgo".toList, "TKernel;TKMath;TKG3d;TKG2d;TKGeomBase;TKBRep".toList),
    ("TKTopAlgo".toList, "TKMath;TKernel;TKG2d;TKG3d;TKGeomBase;TKBRep;TKGeomAlgo".toList),
    ("TKPrim".toList, "TKBRep;TKernel;TKMath;TKG2d;TKGeomBase;TKG3d;TKTopAlgo".toList),
    ("TKBO".toList,
      "TKBRep;TKTopAlgo;TKMath;TKernel;TKG2d;TKG3d;TKGeomAlgo;TKGeomBase;TKPrim".toList),
    ("TKHLR".toList, "TKBRep;TKernel;TKMath;TKGeomBase;TKG2d;TKG3d;TKGeomAlgo;TKTopAlgo".toList),
    ("TKMesh".toList, "TKBRep;TKMath;TKernel;TKG2d;TKG3d;TKGeomBase;TKTopAlgo;TKGeomAlgo".toList),
    ("TKShHealing".toList,
      "TKBRep;TKernel;TKMath;TKG2d;TKTopAlgo;TKG3d;TKGeomBase;TKGeomAlgo;ws2_32".toList),
    ("TKXMesh".toList, "TKBRep;TKMath;TKernel;TKG2d;TKMesh".toList),
    ("TKBool".toList, "TKBRep;TKTopAlgo;TKMath;TKernel;TKPrim;".toList ++
      "TKG2d;TKG3d;TKShHealing;TKGeomBase;TKGeomAlgo;TKBO".toList),
    ("TKFillet".toList, "TKBRep;TKernel;TKMath;TKGeomBase;TKGeomAlgo;".toList ++
      "TKG2d;TKTopAlgo;TKG3d;TKBool;TKShHealing".toList),
    ("TKFeat".toList, "TKBRep;TKTopAlgo;TKGeomAlgo;TKMath;TKernel;".toList ++
      "TKGeomBase;TKPrim;TKG2d;TKBO;TKG3d;TKBool".toList),
    ("TKOffset".toList, "TKFillet;TKBRep;TKTopAlgo;TKMath;TKernel;TKGeomBase;".toList ++
      "TKG2d;TKG3d;TKGeomAlgo;TKShHealing;TKBO;TKPrim;TKBool".toList)]

/-- OCE-libraries.cmake. -/
def oceLibraries : TargetsFile where
  depth := 2
  cmp0054 := false
  tidies := false
  emptiesRoot := false
  targets := oceToolkits.map fun l => (l.1, [])
  configurations :=
    [⟨"OCE-libraries-debug.cmake".toList, debug, oceToolkits.map (oceImport debug "d".toList)⟩,
      ⟨"OCE-libraries-release.cmake".toList, release, oceToolkits.map (oceImport release [])⟩]

/-! ## Conditions and components -/

/-- The constants that count as false, and the empty value of a variable that is
not set. -/
def isOff (t : Text) : Bool :=
  t.map Char.toUpper ∈ ([[], "0".toList, "OFF".toList, "NO".toList, "FALSE".toList, "N".toList,
    "IGNORE".toList, "NOTFOUND".toList] : List Text) || "-NOTFOUND".toList.isSuffixOf t

/-- `list(FIND …)`: the position of an element, or -1. -/
def find (ts : List Text) (t : Text) : ℤ :=
  match ts.idxOf? t with
  | some i => i
  | none => -1

/-- The decimal text of a position. -/
def decimal (n : ℤ) : Text := (toString n).toList

/-- A variable of a package. -/
def ofPackage (package name : Text) : Text := package ++ '_' :: name

def componentFound (package component : Text) : Text :=
  ofPackage package (component ++ "_FOUND".toList)

def findRequired (package component : Text) : Text :=
  ofPackage package ("FIND_REQUIRED_".toList ++ component)

def findComponents (package : Text) : Text := ofPackage package "FIND_COMPONENTS".toList

def found (package : Text) : Text := ofPackage package "FOUND".toList

/-- The body of the loop of check_required_components. -/
def checkComponent (package : Text) (s : State) (component : Text) : State :=
  if isOff (s.get (componentFound package component)) &&
      !isOff (s.get (findRequired package component)) then
    s.set (found package) "FALSE".toList
  else s

/-- The macro check_required_components. -/
def checkRequiredComponents (package : Text) (s : State) : State :=
  (elements (s.get (findComponents package))).foldl (checkComponent package) s

def setAll (settings : List (Text × Text)) (s : State) : State :=
  settings.foldl (fun s p => s.set p.1 p.2) s

/-- The macro set_and_check. -/
def setAndCheck (disk : Text → Bool) (name file : Text) (s : State) : Except Text State :=
  if disk file then .ok (s.set name file)
  else .error ("File or directory ".toList ++ file ++ " referenced by variable ".toList ++ name ++
    " does not exist !".toList)

/-- `get_filename_component(… ABSOLUTE)` of an absolute path: what a component does
to those before it. -/
def collapse (stack : List Text) (component : Text) : List Text :=
  if component = [] ∨ component = ".".toList then stack
  else if component = "..".toList then stack.dropLast
  else stack ++ [component]

def absolute (path : Text) : Text :=
  match path.splitOn '/' with
  | [] => []
  | drive :: components => drive ++ '/' :: ['/'].intercalate (components.foldl collapse [])

def packagePrefixDir : Text := "PACKAGE_PREFIX_DIR".toList

/-! ## The configuration files of the packages -/

def szip : Text := "SZIP".toList
def zlib : Text := "ZLIB".toList
def hdf5 : Text := "HDF5".toList
def oce : Text := "OCE".toList

/-- `if (NOT TARGET …) include (…)`. -/
def TargetsFile.loadUnless (F : TargetsFile) (disk : Text → Bool) (target file : Text) (s : State) :
    Except Text State :=
  if target ∈ s.targets then .ok s else F.load disk file s

/-- Adds the targets of a component to the variable for its libraries. -/
def addLibraries (library : Text) (targets : List Text) (s : State) : State :=
  let s := s.set "COMP_LIBRARY".toList library
  s.set library (joined (elements (s.get library) ++ targets))

/-- The body of the loop of szip-config.cmake over the components. -/
def szipComponent (s : State) (component : Text) : State :=
  let have_comp := find (elements (s.get (ofPackage szip "EXPORT_LIBRARIES".toList)))
    ("szip-".toList ++ component)
  let s := s.set "HAVE_COMP".toList (decimal have_comp)
  if have_comp < 0 then s.set (componentFound szip component) "0".toList
  else
    let s := s.set (componentFound szip component) "1".toList
    let library := (ofPackage szip (component ++ "_LIBRARY".toList)).map Char.toUpper
    addLibraries library ["szip-".toList ++ component] s

/-- szip-config.cmake, in the directory `dir`. -/
def szipConfig (disk : Text → Bool) (dir : Text) (s : State) : Except Text State := do
  let pre := absolute (dir ++ "/../".toList)
  let s := setAll
    [(packagePrefixDir, pre), ("SZIP_PACKAGE_NAME".toList, szip),
      (ofPackage szip "VALID_COMPONENTS".toList, "static;shared".toList),
      (ofPackage szip "ENABLE_ENCODING".toList, "ON".toList),
      (ofPackage szip "BUILD_SHARED_LIBS".toList, "ON".toList),
      (ofPackage szip "EXPORT_LIBRARIES".toList, "szip-static;szip-shared".toList),
      (ofPackage szip "INCLUDE_DIR".toList, pre ++ "/include".toList),
      (ofPackage szip "SHARE_DIR".toList, pre ++ "/cmake".toList)] s
  let s ← setAndCheck disk (ofPackage szip "BUILD_DIR".toList) pre s
  let s := setAll
    [(ofPackage szip "VERSION_STRING".toList, "2.1".toList),
      (ofPackage szip "VERSION_MAJOR".toList, "2.1".toList),
      (ofPackage szip "VERSION_MINOR".toList, "1".toList)] s
  let s ← szipTargets.loadUnless disk "szip".toList (pre ++ "/cmake/szip-targets.cmake".toList) s
  let s := if isOff (s.get (findComponents szip)) then
      (s.set (findComponents szip) "static".toList).set (findRequired szip "static".toList)
        "true".toList
    else s
  let s := s.set (findComponents szip)
    (joined (elements (s.get (findComponents szip))).eraseDups)
  return checkRequiredComponents szip
    ((elements (s.get (findComponents szip))).foldl szipComponent s)

/-- zlib-config.cmake, in the directory `dir`. -/
def zlibConfig (disk : Text → Bool) (dir : Text) (s : State) : Except Text State := do
  let pre := absolute (dir ++ "/../".toList)
  let s := setAll
    [(packagePrefixDir, pre), ("ZLIB_PACKAGE_NAME".toList, zlib),
      (ofPackage zlib "BUILD_SHARED_LIBS".toList, "ON".toList),
      (ofPackage zlib "EXPORT_LIBRARIES".toList, "zlib".toList),
      (ofPackage zlib "INCLUDE_DIR".toList, pre ++ "/include".toList),
      (ofPackage zlib "SHARE_DIR".toList, pre ++ "/cmake".toList)] s
  let s ← setAndCheck disk (ofPackage zlib "BUILD_DIR".toList) pre s
  let s := setAll
    [(ofPackage zlib "VERSION_STRING".toList, "1.2".toList),
      (ofPackage zlib "VERSION_MAJOR".toList, "1.2".toList),
      (ofPackage zlib "VERSION_MINOR".toList, "8".toList)] s
  let s ← zlibTargets.loadUnless disk "zlib".toList (pre ++ "/cmake/zlib-targets.cmake".toList) s
  let s := checkRequiredComponents zlib s
  return s.set (ofPackage zlib "LIBRARIES".toList)
    (s.get (ofPackage zlib "EXPORT_LIBRARIES".toList))

def libType : Text := ofPackage hdf5 "LIB_TYPE".toList

/-- The settings of hdf5-config.cmake. -/
def hdf5Settings : List (Text × Text) :=
  [("VALID_COMPONENTS".toList,
      "static;shared;C;CXX;Fortran;HL;CXX_HL;Fortran_HL;Java;Tools".toList),
    ("ENABLE_PARALLEL".toList, "OFF".toList), ("BUILD_FORTRAN".toList, "OFF".toList),
    ("BUILD_CPP_LIB".toList, "ON".toList), ("BUILD_JAVA".toList, "OFF".toList),
    ("BUILD_TOOLS".toList, "OFF".toList), ("BUILD_HL_LIB".toList, "ON".toList),
    ("ENABLE_THREADSAFE".toList, "ON".toList), ("ENABLE_Z_LIB_SUPPORT".toList, "ON".toList),
    ("ENABLE_SZIP_SUPPORT".toList, "ON".toList), ("ENABLE_SZIP_ENCODING".toList, "OFF".toList),
    ("BUILD_SHARED_LIBS".toList, "ON".toList), ("PACKAGE_EXTLIBS".toList, "ON".toList),
    ("EXPORT_LIBRARIES".toList, ("hdf5-static;hdf5-shared;hdf5_hl-static;hdf5_hl-shared;".toList ++
      "hdf5_cpp-static;hdf5_cpp-shared;hdf5_hl_cpp-static;hdf5_hl_cpp-shared".toList)),
    ("TOOLSET".toList, []), ("DEFAULT_API_VERSION".toList, "v110".toList),
    ("PARALLEL_FILTERED_WRITES".toList, [])]

/-- The body of the loop of hdf5-config.cmake that sorts out the kinds of
libraries. -/
def hdf5Kind (s : State) (component : Text) : State :=
  if component = "shared".toList ∨ component = "static".toList then
    let s := s.set (findComponents hdf5)
      (joined ((elements (s.get (findComponents hdf5))).filter (· ≠ component)))
    s.set libType (joined (elements (s.get libType) ++ [component]))
  else s

/-- The libraries of the components. -/
def hdf5Component : List (Text × Text) :=
  [("C".toList, "hdf5".toList), ("CXX".toList, "hdf5_cpp".toList),
    ("HL".toList, "hdf5_hl".toList), ("CXX_HL".toList, "hdf5_hl_cpp".toList),
    ("Java".toList, "hdf5_java".toList), ("Tools".toList, "hdf5_tools".toList),
    ("Fortran".toList, "hdf5_fortran".toList), ("Fortran_HL".toList, "hdf5_hl_fortran".toList)]

/-- The second libraries of the components that have two. -/
def hdf5Component2 : List (Text × Text) :=
  [("Fortran".toList, "hdf5_f90cstub".toList), ("Fortran_HL".toList, "hdf5_hl_f90cstub".toList)]

def hdf5Comp : Text := "hdf5_comp".toList
def hdf5Comp2 : Text := "hdf5_comp2".toList

/-- The variables that name the library of a component. It keeps its value when the
component is none that the file knows. -/
def setHdf5Comp (component : Text) (s : State) : State :=
  let s := s.unset hdf5Comp2
  let s := match hdf5Component2.lookup component with
    | some library => s.set hdf5Comp2 library
    | none => s
  match hdf5Component.lookup component with
  | some library => s.set hdf5Comp library
  | none => s

/-- The body of the loops of hdf5-config.cmake over the kinds of libraries and over
the components. -/
def hdf5Search (kind : Text) (s : State) (component : Text) : State :=
  let s := setHdf5Comp component s
  let exports := elements (s.get (ofPackage hdf5 "EXPORT_LIBRARIES".toList))
  if component = "Java".toList then
    let have_comp := find exports (s.get hdf5Comp)
    let s := s.set "HAVE_COMP".toList (decimal have_comp)
    if have_comp < 0 then s.set (componentFound hdf5 component) "0".toList
    else addLibraries ((ofPackage hdf5 (component ++ "_LIBRARY".toList)).map Char.toUpper)
      ["hdf5::".toList ++ s.get hdf5Comp] (s.set (componentFound hdf5 component) "1".toList)
  else
    let foundName := componentFound (ofPackage hdf5 kind) component
    let library := (ofPackage hdf5 (component ++ '_' :: kind ++ "_LIBRARY".toList)).map Char.toUpper
    let have_comp := find exports (s.get hdf5Comp ++ '-' :: kind)
    let s := s.set "HAVE_COMP".toList (decimal have_comp)
    if have_comp < 0 then s.set foundName "0".toList
    else if isOff (s.get hdf5Comp2) then
      addLibraries library [hdf5Name (s.get hdf5Comp) kind] (s.set foundName "1".toList)
    else
      let have_comp2 := find exports (s.get hdf5Comp2 ++ '-' :: kind)
      let s := s.set "HAVE_COMP2".toList (decimal have_comp2)
      if have_comp2 < 0 then s.set foundName "0".toList
      else addLibraries library [hdf5Name (s.get hdf5Comp2) kind, hdf5Name (s.get hdf5Comp) kind]
        (s.set foundName "1".toList)

/-- hdf5-config.cmake behind the targets: the components. -/
def hdf5Components (s : State) : State :=
  let s := if isOff (s.get (findComponents hdf5)) then
      ((s.unset libType).set (findComponents hdf5) "C;HL;static".toList).set
        (findRequired hdf5 "static_C".toList) "true".toList
    else s
  let s := s.set (findComponents hdf5)
    (joined (elements (s.get (findComponents hdf5))).eraseDups)
  let s := (elements (s.get (findComponents hdf5))).foldl hdf5Kind s
  let s := (elements (s.get libType)).foldl (fun s kind =>
    (elements (s.get (findComponents hdf5))).foldl (hdf5Search kind) s) s
  (elements (s.get libType)).foldl (fun s kind =>
    checkRequiredComponents (ofPackage hdf5 kind) s) s

/-- The targets files that hdf5-config.cmake loads, if no target hdf5 is there. -/
def hdf5Loads (disk : Text → Bool) (pre : Text) (s : State) : Except Text State :=
  if "hdf5".toList ∈ s.targets then .ok s
  else do
    let s ← zlibTargets.loadUnless disk "zlib".toList (pre ++ "/cmake/ZLIB-targets.cmake".toList) s
    let s ← szipTargets.loadUnless disk "szip".toList (pre ++ "/cmake/SZIP-targets.cmake".toList) s
    hdf5Targets.load disk (pre ++ "/cmake/hdf5/hdf5-targets.cmake".toList) s

/-- hdf5-config.cmake, in the directory `dir`. -/
def hdf5Config (disk : Text → Bool) (dir : Text) (s : State) : Except Text State := do
  let pre := absolute (dir ++ "/../../".toList)
  let s := setAll [(packagePrefixDir, pre), ("HDF5_PACKAGE_NAME".toList, hdf5)] s
  let s := setAll (hdf5Settings.map fun p => (ofPackage hdf5 p.1, p.2)) s
  let s := setAll
    [(ofPackage hdf5 "INCLUDE_DIR".toList, pre ++ "/include;".toList ++
        s.get (ofPackage hdf5 "MPI_C_INCLUDE_DIRS".toList)),
      (ofPackage hdf5 "SHARE_DIR".toList, pre ++ "/cmake".toList)] s
  let s ← setAndCheck disk (ofPackage hdf5 "BUILD_DIR".toList) pre s
  let s := setAll
    [(ofPackage hdf5 "INCLUDE_DIR_CPP".toList, pre ++ "/include".toList),
      (ofPackage hdf5 "INCLUDE_DIR_HL".toList, pre ++ "/include".toList),
      (ofPackage hdf5 "INCLUDE_DIR_HL_CPP".toList, pre ++ "/include".toList),
      (ofPackage hdf5 "VERSION_STRING".toList, "1.10.5".toList),
      (ofPackage hdf5 "VERSION_MAJOR".toList, "1.10".toList),
      (ofPackage hdf5 "VERSION_MINOR".toList, "5".toList)] s
  let s ← hdf5Loads disk pre s
  return hdf5Components s

def oceMissing : Text := ofPackage oce "MISSING_TOOLKITS".toList
def oceAllFound : Text := ofPackage oce "ALL_FOUND".toList

/-- The body of the loop of OCEConfig.cmake over the components. -/
def oceToolkit (s : State) (toolkit : Text) : Except Text State :=
  if toolkit ∈ s.targets then .ok (s.set (componentFound oce toolkit) "true".toList)
  else
    let s := (s.set oceAllFound "false".toList).set (componentFound oce toolkit) "false".toList
    let s := s.set oceMissing (joined (elements (s.get oceMissing) ++ [toolkit]))
    if isOff (s.get (ofPackage oce "FIND_REQUIRED".toList)) then .ok s
    else .error ("OCE ".toList ++ toolkit ++ " not available.".toList)

/-- OCEConfig.cmake, in the directory `dir`. -/
def oceConfig (disk : Text → Bool) (dir : Text) (s : State) : Except Text State := do
  let selfDir := directory (dir ++ "/OCEConfig.cmake".toList)
  let s := setAll
    [("SELF_DIR".toList, selfDir),
      (ofPackage oce "INCLUDE_DIRS".toList, selfDir ++ "/../include/oce".toList),
      (ofPackage oce "LIBRARIES".toList, joined (oceToolkits.map Prod.fst))] s
  let s ← oceLibraries.load disk (selfDir ++ "/OCE-libraries.cmake".toList) s
  let s := s.set oceAllFound "true".toList
  if isOff (s.get (findComponents oce)) then return s
  else (elements (s.get (findComponents oce))).foldlM oceToolkit s

/-! ## The bundle -/

inductive Package where
  | szip
  | zlib
  | hdf5
  | oce
deriving DecidableEq, Repr

namespace Package

/-- The targets file of a package. -/
def file : Package → TargetsFile
  | szip => szipTargets
  | zlib => zlibTargets
  | hdf5 => hdf5Targets
  | oce => oceLibraries

/-- The configuration file of a package, in a bundle with the root `root`. -/
def config (disk : Text → Bool) (root : Text) : Package → State → Except Text State
  | szip => szipConfig disk (root ++ "/cmake".toList)
  | zlib => zlibConfig disk (root ++ "/cmake".toList)
  | hdf5 => hdf5Config disk (root ++ "/cmake/hdf5".toList)
  | oce => oceConfig disk (root ++ "/cmake".toList)

/-- The packages whose targets a configuration file loads. -/
def loads : Package → List Package
  | szip => [szip]
  | zlib => [zlib]
  | hdf5 => [zlib, szip, hdf5]
  | oce => [oce]

end Package

end CMake
