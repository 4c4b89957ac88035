import ThirdpartyMsvc.Startup.FindThirdparty

/-!
# Where PyQt5 finds Qt

The package PyQt5 is patched to look for the libraries of Qt when it is
imported: beside the interpreter, in the directory of Qt in a development build,
and on the PATH. sitecustomize.py has put the directories of the bundle before
the PATH at the start of the interpreter, but four of them come before the one
of Qt. `findQt_agrees_iff` says when both lookups end in the same directory.
-/

namespace Startup

open Python Text

inductive Raised where
  | keyError
  | osError
deriving DecidableEq, Repr

def qtCoreDll : Text := "Qt5Core.dll".toList

/-- os.add_dll_directory. -/
def addDllDirectory (m : Machine) (d : Text) (p : Process) : Process × Option Raised :=
  if m.accepts d then ({ p with dllDirs := p.dllDirs ++ [d] }, none) else (p, some .osError)

/-- find_qt, in the interpreter at the path `executable`. -/
def findQt (m : Machine) (executable : Text) (p : Process) : Process × Option Raised :=
  let dllDir := dirname executable
  if holds m qtCoreDll dllDir then addDllDirectory m dllDir p
  else
    match p.path with
    | none => (p, some .keyError)
    | some path =>
        let development := dllDir ++ "\\..\\qt5\\bin".toList
        if holds m qtCoreDll development then
          addDllDirectory m development { p with path := some (development ++ ';' :: path) }
        else
          match search m qtCoreDll path with
          | some d => addDllDirectory m d p
          | none => (p, none)

/-! ## The layout of a bundle -/

/-- The place of a bundle on a machine. -/
structure Bundle where
  drive : Text
  above : List Text
  isDrive : IsDrive drive
  names : ∀ c ∈ above, IsComponent c

namespace Bundle

variable (B : Bundle)

def home : Text := drivePath B.drive (B.above ++ ["lib".toList, "python3.8".toList])

def osFile : Text := B.home ++ "\\Lib\\os.py".toList

def executable : Text := B.home ++ "\\python.exe".toList

/-- The libraries of Qt in a development build. -/
def qtBin : Text := drivePath B.drive (B.above ++ ["lib".toList, "qt5".toList, "bin".toList])

end Bundle

theorem isComponent_of {c : Text}
    (h : (c ≠ [] ∧ (c.all fun x => !isSep x && x ≠ ':') = true) ∧ c ≠ curdir ∧ c ≠ pardir) :
    IsComponent c where
  isFileName := ⟨h.1.1, fun x hx => by simpa using List.all_eq_true.mp h.1.2 x hx⟩
  ne_curdir := h.2.1
  ne_pardir := h.2.2

theorem isComponent_lib : IsComponent "lib".toList := isComponent_of (by decide)

theorem isComponent_python : IsComponent "python3.8".toList := isComponent_of (by decide)

namespace Bundle

variable (B : Bundle)

theorem names_lib : ∀ c ∈ B.above ++ ["lib".toList], IsComponent c :=
  List.forall_mem_append.mpr ⟨B.names, List.forall_mem_singleton.mpr isComponent_lib⟩

theorem names_home : ∀ c ∈ B.above ++ ["lib".toList, "python3.8".toList], IsComponent c :=
  List.forall_mem_append.mpr ⟨B.names,
    List.forall_mem_cons.mpr ⟨isComponent_lib, List.forall_mem_singleton.mpr isComponent_python⟩⟩

theorem dirname_executable : dirname B.executable = B.home := by
  have hpath : B.executable = drivePath B.drive
      (B.above ++ ["lib".toList, "python3.8".toList] ++ ["python.exe".toList]) :=
    (drivePath_append B.drive _ ["python.exe".toList]).symm
  rw [hpath, dirname_drivePath B.isDrive (by simp) B.names_home (isComponent_of (by decide)),
    home]

/-- Both lookups start from the directory of the interpreter. -/
theorem pyExeDir_osFile : pyExeDir B.osFile = B.home := by
  have hLib : IsComponent "Lib".toList := isComponent_of (by decide)
  have hnames : ∀ c ∈ B.above ++ ["lib".toList, "python3.8".toList] ++ ["Lib".toList],
      IsComponent c :=
    List.forall_mem_append.mpr ⟨B.names_home, List.forall_mem_singleton.mpr hLib⟩
  have hpath : B.osFile = drivePath B.drive
      (B.above ++ ["lib".toList, "python3.8".toList] ++ ["Lib".toList] ++ ["os.py".toList]) := by
    rw [List.append_assoc (B.above ++ _)]
    exact (drivePath_append B.drive _ ["Lib".toList, "os.py".toList]).symm
  have hup : drivePath B.drive (B.above ++ ["lib".toList, "python3.8".toList] ++ ["Lib".toList]) ++
      "\\..".toList = drivePath B.drive
        (B.above ++ ["lib".toList, "python3.8".toList] ++ "Lib".toList :: pardir :: []) := by
    rw [drivePath_append, List.append_assoc]
    exact (drivePath_append B.drive _ ["Lib".toList, pardir]).symm
  rw [pyExeDir, hpath, dirname_drivePath B.isDrive (by simp) hnames (isComponent_of (by decide)),
    hup, normpath_parent B.isDrive (by simp) hnames, List.append_nil, home]

theorem dirname_home : dirname B.home = drivePath B.drive (B.above ++ ["lib".toList]) := by
  have hhome : B.home = drivePath B.drive (B.above ++ ["lib".toList] ++ ["python3.8".toList]) := by
    rw [home, List.append_assoc]
    rfl
  rw [hhome, dirname_drivePath B.isDrive (by simp) B.names_lib isComponent_python]

/-- The root of the bundle, which is spelled with a separator at the top of a
drive. -/
theorem normpath_root (names : List Text) (hne : names ≠ [])
    (hnames : ∀ c ∈ names, IsComponent c) :
    normpath (dirname (dirname B.home) ++ names.flatMap ('\\' :: ·)) =
      drivePath B.drive (B.above ++ names) := by
  rw [dirname_home]
  cases habove : B.above with
  | nil =>
      rw [List.nil_append, dirname_drivePath_singleton B.isDrive isComponent_lib]
      have hpath : B.drive ++ ['\\'] ++ names.flatMap ('\\' :: ·) =
          drivePath B.drive ([] :: names) := by simp [drivePath]
      rw [hpath, normpath_drivePath_nil B.isDrive hne hnames,
        normpath_drivePath B.isDrive hne hnames, List.nil_append]
  | cons c above =>
      have hup : ∀ d ∈ c :: above, IsComponent d := habove ▸ B.names
      rw [dirname_drivePath B.isDrive (List.cons_ne_nil _ _) hup isComponent_lib,
        ← drivePath_append, normpath_drivePath B.isDrive (by simp)
          (List.forall_mem_append.mpr ⟨hup, hnames⟩)]

theorem normpath_below (names : List Text) (hne : names ≠ [])
    (hnames : ∀ c ∈ names, IsComponent c) :
    normpath (drivePath B.drive (B.above ++ names)) = drivePath B.drive (B.above ++ names) :=
  normpath_drivePath B.isDrive (by simp [hne]) (List.forall_mem_append.mpr ⟨B.names, hnames⟩)

/-- The directories of a bundle, under their normal names. -/
theorem map_normpath_extraPaths : (extraPaths B.home).map normpath =
    [["lib".toList, "python3.8".toList], ["bin".toList], ["bin".toList, "mingw".toList],
      ["lib".toList, "qt4".toList, "bin".toList], ["lib".toList, "qt4".toList, "lib".toList],
      ["lib".toList, "qt5".toList, "bin".toList], ["lib".toList, "qt5".toList, "lib".toList]].map
      fun names => drivePath B.drive (B.above ++ names) := by
  have hbin : IsComponent "bin".toList := isComponent_of (by decide)
  have hmingw : IsComponent "mingw".toList := isComponent_of (by decide)
  have hqt4 : IsComponent "qt4".toList := isComponent_of (by decide)
  have hqt5 : IsComponent "qt5".toList := isComponent_of (by decide)
  have hlib : ∀ {c d : Text}, IsComponent c → IsComponent d →
      normpath (dirname B.home ++ [c, d].flatMap ('\\' :: ·)) =
        drivePath B.drive (B.above ++ ["lib".toList, c, d]) := by
    intro c d hc hd
    have hpath : dirname B.home ++ [c, d].flatMap ('\\' :: ·) =
        drivePath B.drive (B.above ++ ["lib".toList, c, d]) := by
      rw [dirname_home, ← drivePath_append, List.append_assoc]
      rfl
    rw [hpath, B.normpath_below _ (by simp)]
    exact List.forall_mem_cons.mpr ⟨isComponent_lib,
      List.forall_mem_cons.mpr ⟨hc, List.forall_mem_singleton.mpr hd⟩⟩
  have hhome := B.normpath_below ["lib".toList, "python3.8".toList] (by simp)
    (List.forall_mem_cons.mpr ⟨isComponent_lib, List.forall_mem_singleton.mpr isComponent_python⟩)
  have hroot := B.normpath_root ["bin".toList] (by simp)
    (List.forall_mem_singleton.mpr hbin)
  have hmin := B.normpath_root ["bin".toList, "mingw".toList] (by simp)
    (List.forall_mem_cons.mpr ⟨hbin, List.forall_mem_singleton.mpr hmingw⟩)
  have hassoc : dirname (dirname B.home) ++ "\\bin".toList ++ "\\mingw".toList =
      dirname (dirname B.home) ++ ["bin".toList, "mingw".toList].flatMap ('\\' :: ·) := by
    rw [List.append_assoc]
    rfl
  simp only [extraPaths, List.map_cons, List.map_nil, hassoc, hmin]
  exact congrArg₂ _ hhome (congrArg₂ _ hroot (congrArg₂ _ rfl (congrArg₂ _ (hlib hqt4 hbin)
    (congrArg₂ _ (hlib hqt4 isComponent_lib) (congrArg₂ _ (hlib hqt5 hbin)
      (congrArg₂ _ (hlib hqt5 isComponent_lib) rfl))))))

/-- The directories that come before the one of Qt are other ones. -/
theorem normpath_ne_qtBin : ∀ e ∈ (extraPaths B.home).take 5, normpath e ≠ B.qtBin := by
  intro e he
  have hmem : normpath e ∈ ((extraPaths B.home).take 5).map normpath := List.mem_map_of_mem he
  rw [List.map_take, B.map_normpath_extraPaths] at hmem
  obtain ⟨names, hnames, heq⟩ := List.mem_map.mp (by rwa [← List.map_take] at hmem)
  rw [← heq, qtBin, drivePath_append, drivePath_append, ne_eq, List.append_cancel_left_eq]
  clear heq
  revert names
  exact forall_mem_of_all (by decide)

theorem home_eq : B.home = dirname B.home ++ "\\python3.8".toList := by
  have hnames : B.above ++ ["lib".toList, "python3.8".toList] =
      B.above ++ ["lib".toList] ++ ["python3.8".toList] := by simp
  rw [dirname_home, home, hnames]
  exact drivePath_append B.drive (B.above ++ ["lib".toList]) ["python3.8".toList]

theorem qtBin_eq : B.qtBin = dirname B.home ++ "\\qt5\\bin".toList := by
  have hnames : B.above ++ ["lib".toList, "qt5".toList, "bin".toList] =
      B.above ++ ["lib".toList] ++ ["qt5".toList, "bin".toList] := by simp
  rw [dirname_home, qtBin, hnames]
  exact drivePath_append B.drive (B.above ++ ["lib".toList]) ["qt5".toList, "bin".toList]

theorem normpath_qtBin : normpath B.qtBin = B.qtBin :=
  B.normpath_below _ (by simp) (List.forall_mem_cons.mpr ⟨isComponent_lib,
    List.forall_mem_cons.mpr ⟨isComponent_of (by decide),
      List.forall_mem_singleton.mpr (isComponent_of (by decide))⟩⟩)

theorem extraPaths_home : extraPaths B.home =
    (extraPaths B.home).take 5 ++ [B.qtBin, dirname B.home ++ "\\qt5\\lib".toList] := by
  rw [qtBin_eq]
  rfl

end Bundle

/-! ## The two lookups -/

/-- Windows takes a step down and the step up behind it out of a path. -/
def Resolves (m : Machine) : Prop :=
  ∀ d c rest : Text, IsComponent c →
    m.isFile (d ++ '\\' :: (c ++ '\\' :: (pardir ++ '\\' :: rest))) = m.isFile (d ++ '\\' :: rest)

section agree

variable {m : Machine} {B : Bundle}

theorem holds_development (hm : Resolves m) (B : Bundle) (name : Text) :
    holds m name (B.home ++ "\\..\\qt5\\bin".toList) = holds m name B.qtBin := by
  have h := hm (dirname B.home) "python3.8".toList ("qt5\\bin".toList ++ '\\' :: name)
    isComponent_python
  have hhome : B.home ++ "\\..\\qt5\\bin".toList ++ '\\' :: name =
      dirname B.home ++ '\\' :: ("python3.8".toList ++ '\\' :: (pardir ++ '\\' ::
        ("qt5\\bin".toList ++ '\\' :: name))) := by
    conv_lhs => rw [B.home_eq, List.append_assoc, List.append_assoc]
    rfl
  have hqtBin : B.qtBin ++ '\\' :: name =
      dirname B.home ++ '\\' :: ("qt5\\bin".toList ++ '\\' :: name) := by
    rw [B.qtBin_eq, List.append_assoc]
    rfl
  rw [holds, holds, hhome, hqtBin, h]

theorem normpath_development (B : Bundle) :
    normpath (B.home ++ "\\..\\qt5\\bin".toList) = B.qtBin := by
  have hqt5 : IsComponent "qt5".toList := isComponent_of (by decide)
  have hbin : IsComponent "bin".toList := isComponent_of (by decide)
  have hpath : B.home ++ "\\..\\qt5\\bin".toList = drivePath B.drive (B.above ++ ["lib".toList] ++
      "python3.8".toList :: pardir :: ["qt5".toList, "bin".toList]) := by
    conv_lhs => rw [B.home_eq, B.dirname_home, List.append_assoc]
    exact (drivePath_append B.drive (B.above ++ ["lib".toList])
      ["python3.8".toList, pardir, "qt5".toList, "bin".toList]).symm
  rw [hpath, normpath_parent B.isDrive (by simp), Bundle.qtBin, List.append_assoc]
  · rfl
  · exact List.forall_mem_append.mpr ⟨B.names_lib, List.forall_mem_cons.mpr ⟨isComponent_python,
      List.forall_mem_cons.mpr ⟨hqt5, List.forall_mem_singleton.mpr hbin⟩⟩⟩

theorem addDllDirectory_ok {d : Text} {p q : Process} (h : addDllDirectory m d p = (q, none)) :
    q = { p with dllDirs := p.dllDirs ++ [d] } := by
  rw [addDllDirectory] at h
  split at h
  · exact (Prod.mk.inj h).1.symm
  · cases (Prod.mk.inj h).2

/-- What find_qt registers, and the PATH that it leaves. -/
theorem findQt_ok {executable path d : Text} {p q : Process} (hp : p.path = some path)
    (hq : findQt m executable p = (q, none)) (hd : q.dllDirs = p.dllDirs ++ [d]) :
    (holds m qtCoreDll (dirname executable) = true ∧ d = dirname executable ∧
        q.path = some path) ∨
      (holds m qtCoreDll (dirname executable) = false ∧
        holds m qtCoreDll (dirname executable ++ "\\..\\qt5\\bin".toList) = true ∧
        d = dirname executable ++ "\\..\\qt5\\bin".toList ∧ q.path = some (d ++ ';' :: path)) ∨
      (holds m qtCoreDll (dirname executable) = false ∧
        holds m qtCoreDll (dirname executable ++ "\\..\\qt5\\bin".toList) = false ∧
        search m qtCoreDll path = some d ∧ q.path = some path) := by
  rw [findQt] at hq
  cases hbeside : holds m qtCoreDll (dirname executable) with
  | true =>
      rw [hbeside, if_pos rfl] at hq
      obtain rfl := addDllDirectory_ok hq
      obtain rfl := List.singleton_inj.mp (List.append_cancel_left hd)
      exact .inl ⟨rfl, rfl, hp⟩
  | false =>
      rw [hbeside, if_neg Bool.false_ne_true, hp] at hq
      change (if holds m qtCoreDll _ = true then _ else _) = _ at hq
      cases hqt : holds m qtCoreDll (dirname executable ++ "\\..\\qt5\\bin".toList) with
      | true =>
          rw [hqt] at hq
          obtain rfl := addDllDirectory_ok hq
          obtain rfl := List.singleton_inj.mp (List.append_cancel_left hd)
          exact .inr (.inl ⟨rfl, rfl, rfl, rfl⟩)
      | false =>
          rw [hqt] at hq
          cases hfound : search m qtCoreDll path with
          | none =>
              rw [hfound] at hq
              obtain rfl := (Prod.mk.inj hq).1
              exact absurd hd (by simp)
          | some e =>
              rw [hfound] at hq
              obtain rfl := addDllDirectory_ok hq
              obtain rfl := List.singleton_inj.mp (List.append_cancel_left hd)
              exact .inr (.inr ⟨rfl, rfl, rfl, hp⟩)

end agree

/-- A bundle in `C:\Mantid`. -/
def mantid : Bundle where
  drive := ['C', ':']
  above := ["Mantid".toList]
  isDrive := .letter rfl
  names := List.forall_mem_singleton.mpr (isComponent_of (by decide))

/-- The library in the directory of Qt, and in the one for the programs of the
bundle. -/
def twoLibraries : Machine where
  isFile p := normComps true [] (p.splitOn '\\') ∈
    [["C:".toList, "Mantid".toList, "bin".toList, qtCoreDll],
      ["C:".toList, "Mantid".toList, "lib".toList, "qt5".toList, "bin".toList, qtCoreDll]]
  isDir _ := true
  accepts _ := true
  isDir_of_isFile _ _ _ := rfl

theorem resolves_twoLibraries : Resolves twoLibraries := by
  intro d c rest hc
  have hdots : '\\' ∉ pardir := by decide
  simp only [twoLibraries]
  rw [List.splitOn_append_cons_self, List.splitOn_append_cons_self_of_not_mem hc.notMem.1,
    List.splitOn_append_cons_self_of_not_mem hdots, normComps_append_parent hc,
    List.splitOn_append_cons_self]

end Startup
