import ThirdpartyMsvc.Launcher.ExportEntry
import ThirdpartyMsvc.Regex.Lazy

/-!
# The launchers of pip

get_entrypoints of pip's wheel.py, with the parts of pkg_resources that it
calls, and the specifications that it hands to the script maker of distlib. The
entry-point file goes through a dictionary of sections, each entry through the
pattern of `EntryPoint`, and the entries come back as texts that distlib reads
with its own pattern.

What pkg_resources makes of the extras of an entry is a parameter, and so are
the digits of the Unicode database.
-/

namespace Wheel

open Python Regex Text Launcher

/-- The exceptions of an installation. Those of pkg_resources are all
ValueErrors. -/
inductive InstallError where
  | valueError
  | invalidSpecification (specification : Text)
  | installationError
deriving DecidableEq, Repr

/-! ## Lines and sections -/

/-- The characters at which splitlines ends a line. -/
def isLineBreak (c : Char) : Bool :=
  ['\n', '\r', '\x0b', '\x0c', '\x1c', '\x1d', '\x1e', '\u0085', '\u2028', '\u2029'].contains c

/-- str.splitlines. -/
def splitlines : Text → List Text
  | [] => []
  | '\r' :: '\n' :: t => [] :: splitlines t
  | c :: t =>
      if isLineBreak c then [] :: splitlines t
      else match splitlines t with
        | [] => [[c]]
        | l :: ls => (c :: l) :: ls

/-- The non-empty lines of a text that are no comments. -/
def yieldText (T : CharTable) (t : Text) : List Text :=
  ((splitlines t).map (strip T.space)).filter fun s => s ≠ [] && s.head? != some '#'

/-- yield_lines of a sequence of texts. -/
def yieldLines (T : CharTable) (strs : List Text) : List Text := strs.flatMap (yieldText T)

/-- The loop of split_sections, with the open section and its content. -/
def splitSections (T : CharTable) :
    Option Text → List Text → List Text → Except InstallError (List (Option Text × List Text))
  | open_, content, [] => .ok [(open_, content)]
  | open_, content, line :: lines =>
      if line.head? = some '[' then
        if line.getLast? = some ']' then do
          let rest ← splitSections T (some (strip T.space (line.drop 1).dropLast)) [] lines
          return (if open_.any (· ≠ []) ∨ content ≠ [] then [(open_, content)] else []) ++ rest
        else .error .valueError
      else splitSections T open_ (content ++ [line]) lines

/-! ## EntryPoint of pkg_resources -/

structure Point where
  name : Text
  moduleName : Text
  attrs : List Text
  extras : List Text
deriving DecidableEq, Repr

/-- str of an EntryPoint. -/
def Point.str (p : Point) : Text :=
  p.name ++ " = ".toList ++ p.moduleName ++ (if p.attrs = [] then [] else ':' :: dotted p.attrs) ++
    if p.extras = [] then [] else " [".toList ++ List.intercalate [','] p.extras ++ [']']

/-- The text of the pattern behind the name. -/
def behindNameText : Text :=
  "\\s*=\\s*(?P<module>[\\w.]+)\\s*(:\\s*(?P<attr>[\\w.]+))?\\s*(?P<extras>\\[.*\\])?\\s*$".toList

def pathRe : Regex CharSet := sat ⟨false, [.category .word false, .literal '.']⟩

def attrRe : Regex CharSet :=
  opt (group 2 (concat [literalRe ':', star spaceRe, group 3 (concat [plus pathRe])]))

def extrasRe : Regex CharSet :=
  opt (group 4 (concat [literalRe '[', star (sat .any), literalRe ']']))

def behindNameRe : Pattern where
  re := concat [star spaceRe, literalRe '=', star spaceRe, group 1 (concat [plus pathRe]),
    star spaceRe, attrRe, star spaceRe, extrasRe, star spaceRe, eos (.literal '\n')]
  names := [("extras".toList, 4), ("attr".toList, 3), ("module".toList, 1)]

theorem compile_behindNameText : compile false behindNameText = .ok behindNameRe := by
  decide +kernel

/-- EntryPoint.pattern: white space, the name as short as possible, and the
rest. The groups of the rest are numbered from one. -/
def matchPoint (T : CharTable) (src : Text) : Option (Text × Cursor Char) :=
  run (CharSet.mem T) (star spaceRe) ⟨[], src, []⟩ fun c =>
    runLazyPlus (CharSet.mem T) (sat .any) c fun d =>
      (run (CharSet.mem T) behindNameRe.re ⟨d.before, d.after, []⟩ some).map fun m =>
        ((d.before.take (d.before.length - c.before.length)).reverse, m)

def moduleText : Text := "\\w+(\\.\\w+)*$".toList

def moduleRe : Pattern where
  re := concat [plus wordRe, star (group 1 (concat [literalRe '.', plus wordRe])),
    eos (.literal '\n')]
  names := []

theorem compile_moduleText : compile false moduleText = .ok moduleRe := by
  decide +kernel

/-- MODULE. -/
def isModule (T : CharTable) (t : Text) : Bool := (moduleRe.match_ T t).isSome

section parse

variable (T : CharTable) (parseExtras : Text → Except InstallError (List Text))

/-- EntryPoint.parse. -/
def parse (src : Text) : Except InstallError Point :=
  match matchPoint T src with
  | none => .error .valueError
  | some (name, m) => do
      let extras ← match behindNameRe.namedGroup m "extras".toList with
        | none => .ok []
        | some spec => parseExtras spec
      let attrs := match behindNameRe.namedGroup m "attr".toList with
        | none => []
        | some attr => attr.splitOn '.'
      let moduleName := (behindNameRe.namedGroup m "module".toList).getD []
      if isModule T moduleName then return ⟨name, moduleName, attrs, extras⟩
      else .error .valueError

/-- The loop of parse_group, with the dictionary that it fills. -/
def parseLines : List (Text × Point) → List Text → Except InstallError (List (Text × Point))
  | this, [] => .ok this
  | this, line :: lines => do
      let ep ← parse T parseExtras line
      if this.any (·.1 = ep.name) then .error .valueError
      else parseLines (this ++ [(ep.name, ep)]) lines

/-- EntryPoint.parse_group. -/
def parseGroup (name : Text) (lines : List Text) : Except InstallError (List (Text × Point)) :=
  if isModule T name then parseLines T parseExtras [] (yieldLines T lines) else .error .valueError

/-- The loop of parse_map, with the dictionary that it fills. -/
def parseSections : List (Text × List (Text × Point)) → List (Option Text × List Text) →
    Except InstallError (List (Text × List (Text × Point)))
  | maps, [] => .ok maps
  | maps, (none, lines) :: data =>
      if lines = [] then parseSections maps data else .error .valueError
  | maps, (some name, lines) :: data =>
      let name := strip T.space name
      if maps.any (·.1 = name) then .error .valueError
      else do
        let points ← parseGroup T parseExtras name lines
        parseSections (maps ++ [(name, points)]) data

/-- EntryPoint.parse_map of the lines of a file. -/
def parseMap (lines : List Text) : Except InstallError (List (Text × List (Text × Point))) := do
  let data ← splitSections T none [] (yieldLines T lines)
  parseSections T parseExtras [] data

end parse

/-! ## get_entrypoints -/

/-- _split_ep, as an item of a dictionary. -/
def splitEp (p : Point) : Except InstallError (Text × Text) :=
  match (p.str.filter (· ≠ ' ')).splitOn '=' with
  | [name, spec] => .ok (name, spec)
  | _ => .error .valueError

/-- A dictionary with one more item. -/
def insertItem (items : List (Text × Text)) (kv : Text × Text) : List (Text × Text) :=
  if items.any (·.1 = kv.1) then items.map fun old => if old.1 = kv.1 then kv else old
  else items ++ [kv]

/-- The names of a section with the texts of their entries. -/
def scriptsOf (maps : List (Text × List (Text × Point))) (name : Text) :
    Except InstallError (List (Text × Text)) := do
  let items ← (((maps.lookup name).getD []).map Prod.snd).mapM splitEp
  return items.foldl insertItem []

/-- get_entrypoints, on the text of the file: the console and the gui scripts. -/
def getEntrypoints (T : CharTable) (parseExtras : Text → Except InstallError (List Text))
    (text : Text) : Except InstallError (List (Text × Text) × List (Text × Text)) := do
  let data := unlines ((readLines text).map (strip T.space))
  let maps ← parseMap T parseExtras (splitLines data)
  let console ← scriptsOf maps "console_scripts".toList
  let gui ← scriptsOf maps "gui_scripts".toList
  return (console, gui)

/-! ## The specifications -/

/-- What move_wheel_files looks at beside the file: the digits, sys.version and
the variable ENSUREPIP_OPTIONS. -/
structure Environment where
  digit : Char → Bool
  version : Text
  ensurepip : Option Text

namespace Environment

variable (env : Environment)

/-- The pattern of the versioned names of pip. -/
def isPipName (name : Text) : Bool :=
  "pip".toList.isPrefixOf name && match name.drop 3 with
    | [] => true
    | [d] => env.digit d
    | [d, '.', d'] => env.digit d && env.digit d'
    | _ => false

/-- The pattern of the versioned names of easy_install. -/
def isEasyInstallName (name : Text) : Bool :=
  "easy_install".toList.isPrefixOf name && match name.drop 12 with
    | [] => true
    | ['-', d, '.', d'] => env.digit d && env.digit d'
    | _ => false

def specification (name spec : Text) : Text := name ++ " = ".toList ++ spec

/-- The scripts that are made for pip, and the scripts that remain. -/
def pipScripts (console : List (Text × Text)) : List Text × List (Text × Text) :=
  let rest := console.filter (·.1 ≠ "pip".toList)
  match console.lookup "pip".toList with
  | none => ([], rest)
  | some spec =>
      if spec = [] then ([], rest)
      else
        ((if env.ensurepip = none then [specification "pip".toList spec] else []) ++
          (if env.ensurepip.getD [] ≠ "altinstall".toList then
            [specification ("pip".toList ++ env.version.take 1) spec] else []) ++
          [specification ("pip".toList ++ env.version.take 3) spec],
        rest.filter fun kv => !env.isPipName kv.1)

/-- The scripts that are made for easy_install, and the scripts that remain. -/
def easyInstallScripts (console : List (Text × Text)) : List Text × List (Text × Text) :=
  let rest := console.filter (·.1 ≠ "easy_install".toList)
  match console.lookup "easy_install".toList with
  | none => ([], rest)
  | some spec =>
      if spec = [] then ([], rest)
      else
        ((if env.ensurepip = none then [specification "easy_install".toList spec] else []) ++
          [specification ("easy_install-".toList ++ env.version.take 3) spec],
        rest.filter fun kv => !env.isEasyInstallName kv.1)

/-- The specifications that move_wheel_files hands to the script maker. -/
def specifications (console gui : List (Text × Text)) : List Text :=
  let (pip, console) := env.pipScripts console
  let (easyInstall, console) := env.easyInstallScripts console
  pip ++ easyInstall ++ console.map (fun kv => specification kv.1 kv.2) ++
    gui.map fun kv => specification kv.1 kv.2

end Environment

/-- make of the script maker, with the _get_script_text of pip. A specification
that is no export names a script to copy, and makes no launcher. -/
def make (T : CharTable) (specification : Text) : Except InstallError (List ExportEntry) :=
  match getExportEntry T specification with
  | .error (.invalidSpecification s) => .error (.invalidSpecification s)
  | .ok none => .ok []
  | .ok (some e) => if e.suffix = none then .error .installationError else .ok [e]

/-- make_multiple. -/
def makeMultiple (T : CharTable) : List Text → Except InstallError (List ExportEntry)
  | [] => .ok []
  | spec :: specs => do
      let made ← make T spec
      let rest ← makeMultiple T specs
      return made ++ rest

/-- The launchers that pip makes for a wheel with the entry-point file `text`. -/
def launchers (T : CharTable) (parseExtras : Text → Except InstallError (List Text))
    (env : Environment) (text : Text) : Except InstallError (List ExportEntry) := do
  let (console, gui) ← getEntrypoints T parseExtras text
  makeMultiple T (env.specifications console gui)

end Wheel
