import ThirdpartyMsvc.Python.ReSub

/-!
# The scripts that make a generated config relocatable

patch-sipconfig.py and patch-pyqtconfig.py read a config, find the line that
holds the build prefix, build a pattern from the prefix and print every line
with the matches of the pattern rewritten. The engine that compiles and scans
the patterns built from file contents is a parameter; `sre` is Python's own.
-/

namespace Config

open Python Text

/-- What the scripts use of the module re. A pattern that does not compile is
`none`. -/
structure Engine where
  Re : Type
  compile : Text → Option Re
  scan : Re → Text → List (Char ⊕ Groups)

/-- The engine of Python, over the classes of a character table. -/
def sre (T : CharTable) : Engine where
  Re := Pattern
  compile p := (compile false p).toOption
  scan := Pattern.scan T

/-- The exceptions of the scripts: RuntimeError with the pattern of the line it
misses, re.error, and the TypeError of a text and None. -/
inductive PatchError where
  | noPrefixLine (cfgLineRe : Text)
  | badPattern (pattern : Text)
  | typeError
deriving DecidableEq, Repr

/-! ## The prefix line -/

def spaces : Regex CharSet := .star (.sat ⟨false, [.category .space false]⟩)

def literal (c : Char) : Regex CharSet := .sat (.literal c)

/-- The pattern of a line that holds the value of `key`. -/
def keyLineRe (key : Text) : Pattern where
  re := .concat ([.bos, spaces, literal '\''] ++ key.map literal ++
    [literal '\'', literal ':', spaces, literal '\'', .group 1 (.concat [.star (.sat .any)]),
      literal '\'', literal ',', spaces, .eos (.literal '\n')])
  names := []

def installPrefixReText : Text := "^\\s*'default_bin_dir':\\s*'(.*)',\\s*$".toList

def installPrefixRe : Pattern := keyLineRe "default_bin_dir".toList

def pyInstallPrefixReText : Text := "^\\s*'pyqt_bin_dir':\\s*'(.*)',\\s*$".toList

def pyInstallPrefixRe : Pattern := keyLineRe "pyqt_bin_dir".toList

def qtInstallPrefixReText : Text := "^\\s*'qt_dir':\\s*'(.*)',\\s*$".toList

def qtInstallPrefixRe : Pattern := keyLineRe "qt_dir".toList

theorem compile_installPrefixReText :
    compile false installPrefixReText = .ok installPrefixRe := by
  decide +kernel

theorem compile_pyInstallPrefixReText :
    compile false pyInstallPrefixReText = .ok pyInstallPrefixRe := by
  decide +kernel

theorem compile_qtInstallPrefixReText :
    compile false qtInstallPrefixReText = .ok qtInstallPrefixRe := by
  decide +kernel

/-- The first group of the first line that matches. -/
def installPrefix (T : CharTable) (cfgLineRe : Pattern) : List Text → Option Text
  | [] => none
  | line :: content =>
      match cfgLineRe.match_ T line with
      | some m => m.group 1
      | none => installPrefix T cfgLineRe content

/-! ## The pattern of the prefix -/

/-- The escaping by hand: backslashes first, then periods. -/
def escapePrefix (installPrefix : Text) : Text :=
  replaceChar '.' ['\\', '.'] (replaceChar '\\' ['\\', '\\'] installPrefix)

def prefixPattern (installPrefix tail : Text) : Text :=
  '\'' :: (escapePrefix installPrefix ++ tail)

/-- An optional separator, and the rest up to the last quotation mark. -/
def sipTail : Text := "(\\\\\\\\)?(.*)'".toList

def pyqtTail : Text := "((\\\\\\\\)|/)?(.*)'".toList

section scripts

variable (E : Engine) (T : CharTable)

/-- The pattern for the prefix in the first line that `cfgLineRe` matches. -/
def createPrefixRe (cfgLineRe : Pattern) (cfgLineText tail : Text) (content : List Text) :
    Except PatchError E.Re :=
  match installPrefix T cfgLineRe content with
  | none => .error (.noPrefixLine cfgLineText)
  | some p =>
      match E.compile (prefixPattern p tail) with
      | none => .error (.badPattern (prefixPattern p tail))
      | some re => .ok re

/-- create_regex of patch-sipconfig.py. -/
def createRegex (content : List Text) : Except PatchError E.Re :=
  createPrefixRe E T installPrefixRe installPrefixReText sipTail content

/-- create_install_prefix_re of patch-pyqtconfig.py. -/
def createInstallPrefixRe (cfgLineRe : Pattern) (cfgLineText : Text) (content : List Text) :
    Except PatchError E.Re :=
  createPrefixRe E T cfgLineRe cfgLineText pyqtTail content

def createPyInstallPrefixRe (content : List Text) : Except PatchError E.Re :=
  createInstallPrefixRe E T pyInstallPrefixRe pyInstallPrefixReText content

def createQtInstallPrefixRe (content : List Text) : Except PatchError E.Re :=
  createInstallPrefixRe E T qtInstallPrefixRe qtInstallPrefixReText content

/-! ## Lines -/

/-- The replacement of a match: `base` without a separator, and with one `join`
and the group `rest`. -/
def repl (separator : List ℕ) (rest : ℕ) (base join : Text) (m : Groups) :
    Except PatchError Text :=
  if separator.all fun i => (m i).isNone then .ok base
  else
    match m rest with
    | none => .error .typeError
    | some t => .ok (join ++ (t ++ ['\'', ')']))

def sysPrefix : Text := "sys.prefix".toList

def joinSysPrefix : Text := "os.path.join(sys.prefix, '".toList

def qtDir : Text := "os.path.join(sys.prefix, '..', 'qt4')".toList

def joinQtDir : Text := "os.path.join(sys.prefix, '..', 'qt4', '".toList

def patchLine (line : Text) (regex : E.Re) : Except PatchError Text :=
  substitute (repl [1] 2 sysPrefix joinSysPrefix) (E.scan regex line)

def patchSysPrefixLine (line : Text) (regex : E.Re) : Except PatchError Text :=
  substitute (repl [1, 2] 3 sysPrefix joinSysPrefix) (E.scan regex line)

def patchQtDirLine (line : Text) (regex : E.Re) : Except PatchError Text :=
  substitute (repl [1, 2] 3 qtDir joinQtDir) (E.scan regex line)

/-! ## The loops of the scripts -/

/-- What a script has printed, line by line, and the exception that ended it. -/
structure Outcome where
  printed : List Text
  error : Option PatchError
deriving DecidableEq, Repr

/-- Prints the lines that `f` makes, up to the first one that raises. -/
def printLines (f : Text → Except PatchError Text) : List Text → Outcome
  | [] => ⟨[], none⟩
  | line :: lines =>
      match f line with
      | .error e => ⟨[], some e⟩
      | .ok out => ⟨out :: (printLines f lines).printed, (printLines f lines).error⟩

/-- The main part of patch-sipconfig.py. -/
def patchSipconfig (lines : List Text) : Outcome :=
  match createRegex E T lines with
  | .error e => ⟨[], some e⟩
  | .ok regex => printLines (fun line => patchLine E (rstrip T.space line) regex) lines

def importSipconfig : Text := "import sipconfig".toList

def pyqtKey : Text := "'pyqt_".toList

def imports : Text := "\nimport os\nimport sys".toList

/-- One line of patch-pyqtconfig.py, without the white space at its end. -/
def patchPyqtLine (sysPrefixRe qtPrefixRe : E.Re) (line : Text) : Except PatchError Text :=
  if contains importSipconfig line then .ok (line ++ imports)
  else if contains pyqtKey line then patchSysPrefixLine E line sysPrefixRe
  else patchQtDirLine E line qtPrefixRe

/-- The main part of patch-pyqtconfig.py. -/
def patchPyqtconfig (lines : List Text) : Outcome :=
  match createPyInstallPrefixRe E T lines with
  | .error e => ⟨[], some e⟩
  | .ok sysPrefixRe =>
      match createQtInstallPrefixRe E T lines with
      | .error e => ⟨[], some e⟩
      | .ok qtPrefixRe =>
          printLines (fun line => patchPyqtLine E sysPrefixRe qtPrefixRe (rstrip T.space line))
            lines

end scripts

end Config
