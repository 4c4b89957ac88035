import ThirdpartyMsvc.Fetch.Script
import ThirdpartyMsvc.Store.Files

/-!
# Packages and the tools that fetch them

A package is an archive with its suffix, the bytes of the remote file and what
is inside. curl and 7z may stop at any point: curl then leaves a part of the
bytes, and 7z a part of the tar file or of the extracted files. 7z succeeds on
complete archives only.
-/

namespace Fetch

open Shell Store

inductive Format where
  | zip
  | tarGz
  | tarBz2
deriving DecidableEq, Repr

def Format.suffix : Format → Text
  | .zip => ".zip".toList
  | .tarGz => ".tar.gz".toList
  | .tarBz2 => ".tar.bz2".toList

/-- The parts of the suffix that the scripts erase from the path. -/
def Format.erased : Format → List Text
  | .zip => [".zip".toList]
  | .tarGz => [".tar.gz".toList, ".gz".toList]
  | .tarBz2 => [".tar.bz2".toList, ".bz2".toList]

/-- A source package. Its top directory is `stem`, the path of the archive
without the suffix, and nothing that the scripts erase begins inside `stem`. -/
structure Package (φ : Type) where
  stem : Text
  format : Format
  remote : List UInt8
  tar : List UInt8
  contents : Set φ
  stem_plain : ∀ w ∈ format.erased, ∀ u v, stem = u ++ v → v ≠ [] →
    beginsWith w (v ++ format.suffix) = false

/-- A file, or a directory with the files in it. -/
inductive Node (φ : Type) where
  | file (bytes : List UInt8)
  | dir (files : Set φ)

/-- The files and directories by their paths. -/
abbrev Disk (φ : Type) := Files Text (Node φ)

/-- What is left of `full` when the tool that writes it stops. -/
inductive Node.Part {φ : Type} : Node φ → Node φ → Prop
  | file {w bytes : List UInt8} : w <+: bytes → w ≠ bytes → Part (.file w) (.file bytes)
  | dir {S files : Set φ} : S ⊆ files → Part (.dir S) (.dir files)

namespace Package

variable {φ : Type} (p : Package φ)

def archive : Text := p.stem ++ p.format.suffix

def tarfile : Text := p.stem ++ ".tar".toList

/-- What 7z makes of an archive: the bytes of the complete archive, the path that
it writes and the complete result. -/
def unpacked (path : Text) : Option (List UInt8 × Text × Node φ) :=
  if path = p.archive then
    if p.format = .zip then some (p.remote, p.stem, .dir p.contents)
    else some (p.remote, p.tarfile, .file p.tar)
  else if path = p.tarfile ∧ p.format ≠ .zip then some (p.tar, p.stem, .dir p.contents)
  else none

/-- One call of a tool, with the success that it reports. -/
inductive Step : Call → Bool → Disk φ → Disk φ → Prop
  | downloaded (output : Text) (s : Disk φ) :
      Step (.curl output) true s (write output (.file p.remote) s)
  | downloadFailed (output : Text) (s : Disk φ) : Step (.curl output) false s s
  | downloadCut (output : Text) (s : Disk φ) {part : Node φ} : part.Part (.file p.remote) →
      Step (.curl output) false s (write output part s)
  | extracted {path target : Text} {s : Disk φ} {bytes : List UInt8} {full : Node φ} :
      p.unpacked path = some (bytes, target, full) → s path = some (.file bytes) →
        Step (.sevenZip path) true s (write target full s)
  | extractFailed (path : Text) (s : Disk φ) : Step (.sevenZip path) false s s
  | extractCut {path target : Text} {s : Disk φ} {bytes : List UInt8} {full part : Node φ} :
      p.unpacked path = some (bytes, target, full) → s path ≠ none → part.Part full →
        Step (.sevenZip path) false s (write target part s)

/-- `if exist path`. -/
def Present (path : Text) (s : Disk φ) : Prop := s path ≠ none

/-- One run of download-and-extract.cmd. -/
def FetchRun (ok : Bool) (s s' : Disk φ) : Prop :=
  Run Present p.Step (downloadAndExtract p.archive) ok s s'

/-- Any number of runs. -/
def FetchHistory (s s' : Disk φ) : Prop :=
  History Present p.Step (downloadAndExtract p.archive) s s'

/-- Nothing of the package is there. -/
structure Fresh (s : Disk φ) : Prop where
  archive : s p.archive = none
  tarfile : s p.tarfile = none
  stem : s p.stem = none

/-- The extracted directory has the complete contents. -/
def Full (s : Disk φ) : Prop := s p.stem = some (.dir p.contents)

end Package

end Fetch
