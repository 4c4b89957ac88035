import ThirdpartyMsvc.Python.Module

/-!
# The exit status of a Python program

A program that runs to its end has the status 0, and one that ends with an
uncaught exception the status of that exception: 1, or for SystemExit what its
code says. A status is a word of 32 bits, and an integer that is no C long of
Windows has the status -1.
-/

namespace Python

/-- What sys.exit looks at in its argument. The integers contain True and
False. -/
inductive ExitCode where
  | none
  | int (n : ℤ)
  | other
deriving DecidableEq, Repr

/-- An exception that is not caught. -/
inductive Raised where
  | systemExit (code : ExitCode)
  | other
deriving DecidableEq, Repr

/-- How the call of a function ends. -/
inductive Outcome where
  | returns (value : ExitCode)
  | raises (e : Raised)
deriving DecidableEq, Repr

abbrev Status : Type := BitVec 32

def ExitCode.status : ExitCode → Status
  | none => 0
  | int n => if -2147483648 ≤ n ∧ n < 2147483648 then BitVec.ofInt 32 n else BitVec.allOnes 32
  | other => 1

def Raised.status : Raised → Status
  | systemExit code => code.status
  | other => 1

/-- The status of a process, by the exception that ended its program. -/
def processStatus : Option Raised → Status
  | none => 0
  | some e => e.status

def Outcome.raised : Outcome → Option Raised
  | returns _ => none
  | raises e => some e

/-- `sys.exit(func())`: the exception that it ends with. -/
def sysExit : Outcome → Raised
  | .returns value => .systemExit value
  | .raises e => e

/-- The first exception among the calls of a run. -/
def firstRaised (calls : Obj → Outcome) : List Event → Option Raised
  | [] => none
  | .call f :: es => (calls f).raised.or (firstRaised calls es)
  | .importModule _ :: es => firstRaised calls es
  | .getAttr _ _ :: es => firstRaised calls es

/-- The status of running a text as a program. Imports succeed; a SyntaxError
and a NameError are exceptions like others. -/
def programStatus (T : CharTable) (calls : Obj → Outcome) (text : Text) : Status :=
  match (parseModule T text).bind Block.run with
  | none => Raised.other.status
  | some es => processStatus (firstRaised calls es)

theorem ofInt_eq_iff {n m : ℤ} (hn : -2147483648 ≤ n ∧ n < 2147483648)
    (hm : -2147483648 ≤ m ∧ m < 2147483648) :
    BitVec.ofInt 32 n = BitVec.ofInt 32 m ↔ n = m := by
  constructor
  · intro h
    have hint := congrArg BitVec.toInt h
    rwa [BitVec.toInt_ofInt_eq_self (by decide) (by simpa using hn.1) (by simpa using hn.2),
      BitVec.toInt_ofInt_eq_self (by decide) (by simpa using hm.1) (by simpa using hm.2)] at hint
  · rintro rfl
    rfl

/-- An integer has a status other than -1 only if it is that status. -/
theorem ExitCode.status_int_eq_iff (n m : ℤ) (hm : 0 ≤ m ∧ m < 2147483648) :
    (int n).status = BitVec.ofInt 32 m ↔ n = m := by
  rw [ExitCode.status]
  split
  case isTrue hn => exact ofInt_eq_iff hn (by omega)
  case isFalse hn =>
    have hones : BitVec.allOnes 32 = BitVec.ofInt 32 (-1) := by decide
    rw [hones, ofInt_eq_iff (by omega) (by omega)]
    omega

theorem ExitCode.status_eq_zero_iff (v : ExitCode) : v.status = 0 ↔ v = none ∨ v = int 0 := by
  cases v with
  | none => simp [status]
  | other => simp [status]
  | int n => simpa using status_int_eq_iff n 0 (by omega)

theorem ExitCode.status_eq_one_iff (v : ExitCode) : v.status = 1 ↔ v = int 1 ∨ v = other := by
  cases v with
  | none => simp [status]
  | other => simp [status]
  | int n => simpa using status_int_eq_iff n 1 (by omega)

/-- The outcomes that a program may drop: an exception that ends it anyway, and
the results that stand for success. -/
def Outcome.Droppable : Outcome → Prop
  | .returns value => value = .none ∨ value = .int 0
  | .raises _ => True

/-- The outcomes that sys.exit turns into the status of an error. -/
def Outcome.Errs : Outcome → Prop
  | .returns value => value = .int 1 ∨ value = .other
  | .raises (.systemExit code) => code = .int 1 ∨ code = .other
  | .raises .other => True

/-- Calling a function and dropping its result keeps the status exactly when
the outcome is droppable. -/
theorem processStatus_raised_eq_iff (o : Outcome) :
    processStatus o.raised = (sysExit o).status ↔ o.Droppable := by
  cases o with
  | raises e => simp [Outcome.raised, sysExit, processStatus, Outcome.Droppable]
  | returns value => exact eq_comm.trans value.status_eq_zero_iff

theorem one_eq_status_sysExit_iff (o : Outcome) : 1 = (sysExit o).status ↔ o.Errs := by
  rw [eq_comm]
  cases o with
  | returns value => exact value.status_eq_one_iff
  | raises e =>
      cases e with
      | systemExit code => exact code.status_eq_one_iff
      | other => simp [sysExit, Raised.status, Outcome.Errs]

end Python
