/-
Logging: the levels with their names, and the level at which a program logs. A level is given by number or by name, in
small or capital letters; an unknown name stands for the level of information.
-/
import FederatedAgreement.Fault

namespace FederatedAgreement

/-! ## Capital letters

As far as a name in plain letters can be reached: the small letters a to z and the few further characters whose capital
form consists of A to Z. Every other character stays as it is, so a text becomes such a name exactly when its full capital
form is that name. -/

namespace Text

/-- the capital form of a character where that form is within A to Z, else the character -/
def capital (c : Char) : List Char :=
  if 'a' ≤ c && c ≤ 'z' then [Char.ofNat (c.toNat - 32)]
  else match c.toNat with
    | 0xdf => ['S', 'S']
    | 0x131 => ['I']
    | 0x17f => ['S']
    | 0xfb00 => ['F', 'F']
    | 0xfb01 => ['F', 'I']
    | 0xfb02 => ['F', 'L']
    | 0xfb03 => ['F', 'F', 'I']
    | 0xfb04 => ['F', 'F', 'L']
    | 0xfb05 => ['S', 'T']
    | 0xfb06 => ['S', 'T']
    | _ => [c]

/-- a text in capital letters -/
def capitals (s : String) : String := String.ofList (s.toList.flatMap capital)

example : capitals "warnıng" = "WARNING" := by decide

end Text

/-! ## Levels -/

/-- how much is logged -/
inductive LogLevel where
  | critical
  | fatal
  | error
  | warn
  | warning
  | info
  | debug
  | notset
deriving DecidableEq, Repr

namespace LogLevel

def all : List LogLevel := [.critical, .fatal, .error, .warn, .warning, .info, .debug, .notset]

def name : LogLevel → String
  | .critical => "CRITICAL"
  | .fatal => "FATAL"
  | .error => "ERROR"
  | .warn => "WARN"
  | .warning => "WARNING"
  | .info => "INFO"
  | .debug => "DEBUG"
  | .notset => "NOTSET"

/-- the number of a level; two names may share one -/
def number : LogLevel → Nat
  | .critical | .fatal => 50
  | .error => 40
  | .warn | .warning => 30
  | .info => 20
  | .debug => 10
  | .notset => 0

/-- the level of a name in small or capital letters -/
def ofName? (s : String) : Option LogLevel := all.find? (·.name = Text.capitals s)

end LogLevel

/-! ## The level that is set -/

namespace Logging

/-- the level that is kept for a given one: a number or a truth value as it is, the number of a name in small or capital
letters, that of warnings if none is given; two names belong to constants that are no level -/
def level : Document → Except Fault Scalar
  | .null => .ok (.int LogLevel.warning.number)
  | .bool b => .ok (.bool b)
  | .int n => .ok (.int n)
  | .text s =>
    match LogLevel.ofName? s with
    | some level => .ok (.int level.number)
    | none =>
      if Text.capitals s = "BASIC_FORMAT" then .error (.unknownLevel "%(levelname)s:%(name)s:%(message)s")
      else if Text.capitals s = "_STYLES" then .error (.unreadable .wrongKind)
      else .ok (.int LogLevel.info.number)
  | _ => .error (.unreadable .wrongKind)

/-- the log is always shown, and also written to a file if a folder is given -/
def handlerCount (toFolder : Bool) : Nat := if toFolder then 2 else 1

end Logging

end FederatedAgreement
