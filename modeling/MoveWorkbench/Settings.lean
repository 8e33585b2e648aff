import MoveWorkbench.Number.Binary64
import MoveWorkbench.Text.Blank
import MoveWorkbench.Text.Digit
import MoveWorkbench.Text.Leading
import MoveWorkbench.Text.Lines

/-!
Settings from the variables of an environment. A variable that is missing or makes no
sense leaves its default.
-/

namespace MoveWorkbench

abbrev Environment := List (String × String)

namespace Settings

def maxIntegerDigits : Nat := 4300

/-- Digits of any script with single underscores between them. -/
def separatedDigits? : List Char → Option (List Nat)
  | [] => none
  | [c] => (Text.decimalDigit? c).map ([·])
  | c :: '_' :: cs => do return (← Text.decimalDigit? c) :: (← separatedDigits? cs)
  | c :: cs => do return (← Text.decimalDigit? c) :: (← separatedDigits? cs)

/-- An integer with an optional sign and white space around it. -/
def integer? (s : String) : Option Int :=
  let (negative, cs) := match Text.trimBoth Text.isWhite s.toList with
    | '-' :: cs => (true, cs)
    | '+' :: cs => (false, cs)
    | cs => (false, cs)
  match separatedDigits? cs with
  | none => none
  | some ds =>
    if maxIntegerDigits < ds.length then none
    else some (if negative then -Text.ofDigits 10 ds else Text.ofDigits 10 ds)

/-- An integer variable. -/
def integer (env : Environment) (name : String) (default : Int) : Int :=
  ((env.lookup name).bind integer?).getD default

/-- The parts of a list that is separated by commas, without blanks around them and
without empty ones. -/
def commaList (s : String) : List String :=
  ((Text.split ',' s.toList).map Text.trimBlanks).filter (· ≠ []) |>.map String.ofList

/-- A capital letter. Two letters beyond ASCII have an ASCII one as their capital. -/
def capital (c : Char) : Char :=
  if c.toNat = 0x131 then 'I' else if c.toNat = 0x17f then 'S' else c.toUpper

def logLevels : List (String × Nat) := [
  ("DEBUG", 10), ("INFO", 20), ("WARN", 30), ("WARNING", 30), ("ERROR", 40), ("CRITICAL", 50),
  ("FATAL", 50), ("NOTSET", 0)]

/-- The level with a name, in capitals or not. Warnings are logged where the name is
unknown. -/
def levelNumber (name : String) : Nat :=
  (logLevels.lookup (String.ofList (name.toList.map capital))).getD 30

end Settings

/-- Ages and intervals are in seconds. -/
structure Settings where
  origins : List String
  analysisMaxAge : Int
  analysisSweepInterval : Int
  designMaxAge : Int
  designSweepInterval : Int
  logLevel : Nat
  deriving DecidableEq

namespace Settings

def hour : Int := 3600

def day : Int := 86400

def ofEnvironment (env : Environment) : Settings where
  origins := commaList ((env.lookup "FRONTEND_URL").getD "http://localhost:3000")
  analysisMaxAge := integer env "ANALYSIS_MAX_AGE_SECONDS" hour
  analysisSweepInterval := integer env "ANALYSIS_SWEEP_INTERVAL_SECONDS" hour
  designMaxAge := integer env "DESIGN_MAX_AGE_SECONDS" day
  designSweepInterval := integer env "DESIGN_SWEEP_INTERVAL_SECONDS" day
  logLevel := levelNumber ((env.lookup "LOG_LEVEL").getD "WARNING")

end Settings

/-- A logger before it is asked for has no level set and nothing to write to. -/
structure Logger where
  level : Nat
  handlers : Nat
  deriving DecidableEq

namespace Logger

def unset : Logger := ⟨0, 0⟩

/-- The logger as it is handed out: with the level of the settings, and with a console to
write to if it had none. -/
def handedOut (l : Logger) (s : Settings) : Logger :=
  ⟨s.logLevel, if l.handlers = 0 then 1 else l.handlers⟩

end Logger

end MoveWorkbench
