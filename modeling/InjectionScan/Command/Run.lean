import InjectionScan.Command.Explain
import InjectionScan.Command.Init
import InjectionScan.Command.Scan
import InjectionScan.Command.Test

/-! Running a command line. -/
namespace InjectionScan.Command

def run (env : Environment) (arguments : Arguments) : Outcome :=
  let env := { env with color := env.color && !arguments.options.noColor }
  match arguments.task with
  | .scan path => scan env arguments.options path
  | .init path => init env path
  | .explain id => explain env id
  | .test path => test env path

/-- What a process with these words prints and how it exits. -/
structure ProcessResult where
  stdout : String
  stderr : String
  exitCode : Nat
  files : FileSystem

/-- The text that is printed instead of running something. -/
def usageOutput : UsageError → String
  | .versionAsked => programName ++ " " ++ version ++ "\n"
  | .helpAsked =>
    "Usage: " ++ programName ++ " [OPTIONS] [scan|init|explain|test]\n"
  | _ => ""

def process (env : Environment) (words : List String) : ProcessResult :=
  match Arguments.parse words with
  | .error e =>
    ⟨usageOutput e, if e.exitCode = 0 then "" else e.message ++ "\n", e.exitCode, env.files⟩
  | .ok arguments =>
    let o := run env arguments
    ⟨o.stdout, o.errorText, o.exitCode, o.files⟩

end InjectionScan.Command
