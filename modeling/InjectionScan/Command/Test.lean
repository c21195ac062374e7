import InjectionScan.Command.Outcome
import InjectionScan.Expectation
import InjectionScan.Output.Terminal

/-! Checking fixtures against their annotations. -/
namespace InjectionScan.Command

open Terminal

/-- The lines about what does not correspond. -/
def mismatchLines (o : Expectation.Outcome) : String :=
  String.join (o.missing.map fun e =>
    "      line " ++ toString e.line ++ ": expected " ++ e.rule ++ " finding, got none\n") ++
  String.join (o.unexpected.map fun f =>
    "      line " ++ toString f.line ++ ": unexpected " ++ f.rule ++ " finding: " ++ f.message ++
      "\n")

def hasPassed : Except AnalysisError Expectation.Outcome → Bool
  | .ok o => o.passed
  | .error _ => false

/-- The lines about one fixture. -/
def fixtureLines [Naming] (color : Bool) (path : Path) :
    Except AnalysisError Expectation.Outcome → String
  | .ok o =>
    if o.passed then
      "  " ++ paint color .green "pass" ++ " " ++ path.shown ++ " (" ++ toString o.matched ++
        " expectation(s))\n"
    else "  " ++ paint color .boldRed "FAIL" ++ " " ++ path.shown ++ "\n" ++ mismatchLines o
  | .error e =>
    "  " ++ paint color .boldRed "FAIL" ++ " " ++ path.shown ++ ": " ++ e.message ++ "\n"

/-- The text about some fixtures and the status that they give. -/
def fixtureReport [Naming] (color : Bool) (root : Path)
    (checked : List (Path × Except AnalysisError Expectation.Outcome)) : String × Status :=
  let failed := (checked.filter fun c => !hasPassed c.2).length
  (String.join (checked.map fun c => fixtureLines color (shownPath root c.1) c.2) ++
    "\n  " ++ toString (checked.length - failed) ++ " passed · " ++ toString failed ++
    " failed\n",
   if 0 < failed then .failure else .success)

/-- Checks all fixtures below a place. -/
def test [Naming] (env : Environment) (path : Option Path) : Outcome :=
  let root := resolved env.files (path.getD ⟨"."⟩)
  match Config.find env.files root with
  | .error e => { result := .error (.configuration e), files := env.files }
  | .ok config =>
    match Discovery.fixtures env.files root Language.supportedExtensions config.ignore.paths with
    | .error e => { result := .error (.discovery e), files := env.files }
    | .ok [] =>
      { stdout := "  " ++ paint env.color .dimmed "No fixtures (*.test.js) found." ++ "\n"
        result := .ok .success
        files := env.files }
    | .ok fixtures =>
      let (text, status) := fixtureReport env.color root (fixtures.map fun f =>
        (f, Expectation.checkFile Registry.builtin config env.files f))
      { stdout := text, result := .ok status, files := env.files }

end InjectionScan.Command
