import InjectionScan.Command.Outcome
import InjectionScan.Output.Terminal
import InjectionScan.Registry

/-! Explanations of rules. -/
namespace InjectionScan.Command

open Terminal

structure Explanation where
  title : String
  why : String
  fix : String
  bad : String
  good : String
deriving DecidableEq, Repr

namespace Explanation

def sqlInjection : Explanation where
  title := "SQL injection"
  why :=
    "The SQL text passed to a query method is assembled from a variable " ++
      "by concatenation or template interpolation. If that variable carries " ++
      "user input, an attacker can change the structure of the statement."
  fix :=
    "Keep the SQL text constant and pass values as bound parameters, or use " ++
      "the driver's tagged-template API, which binds interpolations for you."
  bad := "db.query(\"SELECT * FROM users WHERE id = \" + req.params.id);"
  good := "db.query(\"SELECT * FROM users WHERE id = ?\", [req.params.id]);"

/-- The part of an identifier before its first dash. -/
def codeOf (id : String) : String := String.ofList (id.toList.takeWhile fun c => c != '-')

/-- The explanation for a code; capitals do not count. -/
def ofCode? (code : String) : Option Explanation :=
  if code.toList.map Char.toUpper == "SQL".toList then some sqlInjection else none

/-- The text about a rule. -/
def about (color : Bool) (a : Analyzer) : String :=
  "  " ++ paint color .bold a.code ++ " " ++ paint color .bold a.name ++ "\n" ++
  "  " ++ a.description ++ "\n" ++
  "  " ++ paint color .dimmed "language:" ++ " " ++ a.language.name ++ " · " ++
    paint color .dimmed "category:" ++ " " ++ a.category.name ++ " · " ++
    paint color .dimmed "severity:" ++ " " ++ a.severity.name ++ "\n" ++
  match ofCode? a.code with
  | none => ""
  | some e =>
    "\n  " ++ paint color .bold e.title ++ "\n" ++
    "  " ++ e.why ++ "\n" ++
    "\n  " ++ paint color .bold "How to fix" ++ "\n" ++
    "  " ++ e.fix ++ "\n" ++
    "\n  " ++ paint color .red "bad: " ++ " " ++ e.bad ++ "\n" ++
    "  " ++ paint color .green "good:" ++ " " ++ e.good ++ "\n"

end Explanation

/-- Explains a rule, given by its name or by an identifier of one of its findings. -/
def explain (env : Environment) (id : String) : Outcome :=
  match Registry.builtin.find? id with
  | none => { result := .error (.unknownRule id), files := env.files }
  | some a =>
    { stdout := Explanation.about env.color a, result := .ok .success, files := env.files }

end InjectionScan.Command
