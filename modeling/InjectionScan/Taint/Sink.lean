import InjectionScan.Analyzer
import InjectionScan.Taint.Evaluation

/-! Calls that run a statement of a database. -/
namespace InjectionScan.Taint

open Syntax

/-- Methods that run their first argument. -/
def sinks : List String := ["query", "raw", "$queryRawUnsafe", "$executeRawUnsafe"]

def isSink (name : String) : Bool := sinks.contains name

def message : String :=
  "Potential SQL injection vulnerability detected, use parameterized queries instead"

def suggestion : String :=
  "Pass user input as bound parameters, e.g. " ++
    "db.query(\"SELECT * FROM users WHERE id = ?\", [id]), " ++
    "or use the driver's tagged-template API"

/-- The method of a call of the form `object.method(…)`. -/
def calledMethod? (source : String) (call : Node) : Option String := do
  let callee ← call.child? .function
  if callee.hasRule .memberExpression then
    let property ← callee.child? .property
    return property.text source
  else none

/-- The first argument in parentheses. A template right after the method is no argument list. -/
def firstArgument? (call : Node) : Option Node := do
  let arguments ← call.child? .arguments
  if arguments.hasRule .argumentList then
    arguments.namedChildren.find? fun n => !n.hasRule .comment
  else none

/-- What a call hands to the database: its first argument, or what that name is bound to. -/
def sinkArgument? (table : Bindings) (source : String) (call : Node) : Option Node := do
  let method ← calledMethod? source call
  if isSink method then
    let argument ← firstArgument? call
    if argument.hasRule .identifier then
      return (table.get? (argument.text source)).getD argument
    else return argument
  else none

/-- Whether a node is a call that is reported. -/
def isInjection (table : Bindings) (source : String) (n : Node) : Bool :=
  n.hasRule .callExpression &&
    match sinkArgument? table source n with
    | some argument => isTainted table source (some argument)
    | none => false

def injections (source : String) (root : Node) : List Node :=
  let table := Bindings.collect source root
  root.walk.filter (isInjection table source)

/-- Reports statements that are put together from parts. -/
def sqlInjection : Analyzer where
  name := "sql-injection"
  code := "SQL"
  description := "Detects potential SQL injection vulnerabilities in JavaScript code"
  category := .security
  severity := .critical
  inspect source _ root := (injections source root).map fun n => ⟨n, message, some suggestion⟩

end InjectionScan.Taint
