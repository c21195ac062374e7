import InjectionScan.Path

/-! The command line. Of an option before and after the command, the one after it counts. -/
namespace InjectionScan.Command

inductive Format where
  | terminal
  | json
  | sarif
deriving DecidableEq, Repr

namespace Format

def all : List Format := [.terminal, .json, .sarif]

def name : Format → String
  | .terminal => "terminal"
  | .json => "json"
  | .sarif => "sarif"

def ofName? (s : String) : Option Format := all.find? fun f => f.name == s

end Format

/-- What is to be done. -/
inductive Task where
  | scan (path : Option Path)
  | init (path : Option Path)
  | explain (id : String)
  | test (path : Option Path)
deriving DecidableEq, Repr

structure Options where
  format : Option Format := none
  failOn : Option String := none
  showSuppressed : Bool := false
  noColor : Bool := false
deriving DecidableEq, Repr

structure Arguments where
  task : Task
  options : Options
deriving DecidableEq, Repr

/-- Why a command line is not run. -/
inductive UsageError where
  | helpAsked
  | versionAsked
  | invalidValue (value target : String)
  | missingValue (target : String)
  | repeated (target : String)
  | needlessValue (value target : String)
  | unknownArgument (argument : String)
  | unknownCommand (command : String)
  | missingArgument
deriving DecidableEq, Repr

namespace UsageError

/-- The first line of the message. -/
def message : UsageError → String
  | helpAsked => ""
  | versionAsked => ""
  | invalidValue value target => "error: invalid value '" ++ value ++ "' for '" ++ target ++ "'"
  | missingValue target =>
    "error: a value is required for '" ++ target ++ "' but none was supplied"
  | repeated target => "error: the argument '" ++ target ++ "' cannot be used multiple times"
  | needlessValue value target =>
    "error: unexpected value '" ++ value ++ "' for '" ++ target ++
      "' found; no more were expected"
  | unknownArgument argument => "error: unexpected argument '" ++ argument ++ "' found"
  | unknownCommand command => "error: unrecognized subcommand '" ++ command ++ "'"
  | missingArgument => "error: the following required arguments were not provided:"

def exitCode : UsageError → Nat
  | helpAsked | versionAsked => 0
  | _ => 2

end UsageError

inductive Verb where
  | scan
  | init
  | explain
  | test
deriving DecidableEq, Repr

namespace Verb

def all : List Verb := [.scan, .init, .explain, .test]

def name : Verb → String
  | .scan => "scan"
  | .init => "init"
  | .explain => "explain"
  | .test => "test"

def ofName? (s : String) : Option Verb := all.find? fun v => v.name == s

end Verb

/-- Something that takes a value. -/
inductive Slot where
  | format
  | failOn
  /-- The word after a command. -/
  | position
deriving DecidableEq, Repr

/-- Words read so far, before or after the command. -/
structure State where
  /-- The command, if the words stand after one. -/
  verb : Option Verb := none
  options : Options := {}
  position : Option String := none
  /-- A slot whose value has not been looked at, and the value if it was read. -/
  pending : Option (Slot × Option String) := none
  /-- Whether the next word is the value of the pending option. -/
  awaiting : Bool := false
  /-- Whether all further words are plain ones. -/
  plainOnly : Bool := false
deriving DecidableEq, Repr

namespace State

/-- What messages call a slot. -/
def slotName (s : State) : Slot → String
  | .format => "--format <FORMAT>"
  | .failOn => "--fail-on <FAIL_ON>"
  | .position => if s.verb == some .explain then "<FINDING_ID>" else "[PATH]"

/-- Looks at a value and puts it into its slot. -/
def fill (s : State) (slot : Slot) (value : Option String) : Except UsageError State :=
  match value with
  | none => .error (.missingValue (s.slotName slot))
  | some v =>
    match slot with
    | .format =>
      if s.options.format.isSome then .error (.repeated (s.slotName slot))
      else
        match Format.ofName? v with
        | some f => .ok { s with options := { s.options with format := some f } }
        | none =>
          if v.isEmpty then .error (.missingValue (s.slotName slot))
          else .error (.invalidValue v (s.slotName slot))
    | .failOn =>
      if s.options.failOn.isSome then .error (.repeated (s.slotName slot))
      else .ok { s with options := { s.options with failOn := some v } }
    | .position =>
      if v.isEmpty && s.verb != some .explain then .error (.missingValue (s.slotName slot))
      else .ok { s with position := some v }

/-- Looks at the pending value. -/
def settle (s : State) : Except UsageError State :=
  match s.pending with
  | none => .ok s
  | some (slot, value) => { s with pending := none, awaiting := false }.fill slot value

/-- An option that takes a value; the value may follow an equals sign. -/
def takeOption (s : State) (slot : Slot) (attached : Option String) : Except UsageError State := do
  let s ← s.settle
  match attached with
  | some v => s.fill slot (some v)
  | none => return { s with pending := some (slot, none), awaiting := true }

/-- An option without a value. -/
def takeFlag (s : State) (name : String) (isSet : Bool) (set : Options → Options)
    (attached : Option String) : Except UsageError State :=
  match attached with
  | some v => .error (.needlessValue v name)
  | none => do
    let s ← s.settle
    if isSet then .error (.repeated name) else return { s with options := set s.options }

/-- Something that ends the run with a text. -/
def takeQuestion (s : State) (e : UsageError) (name : String) (attached : Option String) :
    Except UsageError State :=
  match attached with
  | some v => .error (.needlessValue v name)
  | none => do
    let _ ← s.settle
    .error e

/-- An option with two dashes. -/
def takeLong (s : State) (name : String) (attached : Option String) : Except UsageError State :=
  match name with
  | "format" => s.takeOption .format attached
  | "fail-on" => s.takeOption .failOn attached
  | "show-suppressed" =>
    s.takeFlag "--show-suppressed" s.options.showSuppressed
      (fun o => { o with showSuppressed := true }) attached
  | "no-color" =>
    s.takeFlag "--no-color" s.options.noColor (fun o => { o with noColor := true }) attached
  | "help" => s.takeQuestion .helpAsked "--help" attached
  | "version" =>
    if s.verb.isNone then s.takeQuestion .versionAsked "--version" attached
    else .error (.unknownArgument "--version")
  | name => .error (.unknownArgument ("--" ++ name))

/-- Letters after one dash; the first one decides. -/
def takeShort (s : State) (letter : Char) : Except UsageError State :=
  if letter == 'h' then s.takeQuestion .helpAsked "--help" none
  else if letter == 'V' && s.verb.isNone then s.takeQuestion .versionAsked "--version" none
  else .error (.unknownArgument ("-" ++ String.ofList [letter]))

/-- A word that is no option. A command takes one, and before the command there is none to take. -/
def takeWord (s : State) (word : String) : Except UsageError State :=
  match s.verb with
  | none =>
    if s.plainOnly && ((Verb.ofName? word).isSome || word == "help") then
      .error (.unknownArgument word)
    else .error (.unknownCommand word)
  | some _ =>
    if s.position.isSome || (s.pending.map Prod.fst) == some .position then
      .error (.unknownArgument word)
    else do
      let s ← s.settle
      return { s with pending := some (.position, some word) }

/-- One word, which is not a command. -/
def takeArgument (s : State) (word : String) : Except UsageError State :=
  if s.plainOnly then s.takeWord word
  else
    match word.toList with
    | ['-', '-'] => .ok { s with plainOnly := true }
    | '-' :: '-' :: cs =>
      let name := String.ofList (cs.takeWhile fun c => c != '=')
      let attached :=
        if cs.contains '=' then
          some (String.ofList ((cs.dropWhile fun c => c != '=').drop 1))
        else none
      s.takeLong name attached
    | '-' :: letter :: _ => s.takeShort letter
    | _ =>
      match s.awaiting, s.pending with
      | true, some (slot, none) =>
        .ok { s with pending := some (slot, some word), awaiting := false }
      | _, _ => s.takeWord word

/-- Reads all words after a command. -/
def takeAll : State → List String → Except UsageError State
  | s, [] => .ok s
  | s, word :: words =>
    match s.takeArgument word with
    | .ok s => takeAll s words
    | .error e => .error e

end State

/-- Asks for help on the commands named. -/
def helpOn : List String → UsageError
  | [] => .helpAsked
  | [word] =>
    if (Verb.ofName? word).isSome || word == "help" then .helpAsked else .unknownCommand word
  | word :: second :: _ =>
    if (Verb.ofName? word).isSome || word == "help" then .unknownCommand second
    else .unknownCommand word

/-- Reads words up to a command, and all words after it. The second state is that after the command. -/
def readWords : State → List String → Except UsageError (State × Option State)
  | s, [] => .ok (s, none)
  | s, word :: words =>
    if !s.plainOnly && !s.awaiting && word == "help" then .error (helpOn words)
    else
      match if s.plainOnly || s.awaiting then none else Verb.ofName? word with
      | some verb =>
        match State.takeAll { verb := some verb } words with
        | .ok inner => .ok (s, some inner)
        | .error e => .error e
      | none =>
        match s.takeArgument word with
        | .ok s => readWords s words
        | .error e => .error e

/-- The task of a command and the word after it. -/
def taskOf (verb : Option Verb) (position : Option String) : Except UsageError Task :=
  match verb with
  | none => .ok (.scan none)
  | some .scan => .ok (.scan (position.map Path.mk))
  | some .init => .ok (.init (position.map Path.mk))
  | some .test => .ok (.test (position.map Path.mk))
  | some .explain =>
    match position with
    | some id => .ok (.explain id)
    | none => .error .missingArgument

/-- What stands after a command counts more than what stands before it. -/
def Options.within (inner outer : Options) : Options where
  format := inner.format.or outer.format
  failOn := inner.failOn.or outer.failOn
  showSuppressed := inner.showSuppressed || outer.showSuppressed
  noColor := inner.noColor || outer.noColor

/-- Reads a command line. Without a command the current directory is scanned. -/
def Arguments.parse (words : List String) : Except UsageError Arguments := do
  let (outer, inner) ← readWords {} words
  match inner with
  | none =>
    let outer ← outer.settle
    return ⟨.scan none, outer.options⟩
  | some inner =>
    let inner ← inner.settle
    let task ← taskOf inner.verb inner.position
    let outer ← outer.settle
    return ⟨task, inner.options.within outer.options⟩

end InjectionScan.Command
