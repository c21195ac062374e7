import InjectionScan.ConfigFile
import InjectionScan.Discovery

/-! What a command gets to see and what it leaves behind. -/
namespace InjectionScan.Command

structure Environment where
  files : FileSystem
  /-- Whether colours are on as long as nothing turns them off. -/
  color : Bool
  /-- The text for the time that the command or a part of it took. -/
  elapsed : String

/-- Why a command stops. -/
inductive Failure where
  | configuration (cause : Config.LoadError)
  | discovery (cause : Discovery.Error)
  | saving (cause : Config.SaveError)
  | unknownRule (id : String)
deriving DecidableEq, Repr

def Failure.message : Failure → String
  | configuration (.unreadable cause) => cause.message
  | configuration .malformed => "the configuration is not a valid document"
  | configuration (.misshapen cause) => cause.message
  | discovery cause => cause.message
  | saving cause => cause.message
  | unknownRule id => "Unknown rule or finding ID: " ++ id

inductive Status where
  | success
  | failure
deriving DecidableEq, Repr

def Status.exitCode : Status → Nat
  | success => 0
  | failure => 1

/-- What a command printed, how it ended, and the files after it. -/
structure Outcome where
  stdout : String := ""
  stderr : String := ""
  result : Except Failure Status
  files : FileSystem

namespace Outcome

/-- The exit code of a process that ends so. -/
def exitCode (o : Outcome) : Nat :=
  match o.result with
  | .ok status => status.exitCode
  | .error _ => 1

/-- All that a process prints to its error stream. -/
def errorText (o : Outcome) : String :=
  match o.result with
  | .ok _ => o.stderr
  | .error e => o.stderr ++ "Error: " ++ e.message ++ "\n"

end Outcome

/-- A path as given, or without redundant parts if it leads somewhere. -/
def resolved (files : FileSystem) (path : Path) : Path :=
  match files.canonical path with
  | .ok p => p
  | .error _ => path

/-- A path as it is shown: below the root if it lies there. -/
def shownPath (root file : Path) : Path := (file.relativeTo? root).getD file

end InjectionScan.Command
