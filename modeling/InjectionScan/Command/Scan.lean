import InjectionScan.Command.Arguments
import InjectionScan.Command.Outcome
import InjectionScan.Output.JsonReport
import InjectionScan.Output.Sarif
import InjectionScan.Output.Terminal
import InjectionScan.Suppression.Filter

/-! The scan. The severity of what is neither ignored nor suppressed decides the status. -/
namespace InjectionScan.Command

open Terminal

/-- What a scan found. -/
structure Assessment where
  report : Report
  kept : List Finding
  suppressed : List Suppression.Suppressed
  summary : Summary

/-- Analyses files and applies all suppressions, those by path first. -/
def assess [Naming] (registry : Registry) (config : Config) (fs : FileSystem) (root : Path)
    (files : List Path) : Assessment :=
  let report := registry.runAll config fs files
  let byPath := Suppression.splitByPath config.ignore.perPath root report.findings
  let inline := Suppression.splitInline fs byPath.kept
  let suppressed := byPath.suppressed ++ inline.suppressed
  { report
    kept := inline.kept
    suppressed
    summary :=
      { Summary.ofFindings inline.kept report.filesAnalyzed with suppressed := suppressed.length } }

def statusOf (summary : Summary) (threshold : String) : Status :=
  if summary.exceeds threshold then .failure else .success

/-- The option counts before the configuration; an unknown word stands for the terminal. -/
def formatOf (options : Options) (config : Config) : Format :=
  options.format.getD ((Format.ofName? config.output.format).getD .terminal)

def thresholdOf (options : Options) (config : Config) : String :=
  options.failOn.getD config.general.failOn

/-- A line about a step that was done. -/
def stepLine (color : Bool) (verb summary elapsed : String) : String :=
  "  " ++ paint color .boldGreen (padStart 10 verb) ++ " " ++ summary ++ " " ++
    paint color .dimmed ("(" ++ elapsed ++ ")") ++ "\n"

/-- A line about a step without a result. -/
def skippedLine (color : Bool) (reason : String) : String :=
  "  " ++ paint color .boldYellow (padStart 10 "Skipped") ++ " " ++ paint color .dimmed reason ++
    "\n"

def timeLine (elapsed : String) : String := "  Time: " ++ elapsed ++ "\n"

/-- The lines about suppressed findings. -/
def suppressedLines [Naming] (color : Bool) (root : Path)
    (suppressed : List Suppression.Suppressed) : String :=
  if suppressed.isEmpty then ""
  else
    "\n  " ++ paint color .dimmed "Suppressed:" ++ "\n" ++
    String.join (suppressed.map fun s =>
      suppressedLine color s.finding (shownPath root s.finding.file) s.reason ++ "\n")

/-- The lines about the numbers of a scan. -/
def summaryLines (color : Bool) (s : Summary) : String :=
  "  " ++ paint color .dimmed (String.ofList (List.replicate 60 (Char.ofNat 0x2500))) ++ "\n" ++
  "  " ++ paint color .boldRed (toString s.critical ++ " critical") ++ " · " ++
    paint color .red (toString s.errors ++ " error(s)") ++ " · " ++
    paint color .yellow (toString s.warnings ++ " warning(s)") ++ " · " ++
    paint color .blue (toString s.info ++ " info") ++ "\n" ++
  (if 0 < s.suppressed then
    "  " ++ paint color .dimmed (toString s.suppressed ++ " finding(s) suppressed") ++ "\n"
  else "") ++
  "  " ++ toString s.filesAnalyzed ++ " files analyzed\n"

/-- The report for a terminal. At most so many findings are shown as the configuration says. -/
def terminalReport [Naming] (color : Bool) (elapsed : String) (root : Path) (config : Config)
    (showSuppressed : Bool) (a : Assessment) : String :=
  let count := a.kept.length
  let limit := if config.output.maxFindings = 0 then count else min config.output.maxFindings count
  "\n" ++
  String.join ((a.kept.take limit).map fun f =>
    findingLine color f (shownPath root f.file) ++ "\n") ++
  (if limit < count then
    "  " ++ paint color .dimmed ("... and " ++ toString (count - limit) ++ " more finding(s)") ++ "\n"
  else "") ++
  (if showSuppressed then suppressedLines color root a.suppressed else "") ++
  (if a.kept.isEmpty then "" else "\n") ++
  summaryLines color a.summary ++
  timeLine elapsed

/-- The report in a format. -/
def reportText [Naming] (format : Format) (color : Bool) (elapsed : String) (root : Path)
    (config : Config) (showSuppressed : Bool) (a : Assessment) : String :=
  match format with
  | .json => (JsonReport.ofFindings a.kept a.summary).render ++ "\n"
  | .sarif => (Sarif.logOf Registry.builtin root a.kept).render ++ "\n"
  | .terminal => terminalReport color elapsed root config showSuppressed a

/-- What is printed if there is nothing to scan. -/
def emptyText [Naming] (format : Format) (elapsed : String) (root : Path) : String :=
  match format with
  | .json => (JsonReport.ofFindings [] {}).render ++ "\n"
  | .sarif => (Sarif.logOf Registry.builtin root []).render ++ "\n"
  | .terminal => timeLine elapsed

/-- The place that is scanned, and the directory that paths are shown relative to. -/
structure Target where
  place : Path
  root : Path
  isFile : Bool

def Target.of (files : FileSystem) (path : Option Path) : Target :=
  let place := resolved files (path.getD ⟨"."⟩)
  if files.isFile place then ⟨place, place.parent?.getD ⟨""⟩, true⟩ else ⟨place, place, false⟩

/-- The files of a target. -/
def Target.files [Naming] (t : Target) (fs : FileSystem) (config : Config) :
    Except Discovery.Error (List Path) :=
  if t.isFile then .ok [t.place]
  else Discovery.sources fs t.place Language.supportedExtensions config.ignore.paths

def headerText [Naming] (color : Bool) (t : Target) : String :=
  paint color .bold ("  " ++ programName ++ " v" ++ version ++ " — scanning " ++ t.place.shown) ++
    "\n\n"

/-- The lines about the files found. -/
def discoveredLine (color : Bool) (elapsed : String) (t : Target) (files : List Path) : String :=
  if t.isFile then ""
  else if files.isEmpty then skippedLine color "no supported files found"
  else stepLine color "Discovered" (toString files.length ++ " files") elapsed

def analyzedLine (color : Bool) (elapsed : String) (r : Report) : String :=
  stepLine color "Analyzed"
    (toString r.filesAnalyzed ++ " files, " ++ toString r.findings.length ++ " finding(s)") elapsed

/-- Scans a target under a configuration. What goes to the error stream is for a terminal only. -/
def scanWith [Naming] (env : Environment) (options : Options) (target : Target) (config : Config) :
    Outcome :=
  let color := env.color && config.output.color
  let format := formatOf options config
  let aside (text : String) : String := if format = .terminal then text else ""
  let header := aside (headerText color target)
  match target.files env.files config with
  | .error e => { stderr := header, result := .error (.discovery e), files := env.files }
  | .ok files =>
    let discovered := aside (discoveredLine color env.elapsed target files)
    if files.isEmpty then
      { stdout := emptyText format env.elapsed target.root
        stderr := header ++ discovered
        result := .ok .success
        files := env.files }
    else
      let a := assess Registry.builtin config env.files target.root files
      { stdout :=
          reportText format color env.elapsed target.root config options.showSuppressed a
        stderr := header ++ discovered ++ aside (analyzedLine color env.elapsed a.report)
        result := .ok (statusOf a.summary (thresholdOf options config))
        files := env.files }

/-- Scans a place under the configuration that is found for it. -/
def scan [Naming] (env : Environment) (options : Options) (path : Option Path) : Outcome :=
  let target := Target.of env.files path
  match Config.find env.files target.root with
  | .error e => { result := .error (.configuration e), files := env.files }
  | .ok config => scanWith env options target config

end InjectionScan.Command
