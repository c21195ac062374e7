import InjectionScan.Command.Outcome
import InjectionScan.Output.Terminal

/-! Writing a first configuration file. -/
namespace InjectionScan.Command

open Terminal

/-- Writes the default configuration, unless there is a configuration already. -/
def init [Naming] (env : Environment) (path : Option Path) : Outcome :=
  let file := Config.fileIn (path.getD ⟨"."⟩)
  if env.files.exists? file then
    { stdout :=
        "  " ++ paint env.color .yellow "warn" ++ " " ++ Config.fileName ++ " already exists at " ++
          file.shown ++ "\n"
      result := .ok .success
      files := env.files }
  else
    match ({} : Config).save env.files file with
    | .error e => { result := .error (.saving e), files := env.files }
    | .ok files =>
      { stdout :=
          "  " ++ paint env.color .green "done" ++ " Created " ++ Config.fileName ++ " at " ++
            file.shown ++ "\n" ++
          "\nYou can now customize the configuration and run:\n" ++
          "  sqlscan\n"
        result := .ok .success
        files }

end InjectionScan.Command
