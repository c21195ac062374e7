import InjectionScan.ConfigFile
import InjectionScan.Proofs.Config.Layout
import InjectionScan.Proofs.FileSystem.Writing

/-! A configuration that is saved is loaded again as it was. -/
namespace InjectionScan

theorem Config.sections_everything (perPath : List (String × List String)) (c : Config) :
    c.sections perPath .everything .none =
      [{ name := "general"
         entries := [("fail_on", Toml.renderString c.general.failOn, .string c.general.failOn)]
         inner := [] },
       { name := "rules"
         entries := [("disabled", Toml.renderStrings c.rules.disabled, .strings c.rules.disabled)]
         inner := [("severity", c.rules.severity.entries.map fun e =>
           (e.1, Toml.renderString e.2.name, e.2.encode))] },
       { name := "ignore"
         entries := [("paths", Toml.renderStrings c.ignore.paths, .strings c.ignore.paths),
           ("findings", Toml.renderStrings c.ignore.findings, .strings c.ignore.findings)]
         inner := [("per_path", perPath.map fun e => (e.1, Toml.renderStrings e.2, .strings e.2))] },
       { name := "output"
         entries := [("format", Toml.renderString c.output.format, .string c.output.format),
           ("color", if c.output.color then "true" else "false", .bool c.output.color),
           ("max_findings", toString c.output.maxFindings, .nat c.output.maxFindings)]
         inner := [] }] := rfl

namespace Toml

open Line

/-- The text of a configuration is laid out in its sections. -/
theorem toList_renderWith (perPath : List (String × List String)) (c : Config) :
    (renderWith perPath c).toList =
      (documentLines (c.sections perPath .everything .none)).flatMap Line.text := by
  have hgeneral : "[general]\n".toList = (header ["general"]).text := by decide
  have hrules : "\n[rules]\n".toList = blank.text ++ (header ["rules"]).text := by decide
  have hseverity : "\n[rules.severity]\n".toList =
      blank.text ++ (header ["rules", "severity"]).text := by decide
  have hignore : "\n[ignore]\n".toList = blank.text ++ (header ["ignore"]).text := by decide
  have hperPath : "\n[ignore.per_path]\n".toList =
      blank.text ++ (header ["ignore", "per_path"]).text := by decide
  have houtput : "\n[output]\n".toList = blank.text ++ (header ["output"]).text := by decide
  delta renderWith
  simp only [String.toList_append]
  rw [hgeneral, hrules, hseverity, hignore, hperPath, houtput, Config.sections_everything]
  simp only [documentLines, Section.lines, Section.innerLines, List.flatMap_append,
    flatMap_entryLines, String.toList_join, List.flatMap_map, List.flatMap_cons, List.flatMap_nil,
    List.append_assoc, List.append_nil, List.cons_append, List.nil_append, List.tail_cons]

theorem readsNames : Toml.dialect.ReadsNames := fun _ _ => rfl

end Toml

namespace Config

variable {c : Config} {fs after : FileSystem} {file : Path}

theorem ofText_of_parse {text : String} {d : Document} {s : Selection}
    (htext : Toml.parse? text = some d) (hd : c.IsPart s d)
    (hmax : c.output.maxFindings < Nat.pow 2 64) : ofText text = .ok (s.overlay c) := by
  simp only [ofText, htext, hd.decode_eq Toml.readsNames hmax]

/-- The text of a configuration describes it, in whatever order it has the patterns for paths. -/
theorem ofText_renderWith (h : c.output.maxFindings < Nat.pow 2 63)
    {perPath : List (String × List String)} (hperPath : perPath.Perm c.ignore.perPath.entries) :
    ofText (Toml.renderWith perPath c) = .ok c := by
  have hparse := Toml.parse?_of_sections (Toml.toList_renderWith perPath c) nodup_names_sections
    (sound_of_mem_sections h hperPath)
  have hpart : c.IsPart .everything (Toml.documentOf (c.sections perPath .everything .none)) :=
    isPart_documentOf hperPath
  rw [ofText_of_parse hparse hpart (Nat.lt_trans h (by decide)), Selection.overlay_everything]

theorem load_of_write {text : String} (h : fs.write file text = .ok after) :
    load after file = ofText text := by
  rw [load, FileSystem.readText_of_write h]

theorem save_of_fits (h : c.output.maxFindings < Nat.pow 2 63) (fs : FileSystem) (file : Path) :
    c.save fs file = (fs.write file (Toml.render c)).mapError .unwritable := by
  simp only [save, toText, if_pos h]
  cases fs.write file (Toml.render c) <;> rfl

theorem save_of_not_fits (h : Nat.pow 2 63 ≤ c.output.maxFindings) (fs : FileSystem) (file : Path) :
    c.save fs file = .error .outOfRange := by
  rw [save, toText, if_neg (Nat.not_lt.2 h)]

theorem write_of_save (h : c.output.maxFindings < Nat.pow 2 63)
    (hsave : c.save fs file = .ok after) :
    fs.write file (Toml.render c) = .ok after := by
  rw [save_of_fits h] at hsave
  cases hwrite : fs.write file (Toml.render c) with
  | error e =>
    rw [hwrite] at hsave
    cases hsave
  | ok files =>
    rw [hwrite] at hsave
    cases hsave
    rfl

/-- The files after an attempt to save. -/
def filesAfter (fs : FileSystem) : Except SaveError FileSystem → FileSystem
  | .ok after => after
  | .error _ => fs

/-- A configuration whose numbers fit into a file is written if the file can be written, and then
loaded as it was. Any other is refused, wherever it was to be written, and all files stay. -/
theorem save_load_roundtrip (c : Config) (fs : FileSystem) (file : Path) :
    (c.output.maxFindings < Nat.pow 2 63 →
      (∀ perPath, perPath.Perm c.ignore.perPath.entries →
        ofText (Toml.renderWith perPath c) = .ok c) ∧
      c.save fs file = (fs.write file (Toml.render c)).mapError .unwritable ∧
      ∀ after, c.save fs file = .ok after →
        after.readText file = .ok (Toml.render c) ∧ load after file = .ok c) ∧
    (Nat.pow 2 63 ≤ c.output.maxFindings →
      c.save fs file = .error .outOfRange ∧ filesAfter fs (c.save fs file) = fs) := by
  constructor
  · intro h
    refine ⟨fun perPath hperPath => ofText_renderWith h hperPath, save_of_fits h fs file, ?_⟩
    intro after hsave
    have hwrite := write_of_save h hsave
    refine ⟨FileSystem.readText_of_write hwrite, ?_⟩
    rw [load_of_write hwrite]
    exact ofText_renderWith h (.refl _)
  · intro h
    have hsave := save_of_not_fits h fs file
    refine ⟨hsave, ?_⟩
    rw [hsave]
    rfl

/-- A configuration with quotes, backslashes, line ends, control characters and empty texts. -/
def awkward : Config where
  general := { failOn := "\"\"\" \\ ''' \r\n\x01é" }
  rules :=
    { disabled := ["", "it's \"quoted\""]
      severity := Dictionary.ofList [("", .info), ("a.b", .critical), ("two\nlines", .warning)] }
  ignore :=
    { paths := []
      findings := ["SQL-001"]
      perPath := Dictionary.ofList [("src/**", ["all", "\t"]), ("'\"", [])] }
  output := { format := "", color := false, maxFindings := 9223372036854775807 }

theorem save_load_roundtrip_awkward :
    awkward.output.maxFindings < Nat.pow 2 63 ∧
    ∃ after, awkward.save ⟨.directory [], ⟨"/"⟩⟩ ⟨fileName⟩ = .ok after ∧
      load after ⟨fileName⟩ = .ok awkward := by
  have hfits : awkward.output.maxFindings < Nat.pow 2 63 := by decide
  have hwritten : ∀ text, ∃ after,
      FileSystem.write ⟨.directory [], ⟨"/"⟩⟩ ⟨fileName⟩ text = .ok after := fun text => ⟨_, rfl⟩
  obtain ⟨after, hafter⟩ := hwritten (Toml.render awkward)
  have h := (save_load_roundtrip awkward ⟨.directory [], ⟨"/"⟩⟩ ⟨fileName⟩).1 hfits
  have hsave : awkward.save ⟨.directory [], ⟨"/"⟩⟩ ⟨fileName⟩ = .ok after := by
    rw [h.2.1, hafter]
    rfl
  exact ⟨hfits, after, hsave, (h.2.2 after hsave).2⟩

end Config

end InjectionScan
