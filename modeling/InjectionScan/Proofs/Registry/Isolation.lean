import InjectionScan.Proofs.Registry.Numbering
import Mathlib.Data.List.Forall2

/-! A file that fails leaves nothing behind but its entry among the errors. -/
namespace InjectionScan

attribute [ext] Report

variable {registry : Registry} {config : Config} {fs : FileSystem} {files : List Path}
  {file : Path} {order : List Nat}

/-- A report with the outcome of one more file. -/
def Report.record (report : Report) (file : Path) : Except AnalysisError (List Finding) → Report
  | .ok findings =>
    { report with
      findings := report.findings ++ findings
      filesAnalyzed := report.filesAnalyzed + 1 }
  | .error e => { report with errors := report.errors ++ [file.text ++ ": " ++ e.message] }

namespace Registry

/-- The file can be read and analysed. -/
def Succeeds (registry : Registry) (config : Config) (fs : FileSystem) (file : Path) : Prop :=
  ∃ findings, registry.analyzeFile config fs file = .ok findings

theorem isSome_toOption_iff :
    (registry.analyzeFile config fs file).toOption.isSome = true ↔
      registry.Succeeds config fs file := by
  cases h : registry.analyzeFile config fs file <;> simp [Succeeds, h, Except.toOption]

instance : DecidablePred (registry.Succeeds config fs) :=
  fun _ => decidable_of_iff _ isSome_toOption_iff

theorem not_succeeds_iff :
    ¬ registry.Succeeds config fs file ↔ ∃ e, registry.analyzeFile config fs file = .error e := by
  cases h : registry.analyzeFile config fs file <;> simp [Succeeds, h]

section Order

/-- One place for the outcome of each file, empty until the file is done. -/
abbrev Places := List (Option (Except AnalysisError (List Finding)))

/-- The file with that index is done, and its outcome goes to the place with the same index. -/
def finish (registry : Registry) (config : Config) (fs : FileSystem) (files : List Path)
    (places : Places) (i : Nat) : Places :=
  places.set i (files[i]?.map (registry.analyzeFile config fs))

/-- Outcomes are recorded one after another, then the findings are numbered and the listed ones
dropped. -/
def reportOf (registry : Registry) (config : Config)
    (outcomes : List (Path × Except AnalysisError (List Finding))) : Report :=
  let report : Report := outcomes.foldl (fun report o => report.record o.1 o.2) ⟨[], [], 0⟩
  { report with
    findings := (registry.number report.findings).filter fun f => f.id ∉ config.ignore.findings }

/-- A run in which the files are done in a given order. It has a report once all places are
filled. -/
def runInOrder (registry : Registry) (config : Config) (fs : FileSystem) (files : List Path)
    (order : List Nat) : Option Report :=
  let places := order.foldl (registry.finish config fs files) (List.replicate files.length none)
  (places.mapM id).map fun outcomes => registry.reportOf config (files.zip outcomes)

theorem length_finish (places : Places) (i : Nat) :
    (registry.finish config fs files places i).length = places.length := by
  simp [finish]

theorem getElem?_finish (places : Places) (i : Nat) {k : Nat} (hk : k < places.length) :
    (registry.finish config fs files places i)[k]? =
      if k = i then some (files[k]?.map (registry.analyzeFile config fs)) else places[k]? := by
  rw [finish, List.getElem?_set]
  by_cases h : k = i
  · subst h
    simp [hk]
  · simp [h, Ne.symm h]

/-- A place is filled as soon as its file is done, and no other file reaches it. -/
theorem getElem?_foldl_finish (order : List Nat) (places : Places) {k : Nat}
    (hk : k < places.length) :
    (order.foldl (registry.finish config fs files) places)[k]? =
      if k ∈ order then some (files[k]?.map (registry.analyzeFile config fs)) else places[k]? := by
  induction order generalizing places with
  | nil => simp
  | cons i order ih =>
    rw [List.foldl_cons, ih _ (by rwa [length_finish]), getElem?_finish places i hk]
    by_cases hi : k = i <;> simp [hi]

theorem length_foldl_finish (order : List Nat) (places : Places) :
    (order.foldl (registry.finish config fs files) places).length = places.length := by
  induction order generalizing places with
  | nil => rfl
  | cons i order ih => rw [List.foldl_cons, ih, length_finish]

theorem foldl_finish_eq_map (h : ∀ i < files.length, i ∈ order) :
    order.foldl (registry.finish config fs files) (List.replicate files.length none) =
      files.map fun file => some (registry.analyzeFile config fs file) := by
  refine List.ext_getElem? fun k => ?_
  by_cases hk : k < files.length
  · rw [getElem?_foldl_finish _ _ (by simpa using hk), if_pos (h k hk)]
    simp [hk]
  · rw [List.getElem?_eq_none (by simpa [length_foldl_finish] using hk),
      List.getElem?_eq_none (by simpa using hk)]

/-- What recording adds to a report. -/
theorem foldl_record (outcomes : List (Path × Except AnalysisError (List Finding)))
    (report : Report) :
    outcomes.foldl (fun report o => report.record o.1 o.2) report =
      { findings := report.findings ++ outcomes.flatMap fun o => o.2.toOption.getD []
        errors := report.errors ++ outcomes.filterMap fun o =>
          match o.2 with
          | .ok _ => none
          | .error e => some (o.1.text ++ ": " ++ e.message)
        filesAnalyzed :=
          report.filesAnalyzed + (outcomes.filter fun o => o.2.toOption.isSome).length } := by
  induction outcomes generalizing report with
  | nil => simp
  | cons o outcomes ih =>
    obtain ⟨file, outcome⟩ := o
    rw [List.foldl_cons, ih]
    cases outcome with
    | ok findings =>
      simp [Report.record, Except.toOption, Nat.add_assoc, Nat.add_comm 1]
    | error e => simp [Report.record, Except.toOption]

theorem reportOf_eq_runAll :
    registry.reportOf config (files.map fun file => (file, registry.analyzeFile config fs file)) =
      registry.runAll config fs files := by
  rw [reportOf, foldl_record]
  simp only [runAll, List.nil_append, Nat.zero_add]
  congr 1
  simp

/-- Whatever order the files are done in, the report is the same. -/
theorem runInOrder_eq_some (h : ∀ i < files.length, i ∈ order) :
    registry.runInOrder config fs files order = some (registry.runAll config fs files) := by
  have hall : (files.map fun file => some (registry.analyzeFile config fs file)).mapM id =
      some (files.map (registry.analyzeFile config fs)) := by
    rw [List.mapM_map]
    exact List.mapM_pure
  have hzip : files.zip (files.map (registry.analyzeFile config fs)) =
      files.map fun file => (file, registry.analyzeFile config fs file) := by
    simpa using List.zip_map' (f := id) (g := registry.analyzeFile config fs) (l := files)
  rw [runInOrder, foldl_finish_eq_map h, hall, Option.map_some, hzip, reportOf_eq_runAll]

end Order

section Failure

variable (registry config fs files)

theorem runAll_errors :
    List.Forall₂
      (fun file entry => ∃ e, registry.analyzeFile config fs file = .error e ∧
        entry = file.text ++ ": " ++ e.message)
      (files.filter fun file => ¬ registry.Succeeds config fs file)
      (registry.runAll config fs files).errors := by
  induction files with
  | nil => exact .nil
  | cons file files ih =>
    cases h : registry.analyzeFile config fs file with
    | ok findings =>
      have hs : registry.Succeeds config fs file := ⟨findings, h⟩
      simpa [runAll, hs, h] using ih
    | error e =>
      have hs : ¬ registry.Succeeds config fs file := not_succeeds_iff.2 ⟨e, h⟩
      simpa [runAll, hs, h] using ih

theorem runAll_filesAnalyzed :
    (registry.runAll config fs files).filesAnalyzed =
      (files.filter fun file => registry.Succeeds config fs file).length := by
  simp [runAll, List.filter_map, ← isSome_toOption_iff, Function.comp_def]

theorem unnumbered_filter_succeeds :
    registry.unnumbered config fs (files.filter fun file => registry.Succeeds config fs file) =
      registry.unnumbered config fs files := by
  induction files with
  | nil => rfl
  | cons file files ih =>
    by_cases hs : registry.Succeeds config fs file
    · simpa [unnumbered, hs] using ih
    · obtain ⟨e, he⟩ := not_succeeds_iff.1 hs
      simpa [unnumbered, hs, he, Except.toOption] using ih

/-- A run over the files that succeed gives the same report, but without errors. -/
theorem runAll_filter_succeeds :
    registry.runAll config fs (files.filter fun file => registry.Succeeds config fs file) =
      { registry.runAll config fs files with errors := [] } := by
  refine Report.ext ?_ ?_ ?_
  · rw [runAll_findings, runAll_findings, unnumbered_filter_succeeds]
  · have herrors := runAll_errors registry config fs
      (files.filter fun file => registry.Succeeds config fs file)
    rw [List.filter_filter, List.filter_eq_nil_iff.2 (by simp)] at herrors
    exact List.forall₂_nil_left_iff.1 herrors
  · rw [runAll_filesAnalyzed, runAll_filesAnalyzed, List.filter_filter]
    simp

theorem filesAnalyzed_add_length_errors :
    (registry.runAll config fs files).filesAnalyzed +
      (registry.runAll config fs files).errors.length = files.length := by
  rw [runAll_filesAnalyzed, ← (runAll_errors registry config fs files).length_eq]
  simpa using (List.filter_append_perm (fun file => decide (registry.Succeeds config fs file))
    files).length_eq

end Failure

section Concatenation

variable (registry config fs files)

theorem exists_flatten_eq_unnumbered :
    ∃ results : List (List Finding),
      List.Forall₂ (fun file findings => registry.analyzeFile config fs file = .ok findings)
        (files.filter fun file => registry.Succeeds config fs file) results ∧
      registry.unnumbered config fs files = results.flatten := by
  induction files with
  | nil => exact ⟨[], .nil, rfl⟩
  | cons file files ih =>
    obtain ⟨results, hresults, hflat⟩ := ih
    cases h : registry.analyzeFile config fs file with
    | ok findings =>
      have hs : registry.Succeeds config fs file := ⟨findings, h⟩
      refine ⟨findings :: results, ?_, ?_⟩
      · simpa [hs, h] using hresults
      · simpa [unnumbered, h, Except.toOption] using hflat
    | error e =>
      have hs : ¬ registry.Succeeds config fs file := not_succeeds_iff.2 ⟨e, h⟩
      refine ⟨results, ?_, ?_⟩
      · simpa [hs] using hresults
      · simpa [unnumbered, h, Except.toOption] using hflat

end Concatenation

/-- Failing files are isolated. In whatever order the files are done, the run has the report of a run
over the files that succeed, and besides one entry for each file that fails, in the order of the
files. The findings are those of one file after another, but for their identifiers. -/
theorem runAll_isolates_failures (registry : Registry) (config : Config) (fs : FileSystem)
    (files : List Path) {order : List Nat} (h : order.Perm (List.range files.length)) :
    registry.runInOrder config fs files order = some (registry.runAll config fs files) ∧
    registry.runAll config fs (files.filter fun file => registry.Succeeds config fs file) =
      { registry.runAll config fs files with errors := [] } ∧
    List.Forall₂
      (fun file entry => ∃ e, registry.analyzeFile config fs file = .error e ∧
        entry = file.text ++ ": " ++ e.message)
      (files.filter fun file => ¬ registry.Succeeds config fs file)
      (registry.runAll config fs files).errors ∧
    (registry.runAll config fs files).filesAnalyzed =
      (files.filter fun file => registry.Succeeds config fs file).length ∧
    (registry.runAll config fs files).filesAnalyzed +
      (registry.runAll config fs files).errors.length = files.length ∧
    ∃ results : List (List Finding),
      List.Forall₂ (fun file findings => registry.analyzeFile config fs file = .ok findings)
        (files.filter fun file => registry.Succeeds config fs file) results ∧
      (registry.fullReport config fs files).findings.map Finding.withoutId = results.flatten := by
  refine ⟨runInOrder_eq_some ?_, runAll_filter_succeeds registry config fs files,
    runAll_errors registry config fs files, runAll_filesAnalyzed registry config fs files,
    filesAnalyzed_add_length_errors registry config fs files, ?_⟩
  · intro i hi
    exact h.mem_iff.2 (List.mem_range.2 hi)
  · rw [map_withoutId_fullReport]
    exact exists_flatten_eq_unnumbered registry config fs files

/-- Two files with findings, one that is no text, and one in no known language. -/
def mixedFiles : FileSystem where
  root := .directory
    [("a.js", .file "d.query(`${x}`);\nd.raw(x + y)".toUTF8), ("b.js", .file ⟨#[255]⟩),
      ("c.css", .file ByteArray.empty), ("d.js", .file "d.raw(x + y)".toUTF8)]
  current := ⟨"/"⟩

def mixedPaths : List Path := [⟨"c.css"⟩, ⟨"a.js"⟩, ⟨"e.js"⟩, ⟨"d.js"⟩, ⟨"b.js"⟩, ⟨"a.js"⟩]

/-- Three of six files fail, the last one is done first, and the numbers have no gaps. -/
theorem runAll_isolates_failures_mixedFiles :
    [5, 0, 4, 3, 1, 2].Perm (List.range mixedPaths.length) ∧
    (builtin.runInOrder {} mixedFiles mixedPaths [5, 0, 4, 3, 1, 2]).map
        (fun report => report.findings.map fun f => (f.id, f.file.text, f.line)) =
      some [("SQL-001", "a.js", 1), ("SQL-002", "a.js", 2), ("SQL-003", "d.js", 1),
        ("SQL-004", "a.js", 1), ("SQL-005", "a.js", 2)] ∧
    (builtin.runAll {} mixedFiles [⟨"a.js"⟩, ⟨"d.js"⟩, ⟨"a.js"⟩]).findings =
      (builtin.runAll {} mixedFiles mixedPaths).findings ∧
    (builtin.runAll {} mixedFiles mixedPaths).errors =
      ["c.css: Unsupported language: css",
        "e.js: Failed to read file: No such file or directory (os error 2)",
        "b.js: Failed to read file: stream did not contain valid UTF-8"] ∧
    (builtin.runAll {} mixedFiles mixedPaths).filesAnalyzed = 3 := by
  have hperm : [5, 0, 4, 3, 1, 2].Perm (List.range mixedPaths.length) := by decide
  have hsucceed : mixedPaths.filter (fun file => builtin.Succeeds {} mixedFiles file) =
      [⟨"a.js"⟩, ⟨"d.js"⟩, ⟨"a.js"⟩] := by decide +kernel
  obtain ⟨horder, hrun, -, hfiles, -, -⟩ :=
    runAll_isolates_failures builtin {} mixedFiles mixedPaths hperm
  rw [hsucceed] at hrun hfiles
  refine ⟨hperm, ?_, ?_, by decide +kernel, hfiles⟩
  · rw [horder]
    decide +kernel
  · rw [hrun]

end Registry

end InjectionScan
