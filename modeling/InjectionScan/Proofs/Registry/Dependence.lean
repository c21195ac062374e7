import InjectionScan.Registry

/-! What an analysis depends on, of a configuration and of a registry. -/
namespace InjectionScan

variable {config config' : Config}

theorem Analyzer.run_congr (h : config.rules = config'.rules) (a : Analyzer) :
    a.run config = a.run config' := by
  funext source file root
  simp [run, report, effectiveSeverity, h]

namespace Registry

variable {registry : Registry} {fs : FileSystem} {file : Path} {f : Finding}

theorem analyzeTree_congr (h : config.rules = config'.rules) :
    registry.analyzeTree config = registry.analyzeTree config' := by
  funext language source file root
  simp [analyzeTree, Analyzer.isEnabled, h, Analyzer.run_congr h]

theorem analyzeFile_congr [Naming] (h : config.rules = config'.rules) :
    registry.analyzeFile config fs file = registry.analyzeFile config' fs file := by
  simp [analyzeFile, analyzeSource, analyzeTree_congr h]

/-- Neither the threshold nor the paths nor the output settings reach a run over files. -/
theorem runAll_congr [Naming] (h : config.rules = config'.rules)
    (hi : config.ignore.findings = config'.ignore.findings) (files : List Path) :
    registry.runAll config fs files = registry.runAll config' fs files := by
  simp [runAll, analyzeFile_congr h, hi]

/-- A file is analysed if it is text in a known language. -/
theorem analyzeFile_eq_ok_iff [Naming] {findings : List Finding} :
    registry.analyzeFile config fs file = .ok findings ↔
      ∃ source language, fs.readText file = .ok source ∧ Language.ofPath? file = some language ∧
        registry.analyzeTree config language source file (Script.parse source) = findings := by
  simp only [analyzeFile, analyzeSource]
  cases fs.readText file with
  | error e => simp
  | ok source =>
    cases Language.ofPath? file with
    | none => simp
    | some language =>
      constructor
      · intro h
        exact ⟨source, language, rfl, rfl, Except.ok.inj h⟩
      · rintro ⟨_, _, ⟨⟩, ⟨⟩, rfl⟩
        rfl

theorem exists_run_of_mem_analyzeFile [Naming] {findings : List Finding}
    (h : registry.analyzeFile config fs file = .ok findings) (hf : f ∈ findings) :
    ∃ a ∈ registry, ∃ source, fs.readText file = .ok source ∧
      f ∈ a.run config source file (Script.parse source) := by
  obtain ⟨source, language, hsource, -, rfl⟩ := analyzeFile_eq_ok_iff.1 h
  obtain ⟨a, ha, hrun⟩ := List.mem_flatMap.1 hf
  exact ⟨a, (List.mem_filter.1 ha).1, source, hsource, hrun⟩

/-- Every finding of a file is the report of some remark by a registered analyzer. -/
theorem exists_report_of_mem_analyzeFile [Naming] {findings : List Finding}
    (h : registry.analyzeFile config fs file = .ok findings) (hf : f ∈ findings) :
    ∃ a ∈ registry, ∃ source r, f = a.report config source file r := by
  obtain ⟨a, ha, source, -, hrun⟩ := exists_run_of_mem_analyzeFile h hf
  obtain ⟨r, -, rfl⟩ := List.mem_map.1 hrun
  exact ⟨a, ha, source, r, rfl⟩

theorem rule_of_mem_analyzeFile [Naming] {findings : List Finding}
    (h : registry.analyzeFile config fs file = .ok findings) (hf : f ∈ findings) :
    ∃ a ∈ registry, f.rule = a.name := by
  obtain ⟨a, ha, source, r, rfl⟩ := exists_report_of_mem_analyzeFile h hf
  exact ⟨a, ha, rfl⟩

theorem id_of_mem_analyzeFile [Naming] {findings : List Finding}
    (h : registry.analyzeFile config fs file = .ok findings) (hf : f ∈ findings) : f.id = "" := by
  obtain ⟨a, ha, source, r, rfl⟩ := exists_report_of_mem_analyzeFile h hf
  rfl

end Registry

end InjectionScan
