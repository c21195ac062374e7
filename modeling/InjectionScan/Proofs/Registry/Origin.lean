import InjectionScan.Proofs.Registry.Isolation
import Mathlib.Data.List.Nodup

/-! Every finding of a run is, but for its identifier, the report of one analyzer. -/
namespace InjectionScan

variable {config : Config} {source : String} {file : Path} {a b : Analyzer} {f : Finding}

theorem Analyzer.rule_of_mem_run {root : Syntax.Node} (h : f ∈ a.run config source file root) :
    f.rule = a.name := by
  obtain ⟨r, -, rfl⟩ := List.mem_map.1 h
  rfl

theorem Analyzer.file_of_mem_run {root : Syntax.Node} (h : f ∈ a.run config source file root) :
    f.file = file := by
  obtain ⟨r, -, rfl⟩ := List.mem_map.1 h
  rfl

namespace Registry

variable {registry : Registry} {fs : FileSystem} {files : List Path}

/-- But for its identifier, the finding is one of the analyzer's reports on a file. -/
def ProducedBy (registry : Registry) (config : Config) (fs : FileSystem) (files : List Path)
    (a : Analyzer) (f : Finding) : Prop :=
  a ∈ registry ∧ f.file ∈ files ∧ ∃ source, fs.readText f.file = .ok source ∧
    f.withoutId ∈ a.run config source f.file (Script.parse source)

theorem exists_producedBy (h : f ∈ (registry.runAll config fs files).findings) :
    ∃ a, registry.ProducedBy config fs files a f := by
  rw [runAll_findings, ← fullReport_findings] at h
  have hmem : f.withoutId ∈ registry.unnumbered config fs files := by
    rw [← map_withoutId_fullReport]
    exact List.mem_map_of_mem (List.mem_filter.1 h).1
  obtain ⟨file, hfile, hf⟩ := List.mem_flatMap.1 hmem
  cases hr : registry.analyzeFile config fs file with
  | error e => simp [hr, Except.toOption] at hf
  | ok findings =>
    rw [hr] at hf
    obtain ⟨a, ha, source, hsource, hrun⟩ := exists_run_of_mem_analyzeFile hr hf
    have hplace : f.withoutId.file = file := Analyzer.file_of_mem_run hrun
    obtain rfl : f.file = file := hplace
    exact ⟨a, ha, hfile, source, hsource, hrun⟩

theorem ProducedBy.rule_eq (h : registry.ProducedBy config fs files a f) : f.rule = a.name := by
  obtain ⟨-, -, source, -, hrun⟩ := h
  have hrule : f.withoutId.rule = a.name := Analyzer.rule_of_mem_run hrun
  exact hrule

section Names

variable (hnames : (registry.map Analyzer.name).Nodup)

include hnames

theorem eq_of_name_eq (ha : a ∈ registry) (hb : b ∈ registry) (h : a.name = b.name) : a = b :=
  List.inj_on_of_nodup_map hnames ha hb h

/-- Findings are numbered by the code of the analyzer that their rule is named for. -/
theorem codeOf_of_mem (ha : a ∈ registry) : registry.codeOf a.name = a.code := by
  have hsome : (List.find? (fun b => b.name == a.name) registry).isSome = true :=
    List.find?_isSome.2 ⟨a, ha, by simp⟩
  obtain ⟨b, hb⟩ := Option.isSome_iff_exists.1 hsome
  have hname : b.name = a.name := by simpa using List.find?_some hb
  obtain rfl : b = a := eq_of_name_eq hnames (List.mem_of_find?_eq_some hb) ha hname
  rw [codeOf, hb]
  rfl

/-- The identifier of a finding starts with the code of the analyzer that produced it. -/
theorem ProducedBy.exists_id_eq (h : registry.ProducedBy config fs files a f)
    (hf : f ∈ (registry.runAll config fs files).findings) : ∃ k, f.id = idOf a.code k := by
  rw [runAll_findings] at hf
  obtain ⟨k, -, hid⟩ := id_of_mem_numberAfter (List.mem_filter.1 hf).1
  rw [h.rule_eq, codeOf_of_mem hnames h.1] at hid
  exact ⟨k, hid⟩

end Names

end Registry

end InjectionScan
