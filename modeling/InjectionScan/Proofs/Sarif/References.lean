import InjectionScan.Output.Sarif
import InjectionScan.Proofs.Dictionary.Lookup
import InjectionScan.Proofs.Text.ByteOrder
import Mathlib.Data.List.Forall2

/-! Every result of a log points to its rule, and each rule is listed once. -/
namespace InjectionScan.Sarif

variable {registry : Registry} {root : Path} {findings : List Finding} {f : Finding}
  {rule : String} {descriptor : Descriptor}

section Rules

/-- A rule keeps the descriptor of its first finding. -/
theorem get?_addRule (rules : Dictionary Descriptor) (f : Finding) (rule : String) :
    (if (rules.get? f.rule).isSome then rules
      else rules.insert f.rule (describe registry f)).get? rule =
      (rules.get? rule).or (if f.rule = rule then some (describe registry f) else none) := by
  by_cases hrule : f.rule = rule
  · subst hrule
    cases hget : rules.get? f.rule with
    | none => simp [Dictionary.get?_insert]
    | some d => simp [hget]
  · split <;> simp [Dictionary.get?_insert, hrule]

theorem get?_foldl_addRule (findings : List Finding) (rules : Dictionary Descriptor)
    (rule : String) :
    (findings.foldl (fun rules f =>
      if (rules.get? f.rule).isSome then rules
      else rules.insert f.rule (describe registry f)) rules).get? rule =
      (rules.get? rule).or ((findings.find? fun f => f.rule == rule).map (describe registry)) := by
  induction findings generalizing rules with
  | nil => simp
  | cons f findings ih =>
    rw [List.foldl_cons, ih, get?_addRule, Option.or_assoc]
    by_cases hrule : f.rule = rule <;> simp [hrule]

theorem get?_rulesOf (registry : Registry) (findings : List Finding) (rule : String) :
    (rulesOf registry findings).get? rule =
      (findings.find? fun f => f.rule == rule).map (describe registry) := by
  rw [rulesOf, get?_foldl_addRule, Dictionary.get?_empty, Option.none_or]

/-- An entry describes its rule as some finding of that rule has it described. -/
theorem exists_of_mem_entries (h : (rule, descriptor) ∈ (rulesOf registry findings).entries) :
    ∃ f ∈ findings, f.rule = rule ∧ descriptor = describe registry f := by
  rw [← Dictionary.get?_eq_some_iff, get?_rulesOf] at h
  obtain ⟨f, hf, rfl⟩ := Option.map_eq_some_iff.1 h
  exact ⟨f, List.mem_of_find?_eq_some hf, by simpa using List.find?_some hf, rfl⟩

theorem id_of_mem_entries {e : String × Descriptor}
    (h : e ∈ (rulesOf registry findings).entries) : e.2.id = e.1 := by
  obtain ⟨f, -, hrule, hd⟩ := exists_of_mem_entries h
  rw [hd, ← hrule]
  rfl

theorem mem_names_rulesOf_iff (registry : Registry) :
    rule ∈ (rulesOf registry findings).entries.map Prod.fst ↔ ∃ f ∈ findings, f.rule = rule := by
  rw [← Dictionary.isSome_get?_iff, get?_rulesOf, Option.isSome_map, List.find?_isSome]
  simp

theorem map_id_rulesOf :
    ((rulesOf registry findings).entries.map Prod.snd).map Descriptor.id =
      (rulesOf registry findings).entries.map Prod.fst := by
  rw [List.map_map]
  exact List.map_congr_left fun e he => id_of_mem_entries he

end Rules

/-- The words of the format for severities. -/
inductive HasLevel : Severity → String → Prop
  | critical : HasLevel .critical "error"
  | error : HasLevel .error "error"
  | warning : HasLevel .warning "warning"
  | info : HasLevel .info "note"

theorem hasLevel_levelOf (severity : Severity) : HasLevel severity (levelOf severity) := by
  cases severity with
  | critical => exact .critical
  | error => exact .error
  | warning => exact .warning
  | info => exact .info

/-- The result of a finding says what the finding says and points to its rule. -/
structure Refers (rules : List Descriptor) (f : Finding) (r : Result) : Prop where
  ruleId : r.ruleId = f.rule
  message : r.message.text = f.message
  level : HasLevel f.severity r.level
  ruleIndex : ∃ h : r.ruleIndex < rules.length, rules[r.ruleIndex].id = r.ruleId
  located : ∃ place, r.locations = [place] ∧
    1 ≤ place.physical.region.startLine ∧
    (0 < f.line → place.physical.region.startLine = f.line) ∧
    1 ≤ place.physical.region.startColumn ∧
    (0 < f.column → place.physical.region.startColumn = f.column)

/-- As the rule of a finding is among the names, its place is found. -/
theorem exists_ruleIndex_resultOf [Naming] (registry : Registry) (root : Path) (h : f ∈ findings) :
    ∃ e, (rulesOf registry findings).entries[
        (resultOf (rulesOf registry findings) root f).ruleIndex]? = some e ∧ e.1 = f.rule := by
  have hname : f.rule ∈ (rulesOf registry findings).entries.map Prod.fst :=
    (mem_names_rulesOf_iff registry).2 ⟨f, h, rfl⟩
  have hexists : ∃ e ∈ (rulesOf registry findings).entries, (e.1 == f.rule) = true := by
    simpa using hname
  have hlt := List.findIdx_lt_length.2 hexists
  have hindex : (resultOf (rulesOf registry findings) root f).ruleIndex =
      (rulesOf registry findings).entries.findIdx fun e => e.1 == f.rule := by
    rw [resultOf, List.findIdx?_eq_some_of_exists hexists, Option.getD_some]
  refine ⟨_, by rw [hindex, List.getElem?_eq_getElem hlt], ?_⟩
  simpa using List.findIdx_getElem (w := hlt)

theorem refers_resultOf [Naming] (h : f ∈ findings) :
    Refers ((rulesOf registry findings).entries.map Prod.snd) f
      (resultOf (rulesOf registry findings) root f) where
  ruleId := rfl
  message := rfl
  level := hasLevel_levelOf f.severity
  ruleIndex := by
    obtain ⟨e, he, hname⟩ := exists_ruleIndex_resultOf registry root h
    obtain ⟨hlt, rfl⟩ := List.getElem?_eq_some_iff.1 he
    refine ⟨by rwa [List.length_map], ?_⟩
    rw [List.getElem_map, id_of_mem_entries (List.getElem_mem hlt)]
    exact hname
  located := by
    refine ⟨_, rfl, Nat.le_max_right _ _, ?_, Nat.le_max_right _ _, ?_⟩
    · exact fun hline => Nat.max_eq_left hline
    · exact fun hcolumn => Nat.max_eq_left hcolumn

/-- The references inside a log hold. Its one run lists the rules of the findings in the order of
their bytes, each once, and has one result for each finding, which points to the rule of that
finding. -/
theorem logOf_references [Naming] (registry : Registry) (root : Path) (findings : List Finding) :
    ∃ run, (logOf registry root findings).runs = [run] ∧
      run.tool.driver.rules.Pairwise (fun a b => a.id.toUTF8.toList < b.id.toUTF8.toList) ∧
      (∀ rule, (∃ d ∈ run.tool.driver.rules, d.id = rule) ↔ ∃ f ∈ findings, f.rule = rule) ∧
      List.Forall₂ (Refers run.tool.driver.rules) findings run.results := by
  refine ⟨_, rfl, ?_, ?_, ?_⟩
  · have hnames := (rulesOf registry findings).increasing
    refine List.pairwise_map.2 (hnames.imp_of_mem fun ha hb hlt => ?_)
    rw [id_of_mem_entries ha, id_of_mem_entries hb]
    exact Text.toUTF8_lt_toUTF8 hlt
  · intro rule
    rw [← mem_names_rulesOf_iff registry, ← map_id_rulesOf, List.mem_map]
  · refine List.forall₂_map_right_iff.2 (List.forall₂_same.2 fun f hf => ?_)
    exact refers_resultOf hf

def graded (rule : String) (severity : Severity) (line : Nat) : Finding where
  id := ""
  rule
  severity
  category := .security
  message := ""
  file := ⟨"/repo/a.js"⟩
  line
  column := 2 * line
  suggestion := none

/-- Findings of three rules, one of which comes twice, with all severities. -/
def severalRules : List Finding :=
  [graded "xss" .warning 4, graded "sql-injection" .critical 3, graded "xss" .info 0,
    graded "eval" .error 1]

theorem logOf_references_severalRules :
    ∃ run, (logOf Registry.builtin ⟨"/repo"⟩ severalRules).runs = [run] ∧
      List.Forall₂ (Refers run.tool.driver.rules) severalRules run.results ∧
      run.tool.driver.rules.map Descriptor.id = ["eval", "sql-injection", "xss"] ∧
      run.results.map (fun r => (r.ruleId, r.ruleIndex, r.level)) =
        [("xss", 2, "warning"), ("sql-injection", 1, "error"), ("xss", 2, "note"),
          ("eval", 0, "error")] ∧
      run.results.flatMap (fun r => r.locations.map fun l => l.physical.region) =
        [⟨4, 8⟩, ⟨3, 6⟩, ⟨1, 1⟩, ⟨1, 2⟩] := by
  obtain ⟨run, hruns, -, -, hrefers⟩ := logOf_references Registry.builtin ⟨"/repo"⟩ severalRules
  refine ⟨run, hruns, hrefers, ?_⟩
  obtain rfl := List.singleton_inj.1 hruns
  decide +kernel

end InjectionScan.Sarif
