import InjectionScan.Proofs.Registry.Origin
import InjectionScan.Proofs.Sarif.References

/-! The first analyzer that answers to a rule, by name or by code, describes it in a log. -/
namespace InjectionScan

/-- The code of the analyzer is the part of the key before its first dash, capitals aside. -/
def Analyzer.Captures (a : Analyzer) (key : String) : Prop :=
  a.code.toList.map Char.toLower = (key.toList.takeWhile fun c => c != '-').map Char.toLower

instance (a : Analyzer) (key : String) : Decidable (a.Captures key) :=
  inferInstanceAs (Decidable (_ = _))

namespace Registry

variable {registry before after : Registry} {a b : Analyzer} {key : String}

theorem find?_eq (registry : Registry) (key : String) :
    registry.find? key = List.find? (fun a => a.name = key ∨ a.Captures key) registry := by
  rw [find?]
  congr 1
  funext a
  rw [Bool.eq_iff_iff, decide_eq_true_iff]
  simp [Analyzer.Captures]

theorem exists_find?_name (h : a ∈ registry) : ∃ b ∈ registry, registry.find? a.name = some b := by
  have hsome : (registry.find? a.name).isSome = true := by
    rw [find?_eq, List.find?_isSome]
    exact ⟨a, h, by simp⟩
  obtain ⟨b, hb⟩ := Option.isSome_iff_exists.1 hsome
  exact ⟨b, List.mem_of_find?_eq_some hb, hb⟩

theorem name_ne_of_mem_before (hnames : ((before ++ a :: after).map Analyzer.name).Nodup)
    (hb : b ∈ before) : b.name ≠ a.name := by
  rw [List.map_append, List.nodup_append] at hnames
  exact hnames.2.2 _ (List.mem_map_of_mem hb) _ (by simp)

/-- An analyzer is found by its name unless one before it answers by its code. -/
theorem find?_name_eq_some_iff (hnames : ((before ++ a :: after).map Analyzer.name).Nodup) :
    find? (before ++ a :: after) a.name = some a ↔ ∀ b ∈ before, ¬ b.Captures a.name := by
  rw [find?_eq, List.find?_append]
  constructor
  · intro hfind b hb hcaptures
    have hsome : (List.find? (fun b => b.name = a.name ∨ b.Captures a.name) before).isSome = true :=
      List.find?_isSome.2 ⟨b, hb, by simp [hcaptures]⟩
    obtain ⟨c, hc⟩ := Option.isSome_iff_exists.1 hsome
    rw [hc, Option.some_or, Option.some_inj] at hfind
    subst hfind
    exact name_ne_of_mem_before hnames (List.mem_of_find?_eq_some hc) rfl
  · intro hnone
    have hbefore : List.find? (fun b => b.name = a.name ∨ b.Captures a.name) before = none := by
      rw [List.find?_eq_none]
      intro b hb
      simp [name_ne_of_mem_before hnames hb, hnone b hb]
    rw [hbefore, Option.none_or, List.find?_cons_of_pos (by simp)]

/-- Findings are numbered by the code of the analyzer that their rule is named for. -/
theorem codeOf_name (hnames : ((before ++ a :: after).map Analyzer.name).Nodup) :
    codeOf (before ++ a :: after) a.name = a.code :=
  codeOf_of_mem hnames (by simp)

end Registry

namespace Sarif

variable {registry before after : Registry} {root : Path} {findings : List Finding}
  {a b : Analyzer} {d : Descriptor}

/-- A descriptor says of a rule what the analyzer says that answers to it. -/
structure DescribedBy (d : Descriptor) (a : Analyzer) : Prop where
  description : d.shortDescription.text = a.description
  level : HasLevel a.severity d.defaultConfiguration.level

theorem describedBy_of_mem_entries {rule : String}
    (hd : (rule, d) ∈ (rulesOf registry findings).entries) (hb : registry.find? rule = some b) :
    DescribedBy d b := by
  obtain ⟨f, -, rfl, rfl⟩ := exists_of_mem_entries hd
  exact ⟨by simp [describe, hb], by simpa [describe, hb] using hasLevel_levelOf b.severity⟩

/-- The first analyzer that answers to a rule describes it. That is the analyzer of that name, by
whose code the findings are numbered, exactly if none registered before it answers by its code. -/
theorem logOf_describes_first_answering (hsplit : registry = before ++ a :: after)
    (hnames : (registry.map Analyzer.name).Nodup) (root : Path) (findings : List Finding) :
    registry.codeOf a.name = a.code ∧
    (registry.find? a.name = some a ↔ ∀ b ∈ before, ¬ b.Captures a.name) ∧
    ∀ run ∈ (logOf registry root findings).runs, ∀ d ∈ run.tool.driver.rules, d.id = a.name →
      (∃ b ∈ registry, registry.find? a.name = some b ∧ DescribedBy d b) ∧
      ((∀ b ∈ before, ¬ b.Captures a.name) → DescribedBy d a) := by
  subst hsplit
  refine ⟨Registry.codeOf_name hnames, Registry.find?_name_eq_some_iff hnames, ?_⟩
  intro run hrun d hd hid
  obtain rfl := List.mem_singleton.1 hrun
  obtain ⟨⟨rule, d⟩, he, rfl⟩ := List.mem_map.1 hd
  obtain rfl : rule = a.name := (id_of_mem_entries he).symm.trans hid
  refine ⟨?_, fun hnone => ?_⟩
  · have ha : a ∈ before ++ a :: after := by simp
    obtain ⟨b, hb, hfind⟩ := Registry.exists_find?_name ha
    exact ⟨b, hb, hfind, describedBy_of_mem_entries he hfind⟩
  · exact describedBy_of_mem_entries he ((Registry.find?_name_eq_some_iff hnames).2 hnone)

/-- An analyzer whose name starts with the code of another one. -/
def formatting : Analyzer :=
  .ofKind "sql-format" "FMT" "Reports string literals" "Use a template" "string" .style .info none

def findingOf (rule : String) : Finding where
  id := "FMT-001"
  rule
  severity := .info
  category := .style
  message := "Use a template"
  file := ⟨"app.js"⟩
  line := 1
  column := 1
  suggestion := none

/-- The code of the analyzer registered first does not start the name of the other one. -/
theorem logOf_describes_first_answering_formatting :
    Registry.find? [formatting, Taint.sqlInjection] "sql-injection" = some Taint.sqlInjection ∧
    ((logOf [formatting, Taint.sqlInjection] ⟨""⟩ [findingOf "sql-injection"]).runs.map
      fun run => run.tool.driver.rules.map Descriptor.id) = [["sql-injection"]] ∧
    ∀ run ∈ (logOf [formatting, Taint.sqlInjection] ⟨""⟩ [findingOf "sql-injection"]).runs,
      ∀ d ∈ run.tool.driver.rules, d.id = "sql-injection" → DescribedBy d Taint.sqlInjection := by
  have hnone : ∀ b ∈ [formatting], ¬ b.Captures Taint.sqlInjection.name := by decide +kernel
  have hsplit : ([formatting, Taint.sqlInjection] : Registry) =
      [formatting] ++ Taint.sqlInjection :: [] := rfl
  obtain ⟨-, hfind, hlog⟩ := logOf_describes_first_answering hsplit (by decide +kernel) ⟨""⟩
    [findingOf "sql-injection"]
  exact ⟨hfind.2 hnone, by decide +kernel, fun run hrun d hd hid => (hlog run hrun d hd hid).2 hnone⟩

/-- Registered after the other one, the analyzer is not the one that describes its rule, although
their names and their codes differ. -/
theorem logOf_describes_other_analyzer :
    ([Taint.sqlInjection, formatting].map Analyzer.name).Nodup ∧
    ([Taint.sqlInjection, formatting].map Analyzer.code).Nodup ∧
    ¬ ∀ (root : Path) (findings : List Finding),
      ∀ run ∈ (logOf [Taint.sqlInjection, formatting] root findings).runs,
      ∀ d ∈ run.tool.driver.rules, d.id = formatting.name → DescribedBy d formatting := by
  refine ⟨by decide +kernel, by decide +kernel, fun h => ?_⟩
  have hmem : describe [Taint.sqlInjection, formatting] (findingOf "sql-format") ∈
      ((rulesOf [Taint.sqlInjection, formatting] [findingOf "sql-format"]).entries.map
        Prod.snd) := by
    decide +kernel
  have hdescribed := h ⟨""⟩ [findingOf "sql-format"] _ (List.mem_singleton_self _) _ hmem rfl
  exact absurd hdescribed.description (by decide +kernel)

end Sarif

end InjectionScan
