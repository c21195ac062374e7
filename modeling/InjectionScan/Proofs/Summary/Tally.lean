import InjectionScan.Summary

/-! A summary exceeds a threshold exactly if one of its findings meets it. -/
namespace InjectionScan.Summary

variable {s : Summary} {findings : List Finding} {severity : Severity} {threshold : String}

/-- How many findings of a severity a summary has. -/
def count (s : Summary) : Severity → Nat
  | .critical => s.critical
  | .error => s.errors
  | .warning => s.warnings
  | .info => s.info

theorem total_eq :
    s.total = s.count .critical + s.count .error + s.count .warning + s.count .info := rfl

theorem total_pos_iff :
    0 < s.total ↔ 0 < s.critical ∨ 0 < s.errors ∨ 0 < s.warnings ∨ 0 < s.info := by
  rw [total]
  omega

theorem count_add (s : Summary) (added severity : Severity) :
    (s.add added).count severity = s.count severity + if added = severity then 1 else 0 := by
  cases added <;> cases severity <;> rfl

theorem count_foldl_add (s : Summary) (findings : List Finding) (severity : Severity) :
    (findings.foldl (fun s f => s.add f.severity) s).count severity =
      s.count severity + findings.countP fun f => f.severity = severity := by
  induction findings generalizing s with
  | nil => rfl
  | cons f findings ih =>
    rw [List.foldl_cons, ih, count_add, List.countP_cons]
    simp only [decide_eq_true_eq]
    omega

theorem count_ofFindings (findings : List Finding) (filesAnalyzed : Nat) (severity : Severity) :
    (ofFindings findings filesAnalyzed).count severity =
      findings.countP fun f => f.severity = severity := by
  rw [ofFindings, count_foldl_add]
  cases severity <;> simp [count]

/-- Every finding is counted for one severity. -/
theorem total_ofFindings (findings : List Finding) (filesAnalyzed : Nat) :
    (ofFindings findings filesAnalyzed).total = findings.length := by
  simp only [total_eq, count_ofFindings]
  induction findings with
  | nil => rfl
  | cons f findings ih => cases hs : f.severity <;> simp [hs] <;> omega

/-- The least severity that makes a scan fail. No severity does for `never`, and a word that names
none stands for an error. -/
def leastSeverity? (threshold : String) : Option Severity :=
  if threshold = "never" then none
  else some ((Severity.all.find? fun s => s.name == threshold).getD .error)

/-- A severity is at least as severe as a threshold. -/
def Meets (threshold : String) (severity : Severity) : Prop :=
  ∃ least, leastSeverity? threshold = some least ∧ severity.rank ≤ least.rank

theorem meets_iff {least : Severity} (h : leastSeverity? threshold = some least) :
    Meets threshold severity ↔ severity.rank ≤ least.rank := by
  simp [Meets, h]

theorem not_meets_never : ¬ Meets "never" severity := by
  simp [Meets, leastSeverity?]

theorem leastSeverity?_name (severity : Severity) :
    leastSeverity? severity.name = some severity := by
  cases severity <;> decide

theorem leastSeverity?_of_unknown (hn : threshold ≠ "never")
    (h : ∀ severity : Severity, threshold ≠ severity.name) :
    leastSeverity? threshold = some .error := by
  have hnone : (Severity.all.find? fun s => s.name == threshold) = none := by
    simp only [List.find?_eq_none, beq_iff_eq]
    exact fun severity _ he => h severity he.symm
  rw [leastSeverity?, if_neg hn, hnone, Option.getD_none]

theorem exists_severity {p : Severity → Prop} :
    (∃ severity, p severity) ↔ p .critical ∨ p .error ∨ p .warning ∨ p .info := by
  constructor
  · rintro ⟨severity, h⟩
    cases severity <;> simp [h]
  · rintro (h | h | h | h) <;> exact ⟨_, h⟩

/-- A summary exceeds a threshold if it counts findings of a severity that meets it. -/
theorem exceeds_iff (s : Summary) (threshold : String) :
    s.exceeds threshold = true ↔ ∃ severity, Meets threshold severity ∧ 0 < s.count severity := by
  rw [exists_severity]
  by_cases hnamed : ∃ least : Severity, threshold = least.name
  · obtain ⟨least, rfl⟩ := hnamed
    simp only [meets_iff (leastSeverity?_name least)]
    cases least <;> simp [exceeds, Severity.name, Severity.rank, count, total_pos_iff, or_assoc]
  · have hother : ∀ severity : Severity, threshold ≠ severity.name := by simpa using hnamed
    by_cases hn : threshold = "never"
    · subst hn
      simp [exceeds, not_meets_never]
    · have hunknown : s.exceeds threshold = (0 < s.critical || 0 < s.errors : Bool) := by
        have hc : threshold ≠ "critical" := hother .critical
        have he : threshold ≠ "error" := hother .error
        have hw : threshold ≠ "warning" := hother .warning
        have hi : threshold ≠ "info" := hother .info
        rw [exceeds, if_neg hc, if_neg he, if_neg hw, if_neg hi, if_neg hn]
      simp [hunknown, meets_iff (leastSeverity?_of_unknown hn hother), Severity.rank, count]

theorem exceeds_ofFindings_iff (findings : List Finding) (filesAnalyzed : Nat)
    (threshold : String) :
    (ofFindings findings filesAnalyzed).exceeds threshold = true ↔
      ∃ f ∈ findings, Meets threshold f.severity := by
  simp only [exceeds_iff, count_ofFindings, List.countP_pos_iff, decide_eq_true_eq]
  constructor
  · rintro ⟨severity, hm, f, hf, rfl⟩
    exact ⟨f, hf, hm⟩
  · rintro ⟨f, hf, hm⟩
    exact ⟨f.severity, hm, f, hf, rfl⟩

end InjectionScan.Summary
