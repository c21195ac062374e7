import InjectionScan.Command.Scan
import InjectionScan.Proofs.Discovery.Extensions
import InjectionScan.Proofs.Naming.Utf8
import InjectionScan.Proofs.Registry.Dependence
import InjectionScan.Proofs.Summary.Tally
import InjectionScan.Proofs.Suppression.PathRule

/-! No finding of a scan is lost or counted twice, and the kept ones alone decide the status. -/
namespace InjectionScan.Command

open Suppression

variable {registry : Registry} {config : Config} {fs : FileSystem} {root : Path}
  {files : List Path} {env : Environment} {options : Options} {path : Option Path}
  {target : Target} {status : Status}

/-- What the rules for paths leave of the findings. -/
def leftByPath [Naming] (config : Config) (root : Path) (found : List Finding) : List Finding :=
  found.filter fun f => ¬ SuppressedByPath config.ignore.perPath root f

/-- What was found is divided into kept and suppressed findings, and the summary counts both. If all
files are shown apart, each finding is judged by its own file, and the filters may change places.
Files whose paths are text are shown apart. -/
structure Conserves [Naming] (config : Config) (fs : FileSystem) (root : Path)
    (found : List Finding) (a : Assessment) : Prop where
  kept : a.kept = found.filter fun f =>
    ¬ SuppressedByPath config.ignore.perPath root f ∧
      ¬ CoveredIn fs (fileFor (leftByPath config root found) f) f
  keptApart : ShownApart (leftByPath config root found) → a.kept = found.filter fun f =>
    ¬ SuppressedByPath config.ignore.perPath root f ∧ ¬ SuppressedInline fs f
  inlineFirst : ShownApart found → a.kept =
    (splitByPath config.ignore.perPath root (splitInline fs found).kept).kept
  apart : (∀ f ∈ found, (Naming.text? f.file.text).isSome = true) → ShownApart found
  exclusive : ∀ f ∈ found, f ∈ a.kept ↔ f ∉ a.suppressed.map Suppressed.finding
  perm : (a.kept ++ a.suppressed.map Suppressed.finding).Perm found
  counts : ∀ severity, a.summary.count severity = a.kept.countP fun f => f.severity = severity
  keptTotal : a.summary.critical + a.summary.errors + a.summary.warnings + a.summary.info =
    a.kept.length
  total : a.summary.critical + a.summary.errors + a.summary.warnings + a.summary.info +
    a.summary.suppressed = found.length

/-- What two filters leave one after the other. -/
theorem filter_not_filter_not (p q : Finding → Prop) [DecidablePred p] [DecidablePred q]
    (found : List Finding) :
    (found.filter fun f => ¬ p f).filter (fun f => ¬ q f) =
      found.filter fun f => ¬ p f ∧ ¬ q f := by
  rw [List.filter_filter]
  refine List.filter_congr fun f _ => ?_
  rw [Bool.and_comm, Bool.decide_and]

section Assess

variable [Naming] (registry config fs root files)

theorem mem_leftByPath_iff {found : List Finding} {f : Finding} :
    f ∈ leftByPath config root found ↔
      f ∈ found ∧ ¬ SuppressedByPath config.ignore.perPath root f := by
  rw [leftByPath, List.mem_filter, decide_eq_true_eq]

theorem kept_assess :
    (assess registry config fs root files).kept =
      (registry.runAll config fs files).findings.filter fun f =>
        ¬ SuppressedByPath config.ignore.perPath root f ∧ ¬ CoveredIn fs
          (fileFor (leftByPath config root (registry.runAll config fs files).findings) f) f := by
  rw [assess, kept_splitInline, kept_splitByPath, leftByPath]
  exact filter_not_filter_not _ _ _

theorem kept_assess_of_shownApart
    (h : ShownApart (leftByPath config root (registry.runAll config fs files).findings)) :
    (assess registry config fs root files).kept =
      (registry.runAll config fs files).findings.filter fun f =>
        ¬ SuppressedByPath config.ignore.perPath root f ∧ ¬ SuppressedInline fs f := by
  rw [leftByPath, ← kept_splitByPath] at h
  rw [assess, (splitInline_of_shownApart fs h).1, kept_splitByPath]
  exact filter_not_filter_not _ _ _

theorem kept_inlineFirst {found : List Finding} (h : ShownApart found) :
    (splitByPath config.ignore.perPath root (splitInline fs found).kept).kept =
      found.filter fun f =>
        ¬ SuppressedByPath config.ignore.perPath root f ∧ ¬ SuppressedInline fs f := by
  rw [(splitInline_of_shownApart fs h).1, kept_splitByPath, ← filter_not_filter_not]
  exact List.filter_comm _ _ _

/-- Those that a rule for paths suppresses, then of the rest those that a directive suppresses. -/
theorem findings_suppressed_assess :
    (assess registry config fs root files).suppressed.map Suppressed.finding =
      ((registry.runAll config fs files).findings.filter fun f =>
        SuppressedByPath config.ignore.perPath root f) ++
      (leftByPath config root (registry.runAll config fs files).findings).filter fun f =>
        CoveredIn fs
          (fileFor (leftByPath config root (registry.runAll config fs files).findings) f) f := by
  rw [assess, List.map_append, findings_suppressed_splitByPath, findings_suppressed_splitInline,
    kept_splitByPath, leftByPath]

theorem perm_assess :
    ((assess registry config fs root files).kept ++
      (assess registry config fs root files).suppressed.map Suppressed.finding).Perm
      (registry.runAll config fs files).findings := by
  rw [assess, List.map_append]
  -- with the kept findings last, the second split is put together first
  refine (List.perm_append_comm.append_left _).trans ?_
  rw [← List.append_assoc]
  exact ((perm_splitBy _ _).append_right _).trans (perm_splitBy _ _)

theorem assess_conserves :
    Conserves config fs root (registry.runAll config fs files).findings
      (assess registry config fs root files) where
  kept := kept_assess registry config fs root files
  keptApart := kept_assess_of_shownApart registry config fs root files
  inlineFirst h := by
    have hleft := h.subset fun f hf => ((mem_leftByPath_iff config root).1 hf).1
    rw [kept_assess_of_shownApart registry config fs root files hleft, kept_inlineFirst _ _ _ h]
  apart := shownApart_of_text
  exclusive := by
    intro f hf
    rw [kept_assess, findings_suppressed_assess]
    simp only [mem_leftByPath_iff, List.mem_append, List.mem_filter, hf, decide_eq_true_eq,
      true_and]
    tauto
  perm := perm_assess registry config fs root files
  counts := Summary.count_ofFindings _ _
  keptTotal := Summary.total_ofFindings _ _
  total := by
    have hperm := (perm_assess registry config fs root files).length_eq
    rw [List.length_append, List.length_map] at hperm
    rw [← hperm, ← Summary.total_ofFindings]
    rfl

end Assess

section Scan

theorem statusOf_eq_failure_iff {summary : Summary} {threshold : String} :
    statusOf summary threshold = .failure ↔ summary.exceeds threshold = true := by
  simp [statusOf]

variable [Naming]

theorem exceeds_assess_iff (threshold : String) :
    (assess registry config fs root files).summary.exceeds threshold = true ↔
      ∃ f ∈ (assess registry config fs root files).kept, Summary.Meets threshold f.severity :=
  Summary.exceeds_ofFindings_iff _ _ threshold

/-- The output settings do not reach what is found and kept. -/
theorem assess_output (output : Config.Output) :
    assess registry { config with output } fs root files =
      assess registry config fs root files := by
  have hrun : registry.runAll { config with output } fs files = registry.runAll config fs files :=
    Registry.runAll_congr rfl rfl files
  simp only [assess, hrun]

/-- A scan of no files ends as one in which nothing was found. -/
theorem result_scanWith (h : target.files env.files config = .ok files) :
    (scanWith env options target config).result =
      .ok (statusOf (assess Registry.builtin config env.files target.root files).summary
        (thresholdOf options config)) := by
  rw [scanWith, h]
  cases files with
  | nil =>
    -- nothing is assessed here, but an assessment of no files would not fail either
    have hnone : ¬ (assess Registry.builtin config env.files target.root []).summary.exceeds
        (thresholdOf options config) = true := by
      rw [exceeds_assess_iff, kept_assess]
      simp [Registry.runAll, Registry.number, Registry.numberAfter]
    simp [statusOf, hnone]
  | cons file files => rfl

/-- A scan ends early only if no configuration can be read. -/
theorem scan_cases (env : Environment) (options : Options) (path : Option Path) :
    (∃ e, Config.find env.files (Target.of env.files path).root = .error e ∧
      (scan env options path).result = .error (.configuration e)) ∨
    ∃ config, Config.find env.files (Target.of env.files path).root = .ok config ∧
      scan env options path = scanWith env options (Target.of env.files path) config := by
  unfold scan
  dsimp only
  split
  · next e he => exact .inl ⟨e, he, rfl⟩
  · next config hc => exact .inr ⟨config, hc, rfl⟩

theorem scan_eq (h : Config.find env.files (Target.of env.files path).root = .ok config) :
    scan env options path = scanWith env options (Target.of env.files path) config := by
  obtain ⟨e, he, -⟩ | ⟨config', hc, hscan⟩ := scan_cases env options path
  · cases h.symm.trans he
  · cases h.symm.trans hc
    exact hscan

/-- A scan that ends without an error has a configuration and a list of files. -/
theorem exists_of_result_scan (h : (scan env options path).result = .ok status) :
    ∃ config files,
      Config.find env.files (Target.of env.files path).root = .ok config ∧
      (Target.of env.files path).files env.files config = .ok files := by
  obtain ⟨e, -, he⟩ | ⟨config, hc, hscan⟩ := scan_cases env options path
  · cases h.symm.trans he
  · rw [hscan] at h
    cases hf : (Target.of env.files path).files env.files config with
    | error e => simp [scanWith, hf] at h
    | ok files => exact ⟨config, files, hc, hf⟩

end Scan

/-- A scan conserves its findings: those that nothing suppresses are kept, all are counted, and the
scan fails exactly if a kept finding meets the threshold. How the findings are shown does not
matter. -/
theorem scan_conserves [Naming] (h : (scan env options path).result = .ok status) :
    ∃ config files,
      Config.find env.files (Target.of env.files path).root = .ok config ∧
      (Target.of env.files path).files env.files config = .ok files ∧
      Conserves config env.files (Target.of env.files path).root
        (Registry.builtin.runAll config env.files files).findings
        (assess Registry.builtin config env.files (Target.of env.files path).root files) ∧
      (files ≠ [] → (scan env options path).stdout =
        reportText (formatOf options config) (env.color && config.output.color) env.elapsed
          (Target.of env.files path).root config options.showSuppressed
          (assess Registry.builtin config env.files (Target.of env.files path).root files)) ∧
      (status = .failure ↔
        ∃ f ∈ (assess Registry.builtin config env.files (Target.of env.files path).root files).kept,
          Summary.Meets (options.failOn.getD config.general.failOn) f.severity) ∧
      (∀ options', options'.failOn = options.failOn →
        (scan env options' path).result = .ok status ∧
        ∀ color elapsed output,
          (scanWith ⟨env.files, color, elapsed⟩ options' (Target.of env.files path)
            { config with output }).result = .ok status) := by
  obtain ⟨config, files, hc, hf⟩ := exists_of_result_scan h
  have hstatus : status = statusOf
      (assess Registry.builtin config env.files (Target.of env.files path).root files).summary
      (thresholdOf options config) := by
    rw [scan_eq hc, result_scanWith hf] at h
    exact (Except.ok.inj h).symm
  refine ⟨config, files, hc, hf, assess_conserves _ _ _ _ _, ?_, ?_, ?_⟩
  · intro hne
    rw [scan_eq hc]
    simp [scanWith, hf, hne]
  · rw [hstatus, statusOf_eq_failure_iff, exceeds_assess_iff, thresholdOf]
  · intro options' hsame
    have hthreshold : thresholdOf options' config = thresholdOf options config := by
      rw [thresholdOf, thresholdOf, hsame]
    refine ⟨?_, fun color elapsed output => ?_⟩
    · rw [scan_eq hc, result_scanWith hf, hthreshold, hstatus]
    · have hf' : (Target.of env.files path).files (Environment.mk env.files color elapsed).files
          { config with output } = .ok files := hf
      rw [result_scanWith hf', assess_output, hstatus, ← hthreshold]
      rfl

/-- One file with two calls that are reported, the second one with a directive. -/
def twoCalls : Environment where
  files :=
    { root := .directory
        [("a.js", .file "d.query(`${x}`);\nd;\nd.query(`${x}`); // sqlscan-ignore SQL".toUTF8)]
      current := ⟨"/"⟩ }
  color := false
  elapsed := ""

/-- The call without a directive is kept and makes the scan fail, also if the report is in another
format. The other one is counted as suppressed. -/
theorem scan_conserves_twoCalls :
    (scan twoCalls {} (some ⟨"a.js"⟩)).result = .ok .failure ∧
    (∃ found assessed, Conserves {} twoCalls.files ⟨"/"⟩ found assessed ∧
      (found.map Finding.line = [1, 3] ∧
        assessed.kept.map Finding.line = [1] ∧
        assessed.suppressed.map (fun s => (s.finding.line, s.reason)) = [(3, "inline")] ∧
        assessed.summary = { critical := 1, suppressed := 1, filesAnalyzed := 1 }) ∧
      ∃ f ∈ assessed.kept, Summary.Meets ({} : Config).general.failOn f.severity) ∧
    (scan twoCalls { format := some .json, showSuppressed := true } (some ⟨"a.js"⟩)).result =
      .ok .failure := by
  have hroot : (Target.of twoCalls.files (some ⟨"a.js"⟩)).root = ⟨"/"⟩ := by decide +kernel
  have hconfig : Config.find twoCalls.files ⟨"/"⟩ = .ok {} := by decide +kernel
  have hfiles : (Target.of twoCalls.files (some ⟨"a.js"⟩)).files twoCalls.files {} =
      .ok [⟨"/a.js"⟩] := by decide +kernel
  -- all that is evaluated of the assessment in one term, for which the file is parsed once
  have hassess :
      let found := (Registry.builtin.runAll {} twoCalls.files [⟨"/a.js"⟩]).findings
      let assessed := assess Registry.builtin {} twoCalls.files ⟨"/"⟩ [⟨"/a.js"⟩]
      statusOf assessed.summary (thresholdOf {} {}) = .failure ∧
        found.map Finding.line = [1, 3] ∧
        assessed.kept.map Finding.line = [1] ∧
        assessed.suppressed.map (fun s => (s.finding.line, s.reason)) = [(3, "inline")] ∧
        assessed.summary = { critical := 1, suppressed := 1, filesAnalyzed := 1 } := by
    decide +kernel
  have hscan : (scan twoCalls {} (some ⟨"a.js"⟩)).result = .ok .failure := by
    rw [scan_eq (hroot ▸ hconfig), result_scanWith hfiles, hroot, hassess.1]
  obtain ⟨config, files, hc, hf, hconserves, -, hstatus, hformat⟩ := scan_conserves hscan
  rw [hroot] at hc hconserves hstatus
  obtain rfl := Except.ok.inj (hconfig.symm.trans hc)
  obtain rfl := Except.ok.inj (hfiles.symm.trans hf)
  exact ⟨hscan, ⟨_, _, hconserves, hassess.2, hstatus.1 rfl⟩, (hformat _ rfl).1⟩

/-- Two files that are shown alike, each with a call that is reported. Only the first one has a
directive. -/
def twoCafes : Environment where
  files :=
    { root := .directory
        [("caf\xe8.js", .file "// sqlscan-ignore SQL\nd.query(`${x}`);".toUTF8),
          ("caf\xe9.js", .file "\nd.query(`${x}`);".toUTF8)]
      current := ⟨"/"⟩ }
  color := false
  elapsed := ""

/-- The scan succeeds, although nothing suppresses the call in the second file. -/
theorem scan_passes_files_shown_alike :
    (@scan .utf8 twoCafes {} none).result = .ok .success ∧
    (∃ files, @Target.files .utf8 (Target.of twoCafes.files none) twoCafes.files {} = .ok files ∧
      ((@Registry.runAll .utf8 Registry.builtin {} twoCafes.files files).findings.filter fun f =>
        ¬ @SuppressedByPath .utf8 ({} : Config).ignore.perPath ⟨"/"⟩ f ∧
          ¬ SuppressedInline twoCafes.files f).map (fun f => (f.file, f.line, f.severity)) =
        [(⟨"/caf\xe9.js"⟩, 2, .critical)]) ∧
    Summary.Meets ({} : Config).general.failOn .critical := by
  have hfiles : @Target.files .utf8 (Target.of twoCafes.files none) twoCafes.files {} =
      .ok [⟨"/caf\xe8.js"⟩, ⟨"/caf\xe9.js"⟩] := by
    unfold Target.files Discovery.sources
    rw [if_neg (by decide +kernel)]
    exact @Discovery.search_of_pairwise .utf8 _ _ _ _ [] _ rfl (by decide +kernel)
      (by decide +kernel) (by decide +kernel)
  have hconfig : Config.find twoCafes.files (Target.of twoCafes.files none).root = .ok {} := by
    decide +kernel
  have hassess :
      statusOf (@assess .utf8 Registry.builtin {} twoCafes.files ⟨"/"⟩
        [⟨"/caf\xe8.js"⟩, ⟨"/caf\xe9.js"⟩]).summary (thresholdOf {} {}) = .success ∧
      ((@Registry.runAll .utf8 Registry.builtin {} twoCafes.files
        [⟨"/caf\xe8.js"⟩, ⟨"/caf\xe9.js"⟩]).findings.filter fun f =>
          ¬ @SuppressedByPath .utf8 ({} : Config).ignore.perPath ⟨"/"⟩ f ∧
            ¬ SuppressedInline twoCafes.files f).map (fun f => (f.file, f.line, f.severity)) =
        [(⟨"/caf\xe9.js"⟩, 2, .critical)] := by
    decide +kernel
  refine ⟨?_, ⟨_, hfiles, hassess.2⟩, .critical, by decide +kernel⟩
  rw [@scan_eq _ _ _ _ .utf8 hconfig, @result_scanWith _ _ _ _ _ .utf8 hfiles]
  exact congrArg _ hassess.1

end InjectionScan.Command
