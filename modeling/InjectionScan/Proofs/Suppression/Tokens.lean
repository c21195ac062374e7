import InjectionScan.Proofs.Registry.Origin
import InjectionScan.Proofs.Suppression.PathRule
import Mathlib.Data.List.TakeWhile

/-! A token is compared with the code of an analyzer up to its first dash. -/
namespace InjectionScan.Suppression

open Text Registry

variable {registry : Registry} {config : Config} {fs : FileSystem} {files : List Path}
  {a : Analyzer} {f : Finding} {code token : String}

section Cut

theorem codeOfId_eq_self_iff : codeOfId code = code ↔ '-' ∉ code.toList := by
  rw [codeOfId, ← String.toList_inj, String.toList_ofList, List.takeWhile_eq_self_iff]
  simp only [bne_iff_ne, ne_eq]
  exact ⟨fun h hmem => h _ hmem rfl, fun h c hc he => h (he ▸ hc)⟩

/-- What the cut finds in an identifier, it finds in the code: the dash after the code ends it. -/
theorem codeOfId_idOf (code : String) (k : Nat) : codeOfId (idOf code k) = codeOfId code := by
  have hid : (idOf code k).toList = code.toList ++ '-' :: (threeDigits k).toList := by
    simp [idOf]
  rw [codeOfId, codeOfId, hid, List.takeWhile_append, List.takeWhile_cons_of_neg (by simp),
    List.append_nil]
  -- Either the cut comes to the dash after the code, or it ends at one inside.
  split
  · next hlength =>
    have hwhole : code.toList.takeWhile (fun c => c != '-') = code.toList :=
      (List.takeWhile_prefix _).eq_of_length hlength
    rw [hwhole]
  · rfl

/-- A code with a dash is neither what is read off its identifiers nor a star. -/
theorem token_ne_of_dash (h : '-' ∈ code.toList) : code ≠ "*" ∧ code ≠ codeOfId code := by
  constructor
  · rintro rfl
    exact absurd h (by decide)
  · intro hcut
    exact codeOfId_eq_self_iff.1 hcut.symm h

end Cut

section Single

variable {content text : String} {k : Nat} {line : List Char} {root : Path}

theorem covers_singleton_iff : covers [token] f = true ↔ Matches f token := by
  simp [covers_iff]

/-- A line whose directive has one token. -/
theorem directiveOn_iff_of_single (hline : physicalLine? content k = some line)
    (htokens : lineTokens line = [token]) : DirectiveOn content k f ↔ Matches f token := by
  simp [DirectiveOn, hline, htokens]

/-- The text is a pattern that fits the path of a finding below the root. -/
def FitsPath [Naming] (text : String) (root : Path) (f : Finding) : Prop :=
  ∃ pattern, Wildcard.parse? text = some pattern ∧
    Wildcard.fits pattern ((f.file.relativeTo? root).getD f.file).shown.toList = true

theorem suppressedByPath_single_iff [Naming] :
    SuppressedByPath (.ofList [(text, [token])]) root f ↔ FitsPath text root f ∧ Matches f token := by
  have hentries : (Dictionary.ofList [(text, [token])]).entries = [(text, [token])] := rfl
  simp [SuppressedByPath, FitsPath, hentries]

end Single

section Analyzers

variable (hnames : (registry.map Analyzer.name).Nodup)

include hnames

theorem matches_iff_of_producedBy (hf : f ∈ (registry.runAll config fs files).findings)
    (ha : registry.ProducedBy config fs files a f) (token : String) :
    Matches f token ↔ token = "*" ∨ token = codeOfId a.code ∨ token = a.name := by
  obtain ⟨k, hid⟩ := ha.exists_id_eq hnames hf
  rw [Matches, hid, codeOfId_idOf, ha.rule_eq]

/-- Tokens name analyzers whose codes have no dash. Every finding of a run has an analyzer that
produced it, and a token stands for the finding if it is a star, the analyzer's name or its code up
to the first dash. If the code has no dash, that is the code: a directive or a rule for paths with
only that token silences the findings of analyzers with the code and, unless it is also the name of
a rule, no others. If it has one, the code stands for none of the analyzer's findings. -/
theorem tokens_name_analyzers (config : Config) (fs : FileSystem) (files : List Path) :
    ∀ f ∈ (registry.runAll config fs files).findings,
      (∃ a, registry.ProducedBy config fs files a f) ∧
      ∀ a, registry.ProducedBy config fs files a f →
        (∀ token, covers [token] f = true ↔
          token = "*" ∨ token = codeOfId a.code ∨ token = a.name) ∧
        ('-' ∉ a.code.toList →
          (∀ token, covers [token] f = true ↔ token = "*" ∨ token = a.code ∨ token = a.name) ∧
          ∀ code, code ≠ "*" → code ≠ a.name →
            (∀ content k line, physicalLine? content k = some line → lineTokens line = [code] →
              (DirectiveOn content k f ↔ a.code = code)) ∧
            ∀ text root, SuppressedByPath (.ofList [(text, [code])]) root f ↔
              FitsPath text root f ∧ a.code = code) ∧
        ('-' ∈ a.code.toList → (covers [a.code] f = true ↔ a.code = a.name)) := by
  intro f hf
  refine ⟨exists_producedBy hf, fun a ha => ?_⟩
  have hmatches := matches_iff_of_producedBy hnames hf ha
  refine ⟨fun token => covers_singleton_iff.trans (hmatches token), fun hdash => ?_, fun hdash => ?_⟩
  · rw [codeOfId_eq_self_iff.2 hdash] at hmatches
    refine ⟨fun token => covers_singleton_iff.trans (hmatches token), fun code hstar hname => ?_⟩
    have hcode : Matches f code ↔ a.code = code := by
      rw [hmatches]
      simp [hstar, hname, eq_comm]
    refine ⟨fun content k line hline htokens => ?_, fun text root => ?_⟩
    · rw [directiveOn_iff_of_single hline htokens, hcode]
    · rw [suppressedByPath_single_iff, hcode]
  · obtain ⟨hstar, hcut⟩ := token_ne_of_dash hdash
    rw [covers_singleton_iff, hmatches]
    simp [hstar, hcut]

end Analyzers

def rawStrings : Analyzer :=
  .ofKind "raw-string" "SQL-RAW" "Reports string literals" "Use a template" "string" .style .info
    none

def dashedCodes : Registry := [Taint.sqlInjection, rawStrings]

def oneSum : FileSystem where
  root := .directory [("a.js", .file "d.raw(\"s\" + x)".toUTF8)]
  current := ⟨"/"⟩

theorem ids_oneSum :
    ((dashedCodes.runAll {} oneSum [⟨"a.js"⟩]).findings.map fun f => (f.id, f.rule)) =
      [("SQL-001", "sql-injection"), ("SQL-RAW-001", "raw-string")] := by
  decide +kernel

theorem exists_finding_oneSum {id rule : String}
    (h : (id, rule) ∈ [("SQL-001", "sql-injection"), ("SQL-RAW-001", "raw-string")]) :
    ∃ f ∈ (dashedCodes.runAll {} oneSum [⟨"a.js"⟩]).findings, f.id = id ∧ f.rule = rule := by
  rw [← ids_oneSum] at h
  obtain ⟨f, hf, heq⟩ := List.mem_map.1 h
  cases heq
  exact ⟨f, hf, rfl, rfl⟩

/-- The tokens of the finding for the sum, whose analyzer has a code without a dash. -/
theorem tokens_name_analyzers_oneSum :
    (dashedCodes.map Analyzer.name).Nodup ∧
    ∃ f ∈ (dashedCodes.runAll {} oneSum [⟨"a.js"⟩]).findings,
      f.id = "SQL-001" ∧ dashedCodes.ProducedBy {} oneSum [⟨"a.js"⟩] Taint.sqlInjection f ∧
      '-' ∉ Taint.sqlInjection.code.toList ∧
      ∀ token, covers [token] f = true ↔
        token = "*" ∨ token = "SQL" ∨ token = "sql-injection" := by
  have hnames : (dashedCodes.map Analyzer.name).Nodup := by decide
  obtain ⟨f, hf, hid, hrule⟩ := exists_finding_oneSum List.mem_cons_self
  obtain ⟨⟨a, ha⟩, htokens⟩ := tokens_name_analyzers hnames {} oneSum [⟨"a.js"⟩] f hf
  obtain rfl : a = Taint.sqlInjection :=
    eq_of_name_eq hnames ha.1 List.mem_cons_self (ha.rule_eq.symm.trans hrule)
  obtain ⟨-, hdashless, -⟩ := htokens _ ha
  exact ⟨hnames, f, hf, hid, ha, by decide, (hdashless (by decide)).1⟩

/-- A token that is the analyzer's code does not stand for its finding, and one that is neither its
code nor its name does. -/
theorem dashed_code_names_no_finding :
    (dashedCodes.map Analyzer.name).Nodup ∧
    ((dashedCodes.runAll {} oneSum [⟨"a.js"⟩]).findings.map fun f =>
        (f.id, covers ["SQL-RAW"] f, covers ["SQL"] f)) =
      [("SQL-001", false, true), ("SQL-RAW-001", false, true)] ∧
    ¬ ∀ f ∈ (dashedCodes.runAll {} oneSum [⟨"a.js"⟩]).findings,
      ∀ a, dashedCodes.ProducedBy {} oneSum [⟨"a.js"⟩] a f → ∀ token,
        covers [token] f = true ↔ token = "*" ∨ token = a.code ∨ token = a.name := by
  have hnames : (dashedCodes.map Analyzer.name).Nodup := by decide
  refine ⟨hnames, by decide +kernel, fun h => ?_⟩
  obtain ⟨f, hf, hid, hrule⟩ := exists_finding_oneSum (List.mem_cons_of_mem _ List.mem_cons_self)
  obtain ⟨a, ha⟩ := exists_producedBy hf
  obtain rfl : a = rawStrings :=
    eq_of_name_eq hnames ha.1 (List.mem_cons_of_mem _ List.mem_cons_self)
      (ha.rule_eq.symm.trans hrule)
  have hcovers : Matches f "SQL-RAW" := covers_singleton_iff.1 ((h f hf _ ha _).2 (.inr (.inl rfl)))
  rw [Matches, hid, hrule] at hcovers
  exact absurd hcovers (by decide +kernel)

end InjectionScan.Suppression
