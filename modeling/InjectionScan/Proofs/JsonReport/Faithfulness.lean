import InjectionScan.Command.Scan
import InjectionScan.Proofs.Codec.Finding

/-! The JSON report says exactly what was found. -/
namespace InjectionScan

section Reading

open Json

namespace Finding

variable {f : Finding}

theorem decode_asRead_encode (hf : f.Fits) : decode Json.dialect (asRead f.encode) = .ok f :=
  (exact_encode hf).decode_asRead (finds_encode readsNames hf)

/-- A suggestion is there exactly if the finding has one. -/
theorem get?_suggestion_asRead (hf : f.Fits) :
    (asRead f.encode).get? "suggestion" = f.suggestion.map Document.string := by
  have hnames : (f.fields.map Prod.fst).Nodup := (exact_encode hf).nodup_names
  rw [encode_eq, get?_asRead hnames, lookup_suggestion, Option.map_map]
  rfl

end Finding

namespace Summary

variable {s : Summary}

theorem decode_asRead_encode (hs : s.Fits) : decode Json.dialect (asRead s.encode) = .ok s :=
  (exact_encode hs).decode_asRead (finds_encode hs _ "ScanSummary")

end Summary

namespace JsonReport

variable {findings : List Finding} {summary : Summary}

/-- An entry of the report is the finding's own document. -/
theorem Entry.encode_ofFinding (f : Finding) : (Entry.ofFinding f).encode = f.encode := rfl

theorem encode_ofFindings (findings : List Finding) (summary : Summary) :
    (ofFindings findings summary).encode =
      .object [("findings", .array (findings.map Finding.encode)), ("summary", summary.encode)] := by
  have hentries : Entry.encode ∘ Entry.ofFinding = Finding.encode :=
    funext Entry.encode_ofFinding
  simp only [ofFindings, encode, List.map_map, hentries]

theorem exact_encode (hf : ∀ f ∈ findings, f.Fits) (hs : summary.Fits) :
    Exact (ofFindings findings summary).encode := by
  rw [encode_ofFindings]
  refine .object (by simp) ?_
  simp only [List.forall_mem_cons]
  refine ⟨.array ?_, Summary.exact_encode hs, by simp⟩
  intro d hd
  obtain ⟨f, hmem, rfl⟩ := List.mem_map.1 hd
  exact Finding.exact_encode (hf f hmem)

theorem mapM_decode (hf : ∀ f ∈ findings, f.Fits) :
    (findings.map fun f => asRead f.encode).mapM (Finding.decode Json.dialect) = .ok findings := by
  induction findings with
  | nil => rfl
  | cons f findings ih =>
    obtain ⟨hfirst, hrest⟩ := List.forall_mem_cons.1 hf
    rw [List.map_cons, List.mapM_cons, Finding.decode_asRead_encode hfirst, ih hrest]
    rfl

end JsonReport

/-- The report in JSON is a document whose entries are read as the findings in their order, each with
a suggestion exactly if it has one, and whose totals are read as the summary. -/
theorem Command.reportText_json_faithful (a : Command.Assessment) (hf : ∀ f ∈ a.kept, f.Fits)
    (hs : a.summary.Fits) (color : Bool) (elapsed : String) (root : Path) (config : Config)
    (showSuppressed : Bool) :
    ∃ report entries totals,
      Json.parse? (reportText .json color elapsed root config showSuppressed a) = some report ∧
      report.get? "findings" = some (.array entries) ∧
      entries.mapM (Finding.decode Json.dialect) = .ok a.kept ∧
      (entries.map fun d => d.get? "suggestion") =
        a.kept.map (fun f => f.suggestion.map Document.string) ∧
      report.get? "summary" = some totals ∧
      Summary.decode Json.dialect totals = .ok a.summary := by
  have hexact := JsonReport.exact_encode hf hs
  refine ⟨asRead (JsonReport.ofFindings a.kept a.summary).encode,
    a.kept.map fun f => asRead f.encode, asRead a.summary.encode, ?_, ?_, ?_, ?_, ?_, ?_⟩
  · exact Json.parse?_pretty hexact ['\n'] (List.forall_mem_singleton.2 (by decide))
  · rw [JsonReport.encode_ofFindings, get?_asRead (by simp), lookup_cons_ite, if_pos rfl,
      Option.map_some, asRead, asReadItems_eq, List.map_map]
    rfl
  · exact JsonReport.mapM_decode hf
  · rw [List.map_map]
    exact List.map_congr_left fun f hmem => Finding.get?_suggestion_asRead (hf f hmem)
  · rw [JsonReport.encode_ofFindings, get?_asRead (by simp), lookup_cons_ite, if_neg (by decide),
      lookup_cons_ite, if_pos rfl, Option.map_some]
  · exact Summary.decode_asRead_encode hs

/-- A finding whose texts need escapes, at the largest line, and one with a suggestion. -/
def Command.Assessment.escaped : Command.Assessment where
  report := ⟨[], [], 1⟩
  kept :=
    [⟨"SQL-001", "sql-injection", .critical, .security, "\"quoted\" \\ \n\t\x01é", ⟨"src/a b.js"⟩,
      18446744073709551615, 1, none⟩,
    ⟨"", "", .warning, .bugRisk, "", ⟨""⟩, 0, 18446744073709551615, some "use $1\r\n"⟩]
  suppressed := []
  summary := { critical := 1, warnings := 18446744073709551615 }

theorem Command.reportText_json_faithful_escaped :
    (∀ f ∈ Assessment.escaped.kept, f.Fits) ∧ Assessment.escaped.summary.Fits ∧
    ∃ report entries totals,
      Json.parse? (reportText .json false "0.0" ⟨"."⟩ {} false .escaped) = some report ∧
      report.get? "findings" = some (.array entries) ∧
      entries.mapM (Finding.decode Json.dialect) = .ok Assessment.escaped.kept ∧
      (entries.map fun d => d.get? "suggestion") = [none, some (.string "use $1\r\n")] ∧
      report.get? "summary" = some totals ∧
      Summary.decode Json.dialect totals = .ok Assessment.escaped.summary := by
  have hf : ∀ f ∈ Assessment.escaped.kept, f.Fits := by
    simp only [Assessment.escaped, List.forall_mem_cons]
    exact ⟨⟨by decide, by decide⟩, ⟨by decide, by decide⟩, by simp⟩
  have hs : Assessment.escaped.summary.Fits :=
    ⟨by decide, by decide, by decide, by decide, by decide, by decide⟩
  exact ⟨hf, hs, reportText_json_faithful .escaped hf hs false "0.0" ⟨"."⟩ {} false⟩

end Reading

end InjectionScan
