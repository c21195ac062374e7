import InjectionScan.Output.JsonReport
import InjectionScan.Proofs.Codec.Config
import InjectionScan.Proofs.Codec.Sarif

/-! Each value has one canonical document, from which it is read back. -/
namespace InjectionScan

open Decoder (finds_text finds_count yields_count)
open Json (Canonical Codec)
open Record (finds_field finds_object yields_decode yields_field)

namespace JsonReport

structure Entry.Fits (e : Entry) : Prop where
  line : e.line < Nat.pow 2 64
  column : e.column < Nat.pow 2 64

theorem Entry.codec : Codec encode decode Fits where
  finds e he := by
    refine finds_object _ (.seq (.seq (.seq (.seq (.seq (.seq (.seq (.seq
      (.map _ (finds_field rfl ?id)) (finds_field rfl ?rule)) (finds_field rfl ?severity))
      (finds_field rfl ?category)) (finds_field rfl ?message)) (finds_field rfl ?file))
      (finds_field rfl ?line)) (finds_field rfl ?column)) ?suggestion)
    case id | rule | severity | category | message | file => exact finds_text _ _ _
    case line => exact finds_count he.line _
    case column => exact finds_count he.column _
    case suggestion => exact finds_optionalText _ (lookup_append_optionalField (by simp))
  writes e he := by
    refine .object (nodup_append_optionalField (by simp) (by simp)) ?_
    rw [List.forall_mem_append]
    refine ⟨?_, exact_of_mem_optionalField⟩
    simp only [List.forall_mem_cons]
    exact ⟨.string _, .string _, .string _, .string _, .string _, .string _, .nat he.line,
      .nat he.column, by simp⟩
  yields := by
    refine yields_decode _ (.seq (.any _) (.seq (yields_field _ yields_count)
      (.seq (yields_field _ yields_count) (.seq (.any _) (.seq (.any _) (.seq (.any _)
        (.seq (.any _) (.seq (.any _) (.map (.any _) ?_)))))))))
    intro id _ rule _ severity _ category _ message _ file _ line hline column hcolumn suggestion _
    exact ⟨hline, hcolumn⟩

/-- The numbers of a report fit into 64 bits. -/
structure Fits (r : JsonReport) : Prop where
  findings : ∀ e ∈ r.findings, e.Fits
  summary : r.summary.Fits

theorem codec : Codec encode decode Fits where
  finds r hr := finds_object _
    (.seq (.map _ (finds_field rfl (Entry.codec.list.finds _ hr.findings)))
      (finds_field rfl ((Summary.codec _).finds _ hr.summary)))
  writes r hr := by
    refine .object (by simp) ?_
    simp only [List.forall_mem_cons]
    exact ⟨Entry.codec.list.writes _ hr.findings, (Summary.codec "JsonSummary").writes _ hr.summary,
      by simp⟩
  yields := by
    refine yields_decode _ (.seq (yields_field _ (Summary.codec _).yields)
      (.map (yields_field _ Entry.codec.list.yields) ?_))
    intro findings hfindings summary hsummary
    exact ⟨hfindings, hsummary⟩

end JsonReport

/-- Every value of these types is read back from its document, and what is read from any document is
written in a form that reading and writing keep. -/
theorem serialized_forms_canonical :
    Canonical Finding.encode Finding.decode Finding.Fits ∧
    Canonical Summary.encode Summary.decode Summary.Fits ∧
    Canonical Config.encode Config.decode Config.Fits ∧
    Canonical JsonReport.encode JsonReport.decode JsonReport.Fits ∧
    Canonical Sarif.Log.encode Sarif.Log.decode Sarif.Log.Fits :=
  ⟨Finding.codec.canonical, (Summary.codec _).canonical, Config.codec.canonical,
    JsonReport.codec.canonical, Sarif.Log.codec.canonical⟩

/-- A summary may come as an array; an object is written for it. -/
example :
    (Summary.decode Json.dialect (.array [.nat 1, .nat 0, .nat 2, .nat 0, .nat 0, .nat 3])).map
        Summary.encode =
      .ok (.object [("critical", .nat 1), ("errors", .nat 0), ("warnings", .nat 2),
        ("info", .nat 0), ("suppressed", .nat 0), ("files_analyzed", .nat 3)]) := by
  rfl

end InjectionScan
