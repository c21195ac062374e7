import InjectionScan.Output.Sarif
import InjectionScan.Proofs.Json.Canonical

/-! Logs are read back from their documents if their numbers fit into 64 bits. -/
namespace InjectionScan.Sarif

open Decoder (finds_text finds_count finds_strings yields_count)
open Json (Codec Exact)
open Record (finds_field finds_object yields_decode yields_field)

theorem Message.codec : Codec encode decode fun _ => True where
  finds _ _ := finds_object _ (.map _ (finds_field rfl (finds_text _ _ _)))
  writes _ _ := .object (by simp) (List.forall_mem_singleton.2 (.string _))
  yields _ _ _ _ := trivial

theorem Configuration.codec : Codec encode decode fun _ => True where
  finds _ _ := finds_object _ (.map _ (finds_field rfl (finds_text _ _ _)))
  writes _ _ := .object (by simp) (List.forall_mem_singleton.2 (.string _))
  yields _ _ _ _ := trivial

theorem Properties.codec : Codec encode decode fun _ => True where
  finds _ _ := finds_object _ (.map _ (finds_field rfl (finds_strings _ _)))
  writes _ _ := .object (by simp) (List.forall_mem_singleton.2 (Json.exact_strings _))
  yields _ _ _ _ := trivial

theorem Descriptor.codec : Codec encode decode fun _ => True where
  finds d _ := by
    refine finds_object _ (.seq (.seq (.seq (.map _ (finds_field rfl ?id))
      (finds_field rfl ?description)) (finds_field rfl ?configuration)) (finds_field rfl ?properties))
    case id => exact finds_text _ _ _
    case description => exact Message.codec.finds _ trivial
    case configuration => exact Configuration.codec.finds _ trivial
    case properties => exact Properties.codec.finds _ trivial
  writes d _ := by
    refine .object (by simp) ?_
    simp only [List.forall_mem_cons]
    exact ⟨.string _, Message.codec.writes _ trivial, Configuration.codec.writes _ trivial,
      Properties.codec.writes _ trivial, by simp⟩
  yields _ _ _ _ := trivial

theorem Artifact.codec : Codec encode decode fun _ => True where
  finds _ _ := finds_object _
    (.seq (.map _ (finds_field rfl (finds_text _ _ _))) (finds_field rfl (finds_text _ _ _)))
  writes _ _ := by
    refine .object (by simp) ?_
    simp only [List.forall_mem_cons]
    exact ⟨.string _, .string _, by simp⟩
  yields _ _ _ _ := trivial

structure Region.Fits (r : Region) : Prop where
  startLine : r.startLine < Nat.pow 2 64
  startColumn : r.startColumn < Nat.pow 2 64

theorem Region.codec : Codec encode decode Fits where
  finds _ hr := finds_object _ (.seq (.map _ (finds_field rfl (finds_count hr.startLine _)))
    (finds_field rfl (finds_count hr.startColumn _)))
  writes _ hr := by
    refine .object (by simp) ?_
    simp only [List.forall_mem_cons]
    exact ⟨.nat hr.startLine, .nat hr.startColumn, by simp⟩
  yields := by
    refine yields_decode _ (.seq (yields_field _ yields_count)
      (.map (yields_field _ yields_count) ?_))
    intro line hline column hcolumn
    exact ⟨hline, hcolumn⟩

def PhysicalLocation.Fits (p : PhysicalLocation) : Prop := p.region.Fits

theorem PhysicalLocation.codec : Codec encode decode Fits where
  finds _ hp := finds_object _
    (.seq (.map _ (finds_field rfl (Artifact.codec.finds _ trivial)))
      (finds_field rfl (Region.codec.finds _ hp)))
  writes _ hp := by
    refine .object (by simp) ?_
    simp only [List.forall_mem_cons]
    exact ⟨Artifact.codec.writes _ trivial, Region.codec.writes _ hp, by simp⟩
  yields := yields_decode _ (.seq (yields_field _ Region.codec.yields)
    (.map (.any _) fun _ _ _ hregion => hregion))

def Location.Fits (l : Location) : Prop := l.physical.Fits

theorem Location.codec : Codec encode decode Fits where
  finds _ hl := finds_object _ (.map _ (finds_field rfl (PhysicalLocation.codec.finds _ hl)))
  writes _ hl :=
    .object (by simp) (List.forall_mem_singleton.2 (PhysicalLocation.codec.writes _ hl))
  yields := yields_decode _
    (.map (yields_field _ PhysicalLocation.codec.yields) fun _ hphysical => hphysical)

structure Result.Fits (r : Result) : Prop where
  ruleIndex : r.ruleIndex < Nat.pow 2 64
  locations : ∀ l ∈ r.locations, l.Fits

theorem Result.codec : Codec encode decode Fits where
  finds _ hr := by
    refine finds_object _ (.seq (.seq (.seq (.seq (.map _ (finds_field rfl ?id))
      (finds_field rfl ?index)) (finds_field rfl ?level)) (finds_field rfl ?message))
      (finds_field rfl ?locations))
    case id | level => exact finds_text _ _ _
    case index => exact finds_count hr.ruleIndex _
    case message => exact Message.codec.finds _ trivial
    case locations => exact Location.codec.list.finds _ hr.locations
  writes _ hr := by
    refine .object (by simp) ?_
    simp only [List.forall_mem_cons]
    exact ⟨.string _, .nat hr.ruleIndex, .string _, Message.codec.writes _ trivial,
      Location.codec.list.writes _ hr.locations, by simp⟩
  yields := by
    refine yields_decode _ (.seq (yields_field _ Location.codec.list.yields) (.seq (.any _)
      (.seq (.any _) (.seq (yields_field _ yields_count) (.map (.any _) ?_)))))
    intro id _ index hindex level _ message _ locations hlocations
    exact ⟨hindex, hlocations⟩

theorem Driver.codec : Codec encode decode fun _ => True where
  finds _ _ := by
    refine finds_object _ (.seq (.seq (.map _ (finds_field rfl ?name)) (finds_field rfl ?version))
      (finds_field rfl ?rules))
    case name | version => exact finds_text _ _ _
    case rules => exact Descriptor.codec.list.finds _ fun _ _ => trivial
  writes _ _ := by
    refine .object (by simp) ?_
    simp only [List.forall_mem_cons]
    exact ⟨.string _, .string _, Descriptor.codec.list.writes _ fun _ _ => trivial, by simp⟩
  yields _ _ _ _ := trivial

theorem Tool.codec : Codec encode decode fun _ => True where
  finds _ _ := finds_object _ (.map _ (finds_field rfl (Driver.codec.finds _ trivial)))
  writes _ _ := .object (by simp) (List.forall_mem_singleton.2 (Driver.codec.writes _ trivial))
  yields _ _ _ _ := trivial

def Run.Fits (r : Run) : Prop := ∀ result ∈ r.results, result.Fits

theorem Run.codec : Codec encode decode Fits where
  finds _ hr := finds_object _ (.seq (.map _ (finds_field rfl (Tool.codec.finds _ trivial)))
    (finds_field rfl (Result.codec.list.finds _ hr)))
  writes _ hr := by
    refine .object (by simp) ?_
    simp only [List.forall_mem_cons]
    exact ⟨Tool.codec.writes _ trivial, Result.codec.list.writes _ hr, by simp⟩
  yields := yields_decode _ (.seq (yields_field _ Result.codec.list.yields)
    (.map (.any _) fun _ _ _ hresults => hresults))

def Log.Fits (l : Log) : Prop := ∀ run ∈ l.runs, run.Fits

theorem Log.codec : Codec encode decode Fits where
  finds _ hl := by
    refine finds_object _ (.seq (.seq (.map _ (finds_field rfl ?schema)) (finds_field rfl ?version))
      (finds_field rfl ?runs))
    case schema | version => exact finds_text _ _ _
    case runs => exact Run.codec.list.finds _ hl
  writes _ hl := by
    refine .object (by simp) ?_
    simp only [List.forall_mem_cons]
    exact ⟨.string _, .string _, Run.codec.list.writes _ hl, by simp⟩
  yields := by
    refine yields_decode _ (.seq (yields_field _ Run.codec.list.yields) (.seq (.any _)
      (.map (.any _) ?_)))
    intro schema _ version _ runs hruns
    exact hruns

end InjectionScan.Sarif
