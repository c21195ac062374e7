import InjectionScan.Proofs.Suppression.Inline

/-! Which findings the rules for paths suppress. -/
namespace InjectionScan.Suppression

variable {perPath : Dictionary (List String)} {root : Path} {findings : List Finding} {f : Finding}

/-- Some rule has a pattern that fits the path below the root and a token for the finding. -/
def SuppressedByPath [Naming] (perPath : Dictionary (List String)) (root : Path) (f : Finding) :
    Prop :=
  ∃ rule ∈ perPath.entries,
    (∃ pattern, Wildcard.parse? rule.1 = some pattern ∧
      Wildcard.fits pattern ((f.file.relativeTo? root).getD f.file).shown.toList = true) ∧
    ∃ token ∈ rule.2, Matches f token

/-- The rules whose text is a pattern. -/
def pathRules (perPath : Dictionary (List String)) : List (String × List Wildcard × List String) :=
  perPath.entries.filterMap fun (text, tokens) =>
    (Wildcard.parse? text).map fun pattern => (text, pattern, tokens)

theorem mem_pathRules_iff {text : String} {pattern : List Wildcard} {tokens : List String} :
    (text, pattern, tokens) ∈ pathRules perPath ↔
      (text, tokens) ∈ perPath.entries ∧ Wildcard.parse? text = some pattern := by
  simp only [pathRules, List.mem_filterMap, Option.map_eq_some_iff]
  constructor
  · rintro ⟨⟨text', tokens'⟩, hmem, pattern', hp, heq⟩
    cases heq
    exact ⟨hmem, hp⟩
  · rintro ⟨hmem, hp⟩
    exact ⟨(text, tokens), hmem, pattern, hp, rfl⟩

theorem isSome_pathReason?_iff [Naming] :
    (pathReason? (pathRules perPath) root f).isSome = true ↔ SuppressedByPath perPath root f := by
  simp only [pathReason?, Option.isSome_map, List.find?_isSome, Bool.and_eq_true, covers_iff]
  constructor
  · rintro ⟨⟨text, pattern, tokens⟩, hrule, hfits, htoken⟩
    obtain ⟨hmem, hp⟩ := mem_pathRules_iff.1 hrule
    exact ⟨(text, tokens), hmem, ⟨pattern, hp, hfits⟩, htoken⟩
  · rintro ⟨⟨text, tokens⟩, hmem, ⟨pattern, hp, hfits⟩, htoken⟩
    exact ⟨(text, pattern, tokens), mem_pathRules_iff.2 ⟨hmem, hp⟩, hfits, htoken⟩

instance [Naming] : Decidable (SuppressedByPath perPath root f) :=
  decidable_of_iff _ isSome_pathReason?_iff

theorem kept_splitByPath [Naming] (perPath : Dictionary (List String)) (root : Path)
    (findings : List Finding) :
    (splitByPath perPath root findings).kept =
      findings.filter fun f => ¬ SuppressedByPath perPath root f := by
  refine List.filter_congr fun f _ => ?_
  rw [Bool.eq_iff_iff, decide_eq_true_iff, ← isSome_pathReason?_iff, pathRules]
  simp

theorem findings_suppressed_splitByPath [Naming] (perPath : Dictionary (List String)) (root : Path)
    (findings : List Finding) :
    (splitByPath perPath root findings).suppressed.map Suppressed.finding =
      findings.filter fun f => SuppressedByPath perPath root f := by
  rw [splitByPath, findings_suppressed_splitBy]
  refine List.filter_congr fun f _ => ?_
  rw [Bool.eq_iff_iff, decide_eq_true_iff, ← isSome_pathReason?_iff, pathRules]

end InjectionScan.Suppression
