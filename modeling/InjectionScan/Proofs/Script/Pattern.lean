import InjectionScan.Proofs.Syntax.Nesting
import InjectionScan.Script.Pattern

/-! Turning a literal into a pattern changes kinds only. -/
namespace InjectionScan.Script

open InjectionScan.Syntax InjectionScan.Syntax.Node

/-- What a conversion gives for a node can stand in its place. -/
def Converts (convert : Node → Option Node) (n : Node) : Prop :=
  ∀ p, convert n = some p → p.Replaces n

/-- What a conversion gives for several nodes can stand in their places, one by one. -/
def ConvertsAll (convert : List Node → Option (List Node)) (ns : List Node) : Prop :=
  ∀ ps, convert ns = some ps → List.Forall₂ Replaces ps ns

section Patterns

variable {k k' : Kind} {r : Option Role} {s e : Nat} {cs : List Node} {m n : Node} {ns : List Node}

theorem ConvertsAll.replaces {convert : List Node → Option (List Node)} (hcs : ConvertsAll convert cs)
    (h : (convert cs).map (.node k' r s e) = some m) : m.Replaces (.node k r s e cs) := by
  obtain ⟨ps, hps, rfl⟩ := Option.map_eq_some_iff.1 h
  exact replaces_of_children rfl rfl (Row.replace (hcs ps hps))

theorem replaces_of_relabelled (h : some (node k' r s e cs) = some m) :
    m.Replaces (.node k r s e cs) := by
  cases h
  exact replaces_of_children rfl rfl id

theorem pattern?_converts (helements : ConvertsAll elementPatterns? cs)
    (hproperties : ConvertsAll propertyPatterns? cs) : Converts pattern? (.node k r s e cs) := by
  intro p h
  unfold pattern? at h
  split at h
  · next heq =>
    cases heq
    exact hproperties.replaces h
  · next heq =>
    cases heq
    exact helements.replaces h
  · next heq =>
    cases heq
    split at h
    · exact replaces_of_relabelled h
    · cases h
  · cases h

theorem elementPattern?_converts (hpattern : Converts pattern? (.node k r s e cs))
    (helements : ConvertsAll elementPatterns? cs) : Converts elementPattern? (.node k r s e cs) := by
  intro p h
  unfold elementPattern? at h
  split at h
  · next heq => cases heq; exact replaces_of_relabelled h
  · next heq => cases heq; exact replaces_of_relabelled h
  · next heq => cases heq; exact replaces_of_relabelled h
  · next heq => cases heq; exact replaces_of_relabelled h
  · next heq => cases heq; exact helements.replaces h
  · next heq =>
    cases heq
    split at h
    · split at h
      · cases h
      · exact replaces_of_relabelled h
    · cases h
  · exact hpattern p h

theorem propertyPattern?_converts (helements : ConvertsAll elementPatterns? cs)
    (hvalue : ConvertsAll valuePattern? cs) : Converts propertyPattern? (.node k r s e cs) := by
  intro p h
  unfold propertyPattern? at h
  split at h
  · next heq => cases heq; exact replaces_of_relabelled h
  · next heq => cases heq; exact replaces_of_relabelled h
  · next heq => cases heq; exact replaces_of_relabelled h
  · next heq => cases heq; exact replaces_of_relabelled h
  · next heq => cases heq; exact replaces_of_relabelled h
  · next heq => cases heq; exact helements.replaces h
  · next heq => cases heq; exact hvalue.replaces h
  · cases h

theorem elementPatterns?_cons (hn : Converts elementPattern? n)
    (hns : ConvertsAll elementPatterns? ns) : ConvertsAll elementPatterns? (n :: ns) := by
  intro ps h
  rw [elementPatterns?] at h
  obtain ⟨p, hp, h⟩ := Option.bind_eq_some_iff.1 h
  obtain ⟨ps, hps, h⟩ := Option.bind_eq_some_iff.1 h
  cases h
  exact .cons (hn p hp) (hns ps hps)

theorem propertyPatterns?_cons (hn : Converts propertyPattern? n)
    (hns : ConvertsAll propertyPatterns? ns) : ConvertsAll propertyPatterns? (n :: ns) := by
  intro ps h
  rw [propertyPatterns?] at h
  obtain ⟨p, hp, h⟩ := Option.bind_eq_some_iff.1 h
  obtain ⟨ps, hps, h⟩ := Option.bind_eq_some_iff.1 h
  cases h
  exact .cons (hn p hp) (hns ps hps)

theorem valuePattern?_cons (hn : Converts elementPattern? n) (hns : ConvertsAll valuePattern? ns) :
    ConvertsAll valuePattern? (n :: ns) := by
  intro ps h
  cases ns with
  | nil =>
    rw [valuePattern?] at h
    obtain ⟨p, hp, rfl⟩ := Option.map_eq_some_iff.1 h
    exact .cons (hn p hp) .nil
  | cons m ns =>
    rw [valuePattern? ] at h
    · obtain ⟨ps, hps, rfl⟩ := Option.map_eq_some_iff.1 h
      exact .cons (.refl n) (hns ps hps)
    · exact List.cons_ne_nil m ns

mutual

theorem converts (n : Node) :
    Converts pattern? n ∧ Converts elementPattern? n ∧ Converts propertyPattern? n := by
  cases n with
  | node k r s e cs =>
    obtain ⟨helements, hproperties, hvalue⟩ := convertsAll cs
    have hpattern := pattern?_converts (k := k) (r := r) (s := s) (e := e) helements hproperties
    exact ⟨hpattern, elementPattern?_converts hpattern helements,
      propertyPattern?_converts helements hvalue⟩

theorem convertsAll (ns : List Node) :
    ConvertsAll elementPatterns? ns ∧ ConvertsAll propertyPatterns? ns ∧
      ConvertsAll valuePattern? ns := by
  cases ns with
  | nil =>
    refine ⟨?_, ?_, ?_⟩
    · intro ps h
      rw [elementPatterns?] at h
      cases h
      exact .nil
    · intro ps h
      rw [propertyPatterns?] at h
      cases h
      exact .nil
    · intro ps h
      rw [valuePattern?] at h
      cases h
  | cons n ns =>
    obtain ⟨-, helement, hproperty⟩ := converts n
    obtain ⟨helements, hproperties, hvalue⟩ := convertsAll ns
    exact ⟨elementPatterns?_cons helement helements, propertyPatterns?_cons hproperty hproperties,
      valuePattern?_cons helement hvalue⟩

end

end Patterns

/-! ### Defaults left in objects -/

theorem refuseDefaults_replaces (ns : List Node) : List.Forall₂ Replaces (refuseDefaults ns) ns := by
  refine List.forall₂_map_left_iff.2 (List.forall₂_same.2 fun n _ => ?_)
  split
  · exact withKind_replaces _ n
  · exact .refl n

mutual

theorem markDefaults_replaces (n : Node) : (markDefaults n).Replaces n := by
  cases n with
  | node k r s e cs =>
    refine replaces_of_children rfl rfl fun hrow => ?_
    have hparts := Row.replace (markDefaultsAll_replaces cs) hrow
    rw [markDefaults, children]
    split
    · exact Row.replace (refuseDefaults_replaces _) hparts
    · exact hparts

theorem markDefaultsAll_replaces (ns : List Node) :
    List.Forall₂ Replaces (markDefaultsAll ns) ns := by
  cases ns with
  | nil => exact .nil
  | cons n ns => exact .cons (markDefaults_replaces n) (markDefaultsAll_replaces ns)

end

end InjectionScan.Script
