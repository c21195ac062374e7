import InjectionScan.Proofs.Path.Redundancy

/-! The way up from a path goes through all the front parts of its components. -/
namespace InjectionScan.Path

variable {p q : Path} {segments : List (List Char × Nat)} {k : Nat}

section Parent

theorem getLast?_trimEnd (p : Path) (segments : List (List Char × Nat)) :
    ∀ s ∈ (p.trimEnd segments).getLast?, p.counts s = true := by
  intro s hs
  rw [trimEnd, List.getLast?_reverse] at hs
  simpa using Text.not_of_mem_head?_dropWhile (fun s => !p.counts s) segments.reverse s hs

theorem trimEnd_eq_nil_iff :
    p.trimEnd segments = [] ↔ segments.filterMap (component? p.isAbsolute) = [] := by
  constructor
  · intro h
    rw [← filterMap_trimEnd, h]
    rfl
  · intro h
    rw [← filterMap_trimEnd, List.filterMap_eq_nil_iff] at h
    rw [← List.getLast?_eq_none_iff, Option.eq_none_iff_forall_ne_some]
    intro s hs
    have hcounts := getLast?_trimEnd p segments s hs
    rw [counts, h s (List.mem_of_getLast? hs)] at hcounts
    cases hcounts

/-- The last segment that is left counts, so without it there is one component less. -/
theorem filterMap_dropLast_trimEnd (p : Path) (segments : List (List Char × Nat)) :
    (p.trimEnd segments).dropLast.filterMap (component? p.isAbsolute) =
      (segments.filterMap (component? p.isAbsolute)).dropLast := by
  rw [← filterMap_trimEnd p segments]
  cases hlast : (p.trimEnd segments).getLast? with
  | none =>
    rw [List.getLast?_eq_none_iff.1 hlast]
    rfl
  | some s =>
    obtain ⟨c, hc⟩ := Option.isSome_iff_exists.1 (getLast?_trimEnd p segments s hlast)
    obtain ⟨front, hfront⟩ := List.getLast?_eq_some_iff.1 hlast
    rw [hfront, List.dropLast_concat, List.filterMap_append, List.filterMap_cons_some hc,
      List.filterMap_nil, List.dropLast_concat]

theorem parent?_eq_none_iff_filterMap :
    p.parent? = none ↔ p.segments.filterMap (component? p.isAbsolute) = [] := by
  rw [← trimEnd_eq_nil_iff, parent?]
  split <;> simp_all

theorem root_notMem_filterMap (absolute : Bool) (segments : List (List Char × Nat)) :
    .root ∉ segments.filterMap (component? absolute) := by
  intro h
  obtain ⟨s, -, hs⟩ := List.mem_filterMap.1 h
  rw [component?.eq_def] at hs
  split at hs <;> simp_all

theorem parent?_eq_none_iff : p.parent? = none ↔ p.components = [] ∨ p.components = [.root] := by
  rw [parent?_eq_none_iff_filterMap, components]
  cases p.isAbsolute with
  | true => simp
  | false =>
    refine ⟨.inl, fun h => h.resolve_right fun hroot => root_notMem_filterMap false p.segments ?_⟩
    have hlist : p.segments.filterMap (component? false) = [.root] := hroot
    rw [hlist]
    exact List.mem_singleton_self _

theorem parent?_eq_some (h : p.parent? = some q) :
    ∃ segments, segments <+: p.segments ∧ q = p.rebuild segments ∧
      segments.filterMap (component? p.isAbsolute) =
        (p.segments.filterMap (component? p.isAbsolute)).dropLast := by
  rw [parent?] at h
  split at h
  · cases h
  · refine ⟨_, ?_, (Option.some.inj h).symm, ?_⟩
    · exact (trimEnd_prefix_self p _).trans
        ((List.dropLast_prefix _).trans (trimEnd_prefix_self p _))
    · rw [filterMap_trimEnd, filterMap_dropLast_trimEnd]

theorem components_of_parent? (h : p.parent? = some q) : q.components = p.components.dropLast := by
  have hsome : p.segments.filterMap (component? p.isAbsolute) ≠ [] := by
    rw [ne_eq, ← parent?_eq_none_iff_filterMap, h]
    exact Option.some_ne_none q
  obtain ⟨segments, hfront, rfl, hsegments⟩ := parent?_eq_some h
  rw [components_rebuild hfront, hsegments, components, List.dropLast_append_of_ne_nil hsome]

theorem length_text_of_parent? (h : p.parent? = some q) : q.text.length < p.text.length := by
  have hcomponents := components_of_parent? h
  obtain ⟨segments, hfront, rfl, -⟩ := parent?_eq_some h
  have htext := rebuild_text_prefix_text hfront
  rw [← String.length_toList, ← String.length_toList]
  refine Nat.lt_of_le_of_ne htext.length_le fun hlength => ?_
  -- A text of the same length would be the same text, with the same components.
  have hsame : p.rebuild segments = p := by
    have hequal := String.toList_inj.1 (htext.eq_of_length hlength)
    cases p
    exact congrArg Path.mk hequal
  rw [hsame] at hcomponents
  have hnil : p.components = [] := by
    have hshorter := congrArg List.length hcomponents
    rw [List.length_dropLast] at hshorter
    exact List.eq_nil_of_length_eq_zero (by omega)
  rw [parent?_eq_none_iff.2 (.inl hnil)] at h
  cases h

end Parent

section Ancestors

/-- The path after so many steps to the parent. -/
def ancestor? (p : Path) : Nat → Option Path
  | 0 => some p
  | k + 1 => p.parent?.bind fun q => q.ancestor? k

/-- The steps allowed are enough, as every step makes the text shorter. -/
theorem getElem?_go {fuel : Nat} (h : p.text.length < fuel) :
    (ancestors.go fuel p)[k]? = p.ancestor? k := by
  induction fuel generalizing p k with
  | zero => omega
  | succ fuel ih =>
    rw [ancestors.go]
    cases hparent : p.parent? with
    | none => cases k <;> simp [ancestor?, hparent]
    | some q =>
      have hshorter := length_text_of_parent? hparent
      cases k with
      | zero => rfl
      | succ k =>
        rw [List.getElem?_cons_succ, ih (by omega), ancestor?, hparent]
        rfl

theorem getElem?_ancestors (p : Path) (k : Nat) : p.ancestors[k]? = p.ancestor? k :=
  getElem?_go (Nat.lt_succ_self _)

theorem mem_ancestors_iff : q ∈ p.ancestors ↔ ∃ k, p.ancestor? k = some q := by
  simp only [List.mem_iff_getElem?, getElem?_ancestors]

theorem ancestor?_succ (p : Path) (k : Nat) :
    p.ancestor? (k + 1) = (p.ancestor? k).bind parent? := by
  induction k generalizing p with
  | zero => cases hparent : p.parent? <;> simp [ancestor?, hparent]
  | succ k ih =>
    rw [ancestor?, ancestor?, Option.bind_assoc]
    exact congrArg _ (funext fun q => ih q)

/-- The directories on the way up are those of the front parts of the components. -/
theorem components_of_ancestor? (h : p.ancestor? k = some q) :
    q.components = p.components.take (p.components.length - k) := by
  induction k generalizing q with
  | zero =>
    obtain rfl := Option.some.inj h
    simp
  | succ k ih =>
    rw [ancestor?_succ] at h
    obtain ⟨r, hr, hparent⟩ := Option.bind_eq_some_iff.1 h
    rw [components_of_parent? hparent, ih hr, List.dropLast_eq_take, List.length_take,
      List.take_take]
    congr 1
    omega

/-- The way up ends, and it ends at the root or at the empty path. -/
theorem exists_last_ancestor (p : Path) :
    ∃ n last, p.ancestor? n = some last ∧ (last.text = "" ∨ last.components = [.root]) ∧
      ∀ k, (p.ancestor? k).isSome = true ↔ k ≤ n := by
  have hsome (k : Nat) : (p.ancestor? k).isSome = true ↔ k < p.ancestors.length := by
    rw [← getElem?_ancestors, Option.isSome_iff_ne_none, ne_eq, List.getElem?_eq_none_iff,
      Nat.not_le]
  have hstart : 0 < p.ancestors.length := (hsome 0).1 rfl
  obtain ⟨last, hlast⟩ := Option.isSome_iff_exists.1 ((hsome (p.ancestors.length - 1)).2 (by omega))
  refine ⟨p.ancestors.length - 1, last, hlast, ?_, fun k => (hsome k).trans (by omega)⟩
  have hend : p.ancestor? (p.ancestors.length - 1 + 1) = none := by
    rw [← Option.not_isSome_iff_eq_none, hsome]
    omega
  rw [ancestor?_succ, hlast, Option.bind_some] at hend
  rwa [← components_eq_nil_iff, ← parent?_eq_none_iff]

end Ancestors

end InjectionScan.Path
