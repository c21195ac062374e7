import InjectionScan.Proofs.Syntax.Reading
import InjectionScan.Proofs.Taint.Bindings
import InjectionScan.Proofs.Taint.Exactness

/-! Where an expression stands does not matter to its taint, and names only add to it. -/
namespace InjectionScan.Taint

open Syntax Node

variable {source source' : String} {R : Node → Node → Prop} {table table' : Bindings}
  {root root' m n o argument : Node}

/-- What the first table binds, the second one binds as well, to something related. -/
def Bindings.Within (R : Node → Node → Prop) (table table' : Bindings) : Prop :=
  ∀ {name value}, table.get? name = some value →
    ∃ value', table'.get? name = some value' ∧ R value value'

/-- The tables bind the same names, to things that are related. -/
def Bindings.Related (R : Node → Node → Prop) (table table' : Bindings) : Prop :=
  ∀ name, Option.Rel R (table.get? name) (table'.get? name)

theorem Bindings.Related.within (h : Related R table table') : Within R table table' :=
  fun hg => exists_rel_of_eq_some (h _) hg

theorem Bindings.Related.flip (h : Related R table table') : Related (flip R) table' table :=
  fun name => rel_flip (h name)

section Verdicts

variable (hR : KeepsReading source source' R) (hT : Bindings.Within R table table')

include hR

theorem IsOperand.transfer (h : IsOperand m o) (hmn : R m n) : ∃ o', IsOperand n o' ∧ R o o' := by
  obtain h | h := h
  · obtain ⟨o', ho', hr⟩ := exists_rel_of_eq_some (hR.child? hmn .left) h
    exact ⟨o', .inl ho', hr⟩
  · obtain ⟨o', ho', hr⟩ := exists_rel_of_eq_some (hR.child? hmn .right) h
    exact ⟨o', .inr ho', hr⟩

theorem CallsSink.transfer (h : CallsSink source m) (hmn : R m n) : CallsSink source' n := by
  obtain ⟨callee, property, hc, hr, hp, hs⟩ := h
  obtain ⟨callee', hc', hcallee⟩ := exists_rel_of_eq_some (hR.child? hmn .function) hc
  obtain ⟨property', hp', hproperty⟩ := exists_rel_of_eq_some (hR.child? hcallee .property) hp
  exact ⟨callee', property', hc', hR.hasRule hcallee _ ▸ hr, hp', hR.text hproperty ▸ hs⟩

theorem IsFirstArgument.transfer (h : IsFirstArgument m argument) (hmn : R m n) :
    ∃ argument', IsFirstArgument n argument' ∧ R argument argument' := by
  simp only [← firstArgument?_eq_some_iff, firstArgument?, Option.bind_eq_bind] at h ⊢
  obtain ⟨arguments, ha, h⟩ := Option.bind_eq_some_iff.1 h
  obtain ⟨arguments', ha', hr⟩ := exists_rel_of_eq_some (hR.child? hmn .arguments) ha
  rw [hR.hasRule hr] at h
  split at h
  · next hrule =>
    have hfind := rel_find? (p := fun n => !n.hasRule .comment) (q := fun n => !n.hasRule .comment)
      (fun hc => by rw [hR.hasRule hc]) (hR.namedChildren hr)
    simpa [ha', hrule] using exists_rel_of_eq_some hfind h
  · cases h

include hT

theorem Tainted.transfer (h : Tainted table source m) (hmn : R m n) :
    Tainted table' source' n := by
  induction h generalizing n with
  | bareName hm ho hi =>
    obtain ⟨o', ho', hr⟩ := ho.transfer hR hmn
    exact .bareName (hR.hasRule hmn _ ▸ hm) ho' (hR.hasRule hr _ ▸ hi)
  | operand hm ho _ ih =>
    obtain ⟨o', ho', hr⟩ := ho.transfer hR hmn
    exact .operand (hR.hasRule hmn _ ▸ hm) ho' (ih hr)
  | substitution hm hc hs =>
    obtain ⟨c', hc', hr⟩ := exists_rel_of_mem (hR.namedChildren hmn) hc
    exact .substitution (hR.hasRule hmn _ ▸ hm) hc' (hR.hasRule hr _ ▸ hs)
  | binding hm hg _ ih =>
    obtain ⟨value', hg', hr⟩ := hT hg
    exact .binding (hR.hasRule hmn _ ▸ hm) (hR.text hmn ▸ hg') (ih hr)

theorem IsVulnerable.transfer (h : IsVulnerable table source m) (hmn : R m n) :
    IsVulnerable table' source' n := by
  obtain ⟨hcall, hsink, argument, hfirst, ht⟩ := h
  obtain ⟨argument', hfirst', hr⟩ := hfirst.transfer hR hmn
  exact ⟨hR.hasRule hmn _ ▸ hcall, hsink.transfer hR hmn, argument', hfirst',
    ht.transfer hR hT hr⟩

end Verdicts

theorem isVulnerable_iff_of_related (hR : KeepsReading source source' R)
    (hT : Bindings.Related R table table') (hmn : R m n) :
    IsVulnerable table source m ↔ IsVulnerable table' source' n :=
  ⟨fun h => h.transfer hR hT.within hmn, fun h => h.transfer hR.flip hT.flip.within hmn⟩

section Tables

variable (hR : KeepsReading source source' R) {name : String} {value : Node}

include hR

theorem Declares.transfer (h : Declares source m name value) (hmn : R m n) :
    ∃ value', Declares source' n name value' ∧ R value value' := by
  obtain ⟨hm, hv, target, ht, hi, rfl⟩ := h
  obtain ⟨value', hv', hr⟩ := exists_rel_of_eq_some (hR.child? hmn .value) hv
  obtain ⟨target', ht', htarget⟩ := exists_rel_of_eq_some (hR.child? hmn .name) ht
  exact ⟨value', ⟨hR.hasRule hmn _ ▸ hm, hv', target', ht', hR.hasRule htarget _ ▸ hi,
    (hR.text htarget).symm⟩, hr⟩

theorem Bindings.Related.record (hT : Related R table table') (hmn : R m n) :
    Related R (record source table m) (record source' table' n) := by
  intro name
  by_cases hm : Records source m name
  · obtain ⟨hname, value, hm⟩ := hm
    obtain ⟨value', hn, hr⟩ := hm.transfer hR hmn
    rw [get?_record_of_declares hm hname, get?_record_of_declares hn hname]
    exact .some hr
  · have hn : ¬ Records source' n name := by
      rintro ⟨hname, value', hn⟩
      obtain ⟨value, hdeclares, -⟩ := hn.transfer hR.flip hmn
      exact hm ⟨hname, value, hdeclares⟩
    rw [get?_record_of_not_records hm, get?_record_of_not_records hn]
    exact hT name

theorem related_foldl_record {ms ns : List Node} (h : List.Forall₂ R ms ns) :
    Bindings.Related R (ms.foldl (Bindings.record source) .empty)
      (ns.foldl (Bindings.record source') .empty) := by
  refine List.rel_foldl (P := Bindings.Related R) ?_ (fun _ => .none) h
  intro table table' hT m n hmn
  exact hT.record hR hmn

end Tables

section Tops

/-- The top of a tree: a program, or what could not be read as one. -/
def IsTop (n : Node) : Prop := n.hasRule .program ∨ n.hasRule .error

instance : Decidable (IsTop n) := inferInstanceAs (Decidable (_ ∨ _))

theorem IsTop.hasRule_eq_false (h : IsTop n) {r : Rule} (hprogram : r ≠ .program)
    (herror : r ≠ .error) : n.hasRule r = false := by
  cases hr : n.hasRule r with
  | false => rfl
  | true =>
    rcases h with h | h
    · exact absurd (rule_unique hr h) hprogram
    · exact absurd (rule_unique hr h) herror

theorem IsTop.withChildren (h : IsTop n) (cs : List Node) : IsTop (n.withChildren cs) := by
  simpa [IsTop] using h

theorem IsTop.markDefaults (h : IsTop n) : IsTop (Script.markDefaults n) := by
  obtain ⟨k, r, s, e, cs⟩ := n
  rw [Script.markDefaults]
  exact h

theorem isTop_parse (text : String) : IsTop (Script.parse text) := by
  rw [Script.parse]
  refine IsTop.markDefaults ?_
  split
  · exact .inl rfl
  · split
    · exact .inl rfl
    · exact .inr rfl

/-- Only the statements below the top are recorded. -/
theorem IsTop.collect_eq (h : IsTop root) (source : String) :
    Bindings.collect source root =
      (preorderAll root.children).foldl (Bindings.record source) .empty := by
  have htop : PassedOver root := .inl (h.hasRule_eq_false (by decide) (by decide))
  rw [collect_eq_foldl_record, preorder_eq, List.foldl_cons, record_of_passedOver htop]

/-- Only calls below the top are reported. -/
theorem IsTop.injections_eq (h : IsTop root) (source : String) :
    injections source root = (preorderAll root.children).filter fun n =>
      IsVulnerable (Bindings.collect source root) source n := by
  have htop : ¬ IsVulnerable (Bindings.collect source root) source root := by
    rintro ⟨hcall, -⟩
    rw [h.hasRule_eq_false (by decide) (by decide)] at hcall
    cases hcall
  rw [Taint.injections_eq, preorder_eq, List.filter_cons_of_neg (by simpa using htop)]

end Tops

/-- Programs whose statements read the same have reports on calls that read the same. -/
theorem forall₂_injections (hR : KeepsReading source source' R) (hroot : IsTop root)
    (hroot' : IsTop root') (h : List.Forall₂ R root.children root'.children) :
    List.Forall₂ R (injections source root) (injections source' root') := by
  have hnodes := hR.preorderAll _ _ h
  have htables : Bindings.Related R (Bindings.collect source root)
      (Bindings.collect source' root') := by
    rw [hroot.collect_eq, hroot'.collect_eq]
    exact related_foldl_record hR hnodes
  rw [hroot.injections_eq, hroot'.injections_eq]
  refine List.rel_filter (fun m n hmn => ?_) hnodes
  simp only [decide_eq_true_eq]
  exact isVulnerable_iff_of_related hR htables hmn

end InjectionScan.Taint
