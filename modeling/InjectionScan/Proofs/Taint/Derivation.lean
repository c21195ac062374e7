import InjectionScan.Taint.Evaluation

/-! Taint as a relation, and the worklist as a decision procedure for it. -/
namespace InjectionScan.Taint

open Syntax

variable {table : Bindings} {source : String} {expanded : List String} {n o c value : Node}

/-- An operand of a sum stands on its left or on its right. -/
def IsOperand (n o : Node) : Prop := n.child? .left = some o ∨ n.child? .right = some o

/-- The least relation closed under the rules for sums, templates and names. -/
inductive Tainted (table : Bindings) (source : String) : Node → Prop
  | bareName {n o : Node} (hn : n.hasRule .binaryExpression) (ho : IsOperand n o)
      (hi : o.hasRule .identifier) : Tainted table source n
  | operand {n o : Node} (hn : n.hasRule .binaryExpression) (ho : IsOperand n o)
      (ht : Tainted table source o) : Tainted table source n
  | substitution {n c : Node} (hn : n.hasRule .templateString) (hc : c ∈ n.namedChildren)
      (hs : c.hasRule .templateSubstitution) : Tainted table source n
  | binding {n value : Node} (hn : n.hasRule .identifier)
      (hg : table.get? (n.text source) = some value) (ht : Tainted table source value) :
      Tainted table source n

/-- Derivations of taint that look through no name of a list. -/
inductive TaintedAvoiding (table : Bindings) (source : String) (expanded : List String) :
    Node → Prop
  | bareName {n o : Node} (hn : n.hasRule .binaryExpression) (ho : IsOperand n o)
      (hi : o.hasRule .identifier) : TaintedAvoiding table source expanded n
  | operand {n o : Node} (hn : n.hasRule .binaryExpression) (ho : IsOperand n o)
      (ht : TaintedAvoiding table source expanded o) : TaintedAvoiding table source expanded n
  | substitution {n c : Node} (hn : n.hasRule .templateString) (hc : c ∈ n.namedChildren)
      (hs : c.hasRule .templateSubstitution) : TaintedAvoiding table source expanded n
  | binding {n value : Node} (hn : n.hasRule .identifier) (he : n.text source ∉ expanded)
      (hg : table.get? (n.text source) = some value)
      (ht : TaintedAvoiding table source expanded value) :
      TaintedAvoiding table source expanded n

theorem TaintedAvoiding.tainted (h : TaintedAvoiding table source expanded n) :
    Tainted table source n := by
  induction h with
  | bareName hn ho hi => exact .bareName hn ho hi
  | operand hn ho _ ih => exact .operand hn ho ih
  | substitution hn hc hs => exact .substitution hn hc hs
  | binding hn _ hg _ ih => exact .binding hn hg ih

theorem Tainted.avoiding_nil (h : Tainted table source n) :
    TaintedAvoiding table source [] n := by
  induction h with
  | bareName hn ho hi => exact .bareName hn ho hi
  | operand hn ho _ ih => exact .operand hn ho ih
  | substitution hn hc hs => exact .substitution hn hc hs
  | binding hn hg _ ih => exact .binding hn (by simp) hg ih

theorem taintedAvoiding_nil_iff :
    TaintedAvoiding table source [] n ↔ Tainted table source n :=
  ⟨TaintedAvoiding.tainted, Tainted.avoiding_nil⟩

/-- A derivation may avoid fewer names. -/
theorem TaintedAvoiding.of_cons {name : String}
    (h : TaintedAvoiding table source (name :: expanded) n) :
    TaintedAvoiding table source expanded n := by
  induction h with
  | bareName hn ho hi => exact .bareName hn ho hi
  | operand hn ho _ ih => exact .operand hn ho ih
  | substitution hn hc hs => exact .substitution hn hc hs
  | binding hn he hg _ ih => exact .binding hn (fun hm => he (List.mem_cons_of_mem _ hm)) hg ih

/-- Closing one more name loses no taint that its value does not have. The value is derived without
the name: of the uses of the name in a derivation, the innermost one has none below it. -/
theorem TaintedAvoiding.cons_or_value (name : String)
    (h : TaintedAvoiding table source expanded n) :
    TaintedAvoiding table source (name :: expanded) n ∨
      ∃ value, table.get? name = some value ∧
        TaintedAvoiding table source (name :: expanded) value := by
  induction h with
  | bareName hn ho hi => exact .inl (.bareName hn ho hi)
  | operand hn ho _ ih =>
    rcases ih with ih | ih
    · exact .inl (.operand hn ho ih)
    · exact .inr ih
  | substitution hn hc hs => exact .inl (.substitution hn hc hs)
  | @binding n value hn he hg _ ih =>
    rcases ih with ih | ih
    · by_cases hname : n.text source = name
      · subst hname
        exact .inr ⟨value, hg, ih⟩
      · refine .inl (.binding hn ?_ hg ih)
        simp [hname, he]
    · exact .inr ih

theorem rule_unique {r s : Rule} (hr : n.hasRule r) (hs : n.hasRule s) : r = s := by
  simp only [Node.hasRule, beq_iff_eq] at hr hs
  simpa using hr.symm.trans hs

theorem isName_iff {n? : Option Node} :
    isName n? = true ↔ ∃ o, n? = some o ∧ o.hasRule .identifier := by
  simp [isName, Option.any_eq_true]

theorem hasSubstitution_iff :
    hasSubstitution n = true ↔ ∃ c ∈ n.namedChildren, c.hasRule .templateSubstitution := by
  simp [hasSubstitution]

theorem isOperand_iff_mem :
    IsOperand n o ↔ o ∈ (n.child? .left).toList ++ (n.child? .right).toList := by
  simp [IsOperand]

section Inversion

theorem taintedAvoiding_sum_iff (hn : n.hasRule .binaryExpression) :
    TaintedAvoiding table source expanded n ↔
      isName (n.child? .left) = true ∨ isName (n.child? .right) = true ∨
        ∃ o, IsOperand n o ∧ TaintedAvoiding table source expanded o := by
  constructor
  · intro h
    cases h with
    | bareName _ ho hi =>
      rcases ho with ho | ho
      · exact .inl (isName_iff.2 ⟨_, ho, hi⟩)
      · exact .inr (.inl (isName_iff.2 ⟨_, ho, hi⟩))
    | operand _ ho ht => exact .inr (.inr ⟨_, ho, ht⟩)
    | substitution hs _ _ => exact absurd (rule_unique hn hs) (by decide)
    | binding hi _ _ _ => exact absurd (rule_unique hn hi) (by decide)
  · rintro (h | h | ⟨o, ho, ht⟩)
    · obtain ⟨o, ho, hi⟩ := isName_iff.1 h
      exact .bareName hn (.inl ho) hi
    · obtain ⟨o, ho, hi⟩ := isName_iff.1 h
      exact .bareName hn (.inr ho) hi
    · exact .operand hn ho ht

theorem taintedAvoiding_template_iff (hn : n.hasRule .templateString) :
    TaintedAvoiding table source expanded n ↔ hasSubstitution n = true := by
  rw [hasSubstitution_iff]
  constructor
  · intro h
    cases h with
    | bareName hb _ _ => exact absurd (rule_unique hn hb) (by decide)
    | operand hb _ _ => exact absurd (rule_unique hn hb) (by decide)
    | substitution _ hc hs => exact ⟨_, hc, hs⟩
    | binding hi _ _ _ => exact absurd (rule_unique hn hi) (by decide)
  · rintro ⟨c, hc, hs⟩
    exact .substitution hn hc hs

theorem taintedAvoiding_name_iff (hn : n.hasRule .identifier) :
    TaintedAvoiding table source expanded n ↔
      n.text source ∉ expanded ∧ ∃ value, table.get? (n.text source) = some value ∧
        TaintedAvoiding table source expanded value := by
  constructor
  · intro h
    cases h with
    | bareName hb _ _ => exact absurd (rule_unique hn hb) (by decide)
    | operand hb _ _ => exact absurd (rule_unique hn hb) (by decide)
    | substitution hs _ _ => exact absurd (rule_unique hn hs) (by decide)
    | binding _ he hg ht => exact ⟨he, _, hg, ht⟩
  · rintro ⟨he, value, hg, ht⟩
    exact .binding hn he hg ht

/-- All other expressions are clean. -/
theorem not_taintedAvoiding (hb : ¬ n.hasRule .binaryExpression)
    (ht : ¬ n.hasRule .templateString) (hi : ¬ n.hasRule .identifier) :
    ¬ TaintedAvoiding table source expanded n := by
  intro h
  cases h with
  | bareName hn _ _ => exact hb hn
  | operand hn _ _ => exact hb hn
  | substitution hn _ _ => exact ht hn
  | binding hn _ _ _ => exact hi hn

end Inversion

/-- Looking through a name moves its taint to its value and closes the name for all that is
pending. -/
theorem exists_tainted_expand_iff {rest : List Node} (hn : n.hasRule .identifier)
    (he : n.text source ∉ expanded) (hg : table.get? (n.text source) = some value) :
    (∃ m ∈ value :: rest, TaintedAvoiding table source (n.text source :: expanded) m) ↔
      ∃ m ∈ n :: rest, TaintedAvoiding table source expanded m := by
  constructor
  · rintro ⟨m, hm, ht⟩
    rcases List.mem_cons.1 hm with rfl | hm
    · exact ⟨n, List.mem_cons_self, .binding hn he hg ht.of_cons⟩
    · exact ⟨m, List.mem_cons_of_mem _ hm, ht.of_cons⟩
  · rintro ⟨m, hm, ht⟩
    rcases ht.cons_or_value (n.text source) with ht | ⟨v, hv, ht⟩
    · rcases List.mem_cons.1 hm with rfl | hm
      · exact absurd List.mem_cons_self ((taintedAvoiding_name_iff hn).1 ht).1
      · exact ⟨m, List.mem_cons_of_mem _ hm, ht⟩
    · obtain rfl : value = v := Option.some.inj (hg.symm.trans hv)
      exact ⟨value, List.mem_cons_self, ht⟩

/-- Closing a name without a value changes nothing. -/
theorem taintedAvoiding_cons_iff_of_unbound {name : String} (hg : table.get? name = none) :
    TaintedAvoiding table source (name :: expanded) n ↔
      TaintedAvoiding table source expanded n := by
  refine ⟨TaintedAvoiding.of_cons, fun h => ?_⟩
  rcases h.cons_or_value name with h | ⟨v, hv, _⟩
  · exact h
  · simp [hg] at hv

/-- The loop decides whether something pending is tainted without the names it has closed. -/
theorem anyTainted_iff (pending : List Node) (expanded : List String) :
    anyTainted table source pending expanded = true ↔
      ∃ m ∈ pending, TaintedAvoiding table source expanded m := by
  fun_induction anyTainted table source pending expanded with
  | case1 expanded => simp
  | case2 expanded n rest hn hname =>
    have ht : TaintedAvoiding table source expanded n := by
      rw [taintedAvoiding_sum_iff hn, ← or_assoc]
      exact .inl (by simpa using hname)
    exact ⟨fun _ => ⟨n, List.mem_cons_self, ht⟩, fun _ => rfl⟩
  | case3 expanded n rest hn hname ih =>
    have hno : isName (n.child? .left) = false ∧ isName (n.child? .right) = false := by
      simpa using hname
    rw [ih, ← List.append_assoc]
    simp only [List.mem_append, List.mem_cons, or_and_right, exists_or, exists_eq_left]
    simp [taintedAvoiding_sum_iff hn, hno, isOperand_iff_mem, or_and_right, exists_or]
  | case4 expanded n rest _ hn hs =>
    exact ⟨fun _ => ⟨n, List.mem_cons_self, (taintedAvoiding_template_iff hn).2 hs⟩, fun _ => rfl⟩
  | case5 expanded n rest _ hn hs ih =>
    rw [ih]
    simp [taintedAvoiding_template_iff hn, hs]
  | case6 expanded n rest _ _ hn name he ih =>
    rw [ih]
    have hclosed : ¬ TaintedAvoiding table source expanded n := by
      rw [taintedAvoiding_name_iff hn]
      exact fun h => h.1 (by simpa using he)
    simp [hclosed]
  | case7 expanded n rest _ _ hn name he value hg ih =>
    rw [ih]
    exact exists_tainted_expand_iff hn (by simpa using he) hg
  | case8 expanded n rest _ _ hn name he hg ih =>
    rw [ih]
    have hclean : ¬ TaintedAvoiding table source expanded n := by
      rw [taintedAvoiding_name_iff hn]
      rintro ⟨_, v, hv, _⟩
      simp [name, hv] at hg
    simp [taintedAvoiding_cons_iff_of_unbound hg, hclean]
  | case9 expanded n rest hb ht hi ih =>
    rw [ih]
    simp [not_taintedAvoiding hb ht hi]

/-- No closing of names hides a taint: the evaluation is exact on every table. -/
theorem isTainted_iff {n? : Option Node} :
    isTainted table source n? = true ↔ ∃ n, n? = some n ∧ Tainted table source n := by
  rw [isTainted, anyTainted_iff]
  simp [taintedAvoiding_nil_iff]

instance : Decidable (Tainted table source n) :=
  decidable_of_iff (isTainted table source (some n) = true) (by simp [isTainted_iff])

end InjectionScan.Taint
