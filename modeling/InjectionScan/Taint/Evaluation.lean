import InjectionScan.Taint.Bindings

/-! Whether an expression may carry text that was put together at run time. -/
namespace InjectionScan.Taint

open Syntax

def isName (n : Option Node) : Bool :=
  n.any fun n => n.hasRule .identifier

def hasSubstitution (n : Node) : Bool :=
  n.namedChildren.any fun c => c.hasRule .templateSubstitution

/-- The size of all values whose names have not been looked through. -/
def unexpandedSize (table : Bindings) (expanded : List String) : Nat :=
  Node.sizeAll ((table.entries.filter fun e => !expanded.contains e.1).map Prod.snd)

section Values

variable {p q : String × Node → Bool} (h : ∀ e, p e → q e)

include h

theorem sizeAll_values_le (es : List (String × Node)) :
    Node.sizeAll ((es.filter p).map Prod.snd) ≤ Node.sizeAll ((es.filter q).map Prod.snd) := by
  induction es with
  | nil => simp
  | cons e es ih =>
    by_cases hp : p e
    · simpa [hp, h e hp, Node.sizeAll] using ih
    · by_cases hq : q e <;> simp [hp, hq, Node.sizeAll] <;> omega

theorem sizeAll_values_add_le {e : String × Node} {es : List (String × Node)} (he : e ∈ es)
    (hp : p e = false) (hq : q e) :
    Node.sizeAll ((es.filter p).map Prod.snd) + e.2.size ≤
      Node.sizeAll ((es.filter q).map Prod.snd) := by
  induction es with
  | nil => simp at he
  | cons e' es ih =>
    rcases List.mem_cons.1 he with rfl | he
    · have := sizeAll_values_le h es
      simp [hp, hq, Node.sizeAll]
      omega
    · have := ih he
      by_cases hp' : p e'
      · simp [hp', h e' hp', Node.sizeAll]
        omega
      · by_cases hq' : q e' <;> simp [hp', hq', Node.sizeAll] <;> omega

end Values

theorem unexpandedSize_cons_le (table : Bindings) (name : String) (expanded : List String) :
    unexpandedSize table (name :: expanded) ≤ unexpandedSize table expanded := by
  apply sizeAll_values_le
  intro e h
  simp_all

/-- Looking through a name takes its value out of what is left. -/
theorem unexpandedSize_cons_add_le {table : Bindings} {name : String} {expanded : List String}
    {value : Node} (hg : table.get? name = some value) (hn : expanded.contains name = false) :
    unexpandedSize table (name :: expanded) + value.size ≤ unexpandedSize table expanded := by
  obtain ⟨e, he, rfl⟩ := Option.map_eq_some_iff.1 hg
  have hname : e.1 = name := by simpa using List.find?_some he
  refine sizeAll_values_add_le ?_ (List.mem_of_find?_eq_some he) ?_ ?_
  · intro a h
    simp_all
  · simp [hname]
  · simpa [hname] using hn

/-- Two children of different roles are two of the children. -/
theorem sizeAll_operands_le {r s : Role} (h : r ≠ s) (ns : List Node) :
    Node.sizeAll (ns.find? fun c => c.role == some r).toList +
      Node.sizeAll (ns.find? fun c => c.role == some s).toList ≤ Node.sizeAll ns := by
  have find_le (t : Role) (ms : List Node) :
      Node.sizeAll (ms.find? fun c => c.role == some t).toList ≤ Node.sizeAll ms := by
    induction ms with
    | nil => simp [Node.sizeAll]
    | cons m ms ih =>
      by_cases ht : m.role = some t
      · simp [ht, Node.sizeAll]
      · simp [ht, Node.sizeAll]
        omega
  induction ns with
  | nil => simp [Node.sizeAll]
  | cons n ns ih =>
    have hr := find_le r ns
    have hs := find_le s ns
    by_cases hnr : n.role = some r
    · have : n.role ≠ some s := by
        rw [hnr]
        simpa using h
      simp [hnr, h, Node.sizeAll]
      omega
    · by_cases hns : n.role = some s
      · simp [hns, Ne.symm h, Node.sizeAll]
        omega
      · simp [hnr, hns, Node.sizeAll]
        omega

/-- Whether one of the pending expressions is tainted; `expanded` holds the names looked through. -/
def anyTainted (table : Bindings) (source : String) (pending : List Node)
    (expanded : List String) : Bool :=
  match pending with
  | [] => false
  | n :: rest =>
    if n.hasRule .binaryExpression then
      if isName (n.child? .left) || isName (n.child? .right) then true
      else
        anyTainted table source ((n.child? .left).toList ++ ((n.child? .right).toList ++ rest))
          expanded
    else if n.hasRule .templateString then
      if hasSubstitution n then true else anyTainted table source rest expanded
    else if n.hasRule .identifier then
      let name := n.text source
      if _hn : expanded.contains name then anyTainted table source rest expanded
      else
        match _hg : table.get? name with
        | some value => anyTainted table source (value :: rest) (name :: expanded)
        | none => anyTainted table source rest (name :: expanded)
    else anyTainted table source rest expanded
termination_by Node.sizeAll pending + unexpandedSize table expanded
decreasing_by
  · have := sizeAll_operands_le (by decide : Role.left ≠ Role.right) n.children
    simp only [Node.sizeAll_append, Node.sizeAll, Node.size_eq n, Node.child?]
    omega
  · simp only [Node.sizeAll, Node.size_eq n]
    omega
  · simp only [Node.sizeAll, Node.size_eq n]
    omega
  · have : unexpandedSize table (n.text source :: expanded) + value.size ≤
        unexpandedSize table expanded := unexpandedSize_cons_add_le _hg (by simpa using _hn)
    simp only [Node.sizeAll, Node.size_eq n]
    omega
  · have := unexpandedSize_cons_le table (n.text source) expanded
    simp only [Node.sizeAll, Node.size_eq n]
    omega
  · simp only [Node.sizeAll, Node.size_eq n]
    omega

/-- Whether an expression, if there is one, is tainted. -/
def isTainted (table : Bindings) (source : String) (n : Option Node) : Bool :=
  anyTainted table source n.toList []

end InjectionScan.Taint
