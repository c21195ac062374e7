import InjectionScan.Proofs.Taint.Derivation
import Mathlib.Logic.Relation

/-! The worklist as a machine, with a bound for its turns. -/
namespace InjectionScan.Taint

open Syntax Relation

variable {table : Bindings} {source : String} {n m : Node}

section Turns

/-- What the loop holds between two turns: the expressions to look at, the next one first, and the
names that were looked through. -/
structure Worklist where
  pending : List Node
  expanded : List String

/-- A turn ends the loop, or the loop goes on. -/
inductive Turn where
  | verdict (tainted : Bool)
  | next (work : Worklist)

variable {work work' : Worklist}

/-- One turn of the loop. -/
def turn (table : Bindings) (source : String) (work : Worklist) : Turn :=
  match work.pending with
  | [] => .verdict false
  | n :: rest =>
    if n.hasRule .binaryExpression then
      if isName (n.child? .left) || isName (n.child? .right) then .verdict true
      else .next ⟨(n.child? .left).toList ++ ((n.child? .right).toList ++ rest), work.expanded⟩
    else if n.hasRule .templateString then
      if hasSubstitution n then .verdict true else .next ⟨rest, work.expanded⟩
    else if n.hasRule .identifier then
      let name := n.text source
      if work.expanded.contains name then .next ⟨rest, work.expanded⟩
      else .next ⟨(table.get? name).toList ++ rest, name :: work.expanded⟩
    else .next ⟨rest, work.expanded⟩

/-- The verdict, if the loop ends within that many turns. -/
def verdictWithin? (table : Bindings) (source : String) : Nat → Worklist → Option Bool
  | 0, _ => none
  | turns + 1, work =>
    match turn table source work with
    | .verdict tainted => some tainted
    | .next work => verdictWithin? table source turns work

/-- The nodes that the loop can still come to: those of what is pending, and those of the values whose
names were not looked through. -/
def Worklist.remaining (table : Bindings) (work : Worklist) : Nat :=
  Node.sizeAll work.pending + unexpandedSize table work.expanded

/-- A turn leaves fewer nodes to come to, even where it looks through a name and the stack grows. -/
theorem remaining_lt_of_turn (h : turn table source work = .next work') :
    work'.remaining table < work.remaining table := by
  revert h
  fun_cases turn table source work with
  | case1 | case2 | case4 => intro h; cases h
  | case3 n rest hp =>
    rintro ⟨⟩
    have := sizeAll_operands_le (by decide : Role.left ≠ Role.right) n.children
    simp only [Worklist.remaining, hp, Node.sizeAll_append, Node.sizeAll, Node.size_eq n,
      Node.child?]
    omega
  | case5 n rest hp | case6 n rest hp | case8 n rest hp =>
    rintro ⟨⟩
    simp only [Worklist.remaining, hp, Node.sizeAll, Node.size_eq n]
    omega
  | case7 n rest hp _ _ _ name hnew =>
    rintro ⟨⟩
    simp only [Worklist.remaining, hp, Node.sizeAll_append, Node.sizeAll, Node.size_eq n]
    -- The value only moves: it is counted as pending now, and before as not looked through.
    cases hg : table.get? name with
    | none =>
      have := unexpandedSize_cons_le table name work.expanded
      simp only [Option.toList_none, Node.sizeAll]
      omega
    | some value =>
      have := unexpandedSize_cons_add_le hg (by simpa using hnew)
      simp only [Option.toList_some, Node.sizeAll]
      omega

/-- The loop takes its turns one after another. -/
theorem anyTainted_eq_turn (work : Worklist) :
    anyTainted table source work.pending work.expanded =
      match turn table source work with
      | .verdict tainted => tainted
      | .next work' => anyTainted table source work'.pending work'.expanded := by
  obtain ⟨pending, expanded⟩ := work
  dsimp only
  fun_cases turn table source ⟨pending, expanded⟩ with
  | case1 hp =>
    obtain rfl : pending = [] := hp
    rw [anyTainted]
  | case2 n rest hp hn hname | case3 n rest hp hn hname =>
    obtain rfl : pending = n :: rest := hp
    rw [anyTainted, if_pos hn]
    simp [hname]
  | case4 n rest hp hb hn hs | case5 n rest hp hb hn hs =>
    obtain rfl : pending = n :: rest := hp
    rw [anyTainted, if_neg hb, if_pos hn]
    simp [hs]
  | case6 n rest hp hb ht hn name hseen =>
    obtain rfl : pending = n :: rest := hp
    rw [anyTainted, if_neg hb, if_neg ht, if_pos hn]
    exact dif_pos hseen
  | case7 n rest hp hb ht hn name hnew =>
    obtain rfl : pending = n :: rest := hp
    rw [anyTainted, if_neg hb, if_neg ht, if_pos hn]
    refine (dif_neg hnew).trans ?_
    split
    · next value hg => simp only [name, hg, Option.toList_some, List.singleton_append]
    · next hg => simp only [name, hg, Option.toList_none, List.nil_append]
  | case8 n rest hp hb ht hn =>
    obtain rfl : pending = n :: rest := hp
    rw [anyTainted, if_neg hb, if_neg ht, if_neg hn]

/-- More turns than nodes that the loop can come to are enough for it to end. -/
theorem verdictWithin?_eq_some {turns : Nat} (h : work.remaining table < turns) :
    verdictWithin? table source turns work =
      some (anyTainted table source work.pending work.expanded) := by
  induction turns generalizing work with
  | zero => omega
  | succ turns ih =>
    rw [verdictWithin?, anyTainted_eq_turn]
    cases ht : turn table source work with
    | verdict tainted => rfl
    | next work' =>
      have := remaining_lt_of_turn ht
      exact ih (by omega)

end Turns

section Least

/-- A relation that is closed under the rules for sums, templates and names. -/
structure ClosedUnderRules (table : Bindings) (source : String) (R : Node → Prop) : Prop where
  bareName : ∀ {n o : Node}, n.hasRule .binaryExpression → IsOperand n o →
    o.hasRule .identifier → R n
  operand : ∀ {n o : Node}, n.hasRule .binaryExpression → IsOperand n o → R o → R n
  substitution : ∀ {n c : Node}, n.hasRule .templateString → c ∈ n.children →
    c.hasRule .templateSubstitution → R n
  binding : ∀ {n value : Node}, n.hasRule .identifier →
    table.get? (n.text source) = some value → R value → R n

theorem mem_namedChildren_of_hasRule {r : Rule} {c : Node} (hc : c ∈ n.children)
    (hr : c.hasRule r) : c ∈ n.namedChildren := by
  have hkind : c.kind = .rule r := by simpa [Node.hasRule] using hr
  exact List.mem_filter.2 ⟨hc, by simp [Node.isNamed, hkind, Kind.isNamed]⟩

theorem closedUnderRules_tainted : ClosedUnderRules table source (Tainted table source) where
  bareName := .bareName
  operand := .operand
  substitution hn hc hs := .substitution hn (mem_namedChildren_of_hasRule hc hs) hs
  binding := .binding

theorem tainted_iff_least :
    Tainted table source n ↔ ∀ R, ClosedUnderRules table source R → R n := by
  refine ⟨fun h R hR => ?_, fun h => h _ closedUnderRules_tainted⟩
  induction h with
  | bareName hn ho hi => exact hR.bareName hn ho hi
  | operand hn ho _ ih => exact hR.operand hn ho ih
  | substitution hn hc hs => exact hR.substitution hn (List.mem_filter.1 hc).1 hs
  | binding hn hg _ ih => exact hR.binding hn hg ih

end Least

section Paths

/-- The taint of an expression may come from an operand of a sum or from the value of a name. -/
inductive DependsOn (table : Bindings) (source : String) : Node → Node → Prop
  | operand {n o : Node} (hn : n.hasRule .binaryExpression) (ho : IsOperand n o) :
      DependsOn table source n o
  | binding {n value : Node} (hn : n.hasRule .identifier)
      (hg : table.get? (n.text source) = some value) : DependsOn table source n value

/-- Tainted by itself: a sum with a bare name, or a template in which something is substituted. -/
inductive IsOrigin : Node → Prop
  | bareName {n o : Node} (hn : n.hasRule .binaryExpression) (ho : IsOperand n o)
      (hi : o.hasRule .identifier) : IsOrigin n
  | substitution {n c : Node} (hn : n.hasRule .templateString) (hc : c ∈ n.children)
      (hs : c.hasRule .templateSubstitution) : IsOrigin n

theorem IsOrigin.tainted (h : IsOrigin n) : Tainted table source n := by
  cases h with
  | bareName hn ho hi => exact closedUnderRules_tainted.bareName hn ho hi
  | substitution hn hc hs => exact closedUnderRules_tainted.substitution hn hc hs

theorem DependsOn.tainted (h : DependsOn table source n m) (hm : Tainted table source m) :
    Tainted table source n := by
  cases h with
  | operand hn ho => exact .operand hn ho hm
  | binding hn hg => exact .binding hn hg hm

/-- Whatever names a path goes through, and however often, its end taints its start. -/
theorem tainted_iff_exists_path :
    Tainted table source n ↔
      ∃ origin, ReflTransGen (DependsOn table source) n origin ∧ IsOrigin origin := by
  constructor
  · intro h
    induction h with
    | bareName hn ho hi => exact ⟨_, .refl, .bareName hn ho hi⟩
    | operand hn ho _ ih =>
      obtain ⟨origin, hpath, horigin⟩ := ih
      exact ⟨origin, .head (.operand hn ho) hpath, horigin⟩
    | substitution hn hc hs => exact ⟨_, .refl, .substitution hn (List.mem_filter.1 hc).1 hs⟩
    | binding hn hg _ ih =>
      obtain ⟨origin, hpath, horigin⟩ := ih
      exact ⟨origin, .head (.binding hn hg) hpath, horigin⟩
  · rintro ⟨origin, hpath, horigin⟩
    -- From the end of the path back to its start.
    induction hpath using ReflTransGen.head_induction_on with
    | refl => exact horigin.tainted
    | head hstep _ ih => exact hstep.tainted ih

end Paths

/-- The nodes of all values in a table. -/
def valuesSize (table : Bindings) : Nat := Node.sizeAll (table.entries.map Prod.snd)

theorem unexpandedSize_nil : unexpandedSize table [] = valuesSize table := by
  rw [unexpandedSize, List.filter_eq_self.2 (by simp), valuesSize]

/-- On every table, also one whose bindings go in circles, the loop ends after at most one turn more
than there are nodes, and its verdict is the least relation that is closed under the rules. So the
one expansion of each name hides no path to an origin of taint, and nothing is not tainted. -/
theorem isTainted_decides_least (table : Bindings) (source : String) (n? : Option Node) :
    verdictWithin? table source (Node.sizeAll n?.toList + valuesSize table + 1) ⟨n?.toList, []⟩ =
      some (isTainted table source n?) ∧
    (isTainted table source n? = true ↔
      ∃ n, n? = some n ∧ ∀ R, ClosedUnderRules table source R → R n) ∧
    (isTainted table source n? = true ↔
      ∃ n origin, n? = some n ∧ ReflTransGen (DependsOn table source) n origin ∧
        IsOrigin origin) ∧
    isTainted table source none = false := by
  refine ⟨?_, ?_, ?_, ?_⟩
  · apply verdictWithin?_eq_some
    simp only [Worklist.remaining, unexpandedSize_nil]
    omega
  · simp only [isTainted_iff, tainted_iff_least]
  · simp only [isTainted_iff, tainted_iff_exists_path, exists_and_left]
  · rw [isTainted, Option.toList_none, anyTainted]

end InjectionScan.Taint
