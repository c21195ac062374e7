import InjectionScan.Syntax.Node

/-! Walks through syntax trees by a cursor, without recursion on their depth. -/
namespace InjectionScan.Syntax

/-- A node of a tree and the way to it: the places of the children that lead there, the last one
first. -/
structure Spot where
  address : List Nat
  node : Node

/-- Spots of one tree are the same if the way to them is. -/
def Spot.same (a b : Spot) : Bool := a.address == b.address

/-- What a cursor keeps of a node above it. -/
structure Level where
  parent : Spot
  /-- The place of the child below which the cursor is, and the children after it. -/
  place : Nat
  later : List Node

structure Cursor where
  spot : Spot
  /-- The nodes above, the next one first. There are none above the node it was made for. -/
  levels : List Level

namespace Cursor

def ofSpot (s : Spot) : Cursor := ⟨s, []⟩

def firstChild? (c : Cursor) : Option Cursor :=
  match c.spot.node.children with
  | [] => none
  | n :: ns => some ⟨⟨0 :: c.spot.address, n⟩, ⟨c.spot, 0, ns⟩ :: c.levels⟩

def nextSibling? (c : Cursor) : Option Cursor :=
  match c.levels with
  | ⟨parent, place, n :: ns⟩ :: above =>
    some ⟨⟨(place + 1) :: parent.address, n⟩, ⟨parent, place + 1, ns⟩ :: above⟩
  | _ => none

def parent? (c : Cursor) : Option Cursor :=
  match c.levels with
  | level :: above => some ⟨level.parent, above⟩
  | [] => none

theorem length_levels_of_parent? {c up : Cursor} (h : c.parent? = some up) :
    up.levels.length < c.levels.length := by
  rw [parent?] at h
  split at h
  · next heq =>
    cases h
    simp [heq]
  · cases h

/-- The node to visit when a subtree is done: the next sibling of the lowest node that has one. The
climb ends at the root. -/
def climb (root : Spot) (c : Cursor) : Option Cursor :=
  if c.spot.same root then none
  else
    match c.nextSibling? with
    | some next => some next
    | none =>
      match h : c.parent? with
      | some up =>
        have := length_levels_of_parent? h
        climb root up
      | none => none
termination_by c.levels.length

/-- How many nodes stand after those that the cursor is in. -/
def laterSize : List Level → Nat
  | [] => 0
  | level :: above => Node.sizeAll level.later + laterSize above

/-- How many nodes are still to be visited, that of the cursor among them. -/
def remaining (c : Cursor) : Nat := c.spot.node.size + laterSize c.levels

theorem remaining_of_firstChild? {c child : Cursor} (h : c.firstChild? = some child) :
    child.remaining < c.remaining := by
  rw [firstChild?] at h
  split at h
  · cases h
  · next heq =>
    cases h
    simp only [remaining, laterSize, Node.size_eq c.spot.node, heq, Node.sizeAll]
    omega

theorem remaining_of_nextSibling? {c next : Cursor} (h : c.nextSibling? = some next) :
    next.remaining = laterSize c.levels := by
  rw [nextSibling?] at h
  split at h
  · next heq =>
    cases h
    simp only [remaining, laterSize, heq, Node.sizeAll]
    omega
  · cases h

theorem laterSize_of_parent? {c up : Cursor} (h : c.parent? = some up) :
    laterSize up.levels ≤ laterSize c.levels := by
  rw [parent?] at h
  split at h
  · next heq =>
    cases h
    simp [laterSize, heq]
  · cases h

theorem remaining_of_climb {root : Spot} {c next : Cursor} (h : c.climb root = some next) :
    next.remaining < c.remaining := by
  have hlater : next.remaining ≤ laterSize c.levels := by
    fun_induction climb root c with
    | case1 => cases h
    | case2 c _ sibling hsibling =>
      cases h
      exact Nat.le_of_eq (remaining_of_nextSibling? hsibling)
    | case3 c _ _ up hup _ ih => exact Nat.le_trans (ih h) (laterSize_of_parent? hup)
    | case4 => cases h
  have hsize : 0 < c.spot.node.size := Node.size_eq c.spot.node ▸ Nat.succ_pos _
  exact Nat.lt_of_le_of_lt hlater (Nat.lt_add_of_pos_left hsize)

/-- Visits the node of the cursor and all nodes after it. -/
def visitAll {σ : Type} (visit : σ → Spot → σ) (root : Spot) (state : σ) (c : Cursor) : σ :=
  let state := visit state c.spot
  match hchild : c.firstChild? with
  | some child =>
    have := remaining_of_firstChild? hchild
    visitAll visit root state child
  | none =>
    match hnext : c.climb root with
    | some next =>
      have := remaining_of_climb hnext
      visitAll visit root state next
    | none => state
termination_by c.remaining

end Cursor

/-- Visits every node of the subtree at a spot in document order. -/
def Spot.walk {σ : Type} (visit : σ → Spot → σ) (state : σ) (root : Spot) : σ :=
  (Cursor.ofSpot root).visitAll visit root state

namespace Node

/-- Every node of a tree in document order. -/
def walk (n : Node) : List Node :=
  (Spot.walk (fun seen s => s.node :: seen) [] ⟨[], n⟩).reverse

def hasError (n : Node) : Bool :=
  n.walk.any fun m => m.hasRule .error

end Node

end InjectionScan.Syntax
