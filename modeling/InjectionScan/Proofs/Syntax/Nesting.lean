import InjectionScan.Proofs.Syntax.Preorder
import InjectionScan.Syntax.Source
import Mathlib.Data.List.Chain
import Mathlib.Data.List.Forall2

/-! A walk through a tree whose spans nest never goes back in the text. -/
namespace InjectionScan.Syntax

namespace Node

/-- The span of each node lies inside its parent's, and each sibling starts at or after the end of the
one before it. -/
def Nested (root : Node) : Prop :=
  ∀ n ∈ root.preorder, n.start ≤ n.stop ∧
    (∀ c ∈ n.children, n.start ≤ c.start ∧ c.stop ≤ n.stop) ∧
    n.children.IsChain fun a b => a.stop ≤ b.start

instance (root : Node) : Decidable root.Nested :=
  inferInstanceAs (Decidable (∀ n ∈ root.preorder, _))

/-- Nested nodes one after the other, between two places of the text. -/
def Row : Nat → List Node → Nat → Prop
  | low, [], high => low ≤ high
  | low, n :: ns, high => low ≤ n.start ∧ n.Nested ∧ Row n.stop ns high

variable {low low' high high' : Nat} {m n : Node} {ms ns : List Node}

theorem Nested.start_le_stop (h : n.Nested) : n.start ≤ n.stop := by
  have hself : n ∈ n.preorder := by simp [preorder_eq]
  exact (h n hself).1

theorem Nested.child (h : n.Nested) (hm : m ∈ n.children) : m.Nested := by
  intro k hk
  apply h
  rw [preorder_eq, preorderAll_eq_flatMap]
  exact List.mem_cons_of_mem _ (List.mem_flatMap.2 ⟨m, hm, hk⟩)

namespace Row

theorem low_le_high (h : Row low ns high) : low ≤ high := by
  induction ns generalizing low with
  | nil => exact h
  | cons n ns ih =>
    obtain ⟨hlow, hn, hrest⟩ := h
    have := hn.start_le_stop
    have := ih hrest
    omega

theorem mono (h : Row low ns high) (hlow : low' ≤ low) (hhigh : high ≤ high') : Row low' ns high' := by
  induction ns generalizing low low' with
  | nil =>
    have : low ≤ high := h
    exact Nat.le_trans hlow (Nat.le_trans this hhigh)
  | cons n ns ih =>
    obtain ⟨hstart, hn, hrest⟩ := h
    exact ⟨Nat.le_trans hlow hstart, hn, ih hrest (Nat.le_refl _)⟩

/-- Two rows make one if the first ends before the second begins. -/
theorem append_iff : Row low (ms ++ ns) high ↔ ∃ mid, Row low ms mid ∧ Row mid ns high := by
  induction ms generalizing low with
  | nil =>
    constructor
    · intro h
      exact ⟨low, Nat.le_refl _, h⟩
    · rintro ⟨mid, hmid, h⟩
      exact h.mono hmid (Nat.le_refl _)
  | cons m ms ih =>
    constructor
    · rintro ⟨hlow, hm, hrest⟩
      obtain ⟨mid, hfirst, hsecond⟩ := ih.1 hrest
      exact ⟨mid, ⟨hlow, hm, hfirst⟩, hsecond⟩
    · rintro ⟨mid, ⟨hlow, hm, hfirst⟩, hsecond⟩
      exact ⟨hlow, hm, ih.2 ⟨mid, hfirst, hsecond⟩⟩

theorem append (hm : Row low ms high) (hn : Row high ns high') : Row low (ms ++ ns) high' :=
  append_iff.2 ⟨high, hm, hn⟩

theorem singleton_iff : Row low [n] high ↔ low ≤ n.start ∧ n.Nested ∧ n.stop ≤ high := Iff.rfl

theorem nested_of_mem (h : Row low ns high) (hn : n ∈ ns) : n.Nested := by
  induction ns generalizing low with
  | nil => cases hn
  | cons m ms ih =>
    obtain ⟨-, hm, hrest⟩ := h
    rcases List.mem_cons.1 hn with rfl | hn
    · exact hm
    · exact ih hrest hn

theorem within_of_mem (h : Row low ns high) (hn : n ∈ ns) : low ≤ n.start ∧ n.stop ≤ high := by
  obtain ⟨before, after, rfl⟩ := List.append_of_mem hn
  obtain ⟨mid, hbefore, hstart, hnested, hafter⟩ := append_iff.1 h
  have := hbefore.low_le_high
  have := hafter.low_le_high
  omega

theorem isChain (h : Row low ns high) : ns.IsChain fun a b => a.stop ≤ b.start := by
  induction ns generalizing low with
  | nil => exact .nil
  | cons n ns ih =>
    obtain ⟨-, -, hrest⟩ := h
    refine List.isChain_cons.2 ⟨?_, ih hrest⟩
    intro m hm
    cases ns with
    | nil => cases hm
    | cons m' ms =>
      cases hm
      exact hrest.1

/-- A row shrinks to the start of its first and the end of its last node. -/
theorem shrink {first last : Node} (h : Row low ns high) (hfirst : ns.head? = some first)
    (hlast : ns.getLast? = some last) :
    Row first.start ns last.stop ∧ low ≤ first.start ∧ last.stop ≤ high := by
  obtain ⟨rest, rfl⟩ := List.head?_eq_some_iff.1 hfirst
  have hlow : Row first.start (first :: rest) high := ⟨Nat.le_refl _, h.2⟩
  refine ⟨?_, h.1, (h.within_of_mem (List.mem_of_getLast? hlast)).2⟩
  obtain ⟨init, heq⟩ := List.getLast?_eq_some_iff.1 hlast
  rw [heq] at hlow ⊢
  obtain ⟨mid, hinit, hmid, hn, -⟩ := append_iff.1 hlow
  exact hinit.append ⟨hmid, hn, Nat.le_refl _⟩

end Row

theorem row_of_isChain (hbounds : ∀ n ∈ ns, n.Nested ∧ n.stop ≤ high)
    (hchain : ns.IsChain fun a b => a.stop ≤ b.start) (hhead : ∀ n ∈ ns.head?, low ≤ n.start)
    (hle : low ≤ high) : Row low ns high := by
  induction ns generalizing low with
  | nil => exact hle
  | cons n ns ih =>
    obtain ⟨hn, hstop⟩ := hbounds n List.mem_cons_self
    rw [List.isChain_cons] at hchain
    refine ⟨hhead n rfl, hn, ?_⟩
    exact ih (fun m hm => hbounds m (List.mem_cons_of_mem _ hm)) hchain.2 hchain.1 hstop

/-- A tree nests exactly if the children of its root stand in a row inside its span. -/
theorem nested_iff_row : n.Nested ↔ Row n.start n.children n.stop := by
  constructor
  · intro h
    obtain ⟨hle, hinside, hchain⟩ := h n (by simp [preorder_eq])
    refine row_of_isChain (fun c hc => ⟨h.child hc, (hinside c hc).2⟩) hchain ?_ hle
    intro c hc
    exact (hinside c (List.mem_of_mem_head? hc)).1
  · intro h m hm
    rw [preorder_eq, List.mem_cons, preorderAll_eq_flatMap, List.mem_flatMap] at hm
    rcases hm with rfl | ⟨c, hc, hm⟩
    · exact ⟨h.low_le_high, fun c hc => h.within_of_mem hc, h.isChain⟩
    · exact h.nested_of_mem hc m hm

/-- A node that can stand in the place of another one: it has the same span, and nests if that does. -/
structure Replaces (m n : Node) : Prop where
  start_eq : m.start = n.start
  stop_eq : m.stop = n.stop
  nested : n.Nested → m.Nested

theorem Replaces.refl (n : Node) : n.Replaces n := ⟨rfl, rfl, id⟩

/-- A node with the same span whose children stand in a row wherever the other ones do. -/
theorem replaces_of_children (hstart : m.start = n.start) (hstop : m.stop = n.stop)
    (hrow : Row n.start n.children n.stop → Row n.start m.children n.stop) : m.Replaces n := by
  refine ⟨hstart, hstop, fun h => ?_⟩
  rw [nested_iff_row, hstart, hstop]
  exact hrow (nested_iff_row.1 h)

theorem withRole_replaces (r : Option Role) (n : Node) : (n.withRole r).Replaces n := by
  cases n
  exact replaces_of_children rfl rfl id

theorem withKind_replaces (k : Kind) (n : Node) : (n.withKind k).Replaces n := by
  cases n
  exact replaces_of_children rfl rfl id

theorem Row.replace (h : List.Forall₂ Replaces ms ns) (hns : Row low ns high) : Row low ms high := by
  induction h generalizing low with
  | nil => exact hns
  | cons hfirst _ ih =>
    obtain ⟨hlow, hn, hrest⟩ := hns
    exact ⟨hfirst.start_eq ▸ hlow, hfirst.nested hn, ih (hfirst.stop_eq ▸ hrest)⟩

mutual

/-- The walk through a nested tree goes forward, and does not leave the span of the root. -/
theorem Nested.pairwise_preorder (n : Node) (h : n.Nested) :
    n.preorder.Pairwise (fun a b => a.start ≤ b.start) ∧
      ∀ m ∈ n.preorder, n.start ≤ m.start ∧ m.start ≤ n.stop := by
  cases n with
  | node k r s e cs =>
    obtain ⟨hforward, hinside⟩ := Row.pairwise_preorderAll s e cs (nested_iff_row.1 h)
    have hle : s ≤ e := h.start_le_stop
    refine ⟨.cons (fun m hm => (hinside m hm).1) hforward, ?_⟩
    intro m hm
    rcases List.mem_cons.1 hm with rfl | hm
    · exact ⟨Nat.le_refl _, hle⟩
    · exact hinside m hm

theorem Row.pairwise_preorderAll (low high : Nat) (ns : List Node) (h : Row low ns high) :
    (preorderAll ns).Pairwise (fun a b => a.start ≤ b.start) ∧
      ∀ m ∈ preorderAll ns, low ≤ m.start ∧ m.start ≤ high := by
  cases ns with
  | nil => exact ⟨.nil, fun m hm => absurd hm List.not_mem_nil⟩
  | cons n ns =>
    obtain ⟨hlow, hn, hrest⟩ := h
    have hspan := hn.start_le_stop
    have hhigh := hrest.low_le_high
    obtain ⟨hfirst, hin⟩ := Nested.pairwise_preorder n hn
    obtain ⟨hlater, hbeyond⟩ := Row.pairwise_preorderAll n.stop high ns hrest
    refine ⟨List.pairwise_append.2 ⟨hfirst, hlater, ?_⟩, ?_⟩
    -- a subtree starts nothing after its own end, and the next one nothing before it
    · intro a ha b hb
      exact Nat.le_trans (hin a ha).2 (hbeyond b hb).1
    · intro m hm
      rcases List.mem_append.1 hm with hm | hm
      · have := hin m hm
        omega
      · have := hbeyond m hm
        omega

end

end Node

/-! ### Places in the text -/

namespace Position

/-- The first place stands in an earlier line, or in the same line and not in a later column. -/
def NotAfter (p q : Position) : Prop :=
  p.line < q.line ∨ p.line = q.line ∧ p.column ≤ q.column

theorem NotAfter.refl (p : Position) : p.NotAfter p := .inr ⟨rfl, Nat.le_refl _⟩

theorem NotAfter.trans {p q r : Position} (hpq : p.NotAfter q) (hqr : q.NotAfter r) :
    p.NotAfter r := by
  unfold NotAfter at *
  omega

theorem notAfter_advance (p : Position) (byte : UInt8) : p.NotAfter (p.advance byte) := by
  unfold advance
  split
  · exact .inl (Nat.lt_succ_self _)
  · exact .inr ⟨rfl, Nat.le_succ _⟩

theorem notAfter_foldl_advance (bytes : List UInt8) (p : Position) :
    p.NotAfter (bytes.foldl advance p) := by
  induction bytes generalizing p with
  | nil => exact .refl p
  | cons byte bytes ih => exact (p.notAfter_advance byte).trans (ih _)

/-- Later bytes are not before earlier ones, also beyond the end of the text. -/
theorem ofOffset_mono (source : String) {i j : Nat} (h : i ≤ j) :
    (ofOffset source i).NotAfter (ofOffset source j) := by
  obtain ⟨k, rfl⟩ := Nat.exists_eq_add_of_le h
  unfold ofOffset
  rw [List.take_add, List.foldl_append]
  exact notAfter_foldl_advance _ _

end Position

end InjectionScan.Syntax
