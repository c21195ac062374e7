import InjectionScan.Syntax.Cursor

/-! The walk with a cursor visits the nodes of a subtree in preorder, each of them once. -/
namespace InjectionScan.Syntax.Node

/-- The node with other children. -/
def withChildren (cs : List Node) : Node → Node
  | node k r s e _ => node k r s e cs

@[simp] theorem children_withChildren (cs : List Node) (n : Node) :
    (n.withChildren cs).children = cs := by
  cases n
  rfl

@[simp] theorem hasRule_withChildren (cs : List Node) (n : Node) (r : Rule) :
    (n.withChildren cs).hasRule r = n.hasRule r := by
  cases n
  rfl

theorem preorder_eq (n : Node) : n.preorder = n :: preorderAll n.children := by
  cases n
  simp [preorder, children]

theorem preorderAll_append (ms ns : List Node) :
    preorderAll (ms ++ ns) = preorderAll ms ++ preorderAll ns := by
  induction ms with
  | nil => rfl
  | cons m ms ih => simp [preorderAll, ih]

theorem preorderAll_eq_flatMap (ns : List Node) : preorderAll ns = ns.flatMap preorder := by
  induction ns with
  | nil => rfl
  | cons n ns ih => rw [preorderAll, ih, List.flatMap_cons]

mutual

/-- The spots of a subtree in the order of the recursive walk: that of its root, then those of its
children from left to right. -/
def spots (address : List Nat) : Node → List Spot
  | node k r s e cs => ⟨address, node k r s e cs⟩ :: spotsAll address 0 cs

/-- The spots below a node, from the child at a place on. -/
def spotsAll (address : List Nat) (place : Nat) : List Node → List Spot
  | [] => []
  | n :: ns => n.spots (place :: address) ++ spotsAll address (place + 1) ns

end

theorem spots_eq (address : List Nat) (n : Node) :
    n.spots address = ⟨address, n⟩ :: spotsAll address 0 n.children := by
  cases n
  rw [spots, children]

mutual

theorem map_node_spots (address : List Nat) (n : Node) :
    (n.spots address).map Spot.node = n.preorder := by
  cases n with
  | node k r s e cs => rw [spots, List.map_cons, map_node_spotsAll address 0 cs, preorder]

theorem map_node_spotsAll (address : List Nat) (place : Nat) (ns : List Node) :
    (spotsAll address place ns).map Spot.node = preorderAll ns := by
  cases ns with
  | nil => rfl
  | cons n ns =>
    rw [spotsAll, List.map_append, map_node_spots (place :: address) n,
      map_node_spotsAll address (place + 1) ns, preorderAll]

end

end InjectionScan.Syntax.Node

namespace InjectionScan.Syntax

namespace Cursor

variable {root : Spot} {c next : Cursor}

/-- The spots that are visited after the subtree of the cursor. -/
def laterSpots : List Level → List Spot
  | [] => []
  | level :: above =>
    Node.spotsAll level.parent.address (level.place + 1) level.later ++ laterSpots above

/-- The spots that are still to be visited. -/
def pending (c : Cursor) : List Spot := c.spot.node.spots c.spot.address ++ laterSpots c.levels

/-- The cursor came down from the root. -/
inductive Below (root : Spot) : Cursor → Prop
  | root : Below root (ofSpot root)
  | child {c : Cursor} (h : Below root c) (place : Nat) (n : Node) (later : List Node) :
    Below root ⟨⟨place :: c.spot.address, n⟩, ⟨c.spot, place, later⟩ :: c.levels⟩

theorem Below.length_address (h : Below root c) :
    c.spot.address.length = root.address.length + c.levels.length := by
  induction h with
  | root => rfl
  | child h place n later ih =>
    simp only [List.length_cons, ih]
    omega

/-- The way to a node below the root is longer than the way to the root. -/
theorem Below.same_child (h : Below root c) (place : Nat) (n : Node) :
    Spot.same ⟨place :: c.spot.address, n⟩ root = false := by
  have hlength := h.length_address
  simp only [Spot.same, beq_eq_false_iff_ne, ne_eq]
  intro heq
  have := congrArg List.length heq
  simp only [List.length_cons] at this
  omega

theorem Below.firstChild? (h : Below root c) (hnext : c.firstChild? = some next) :
    Below root next ∧ c.pending = c.spot :: next.pending := by
  rw [Cursor.firstChild?] at hnext
  split at hnext
  · cases hnext
  · next n ns hchildren =>
    cases hnext
    refine ⟨h.child 0 n ns, ?_⟩
    rw [pending, Node.spots_eq, hchildren]
    simp only [pending, laterSpots, Node.spotsAll, List.cons_append, List.append_assoc]

/-- A leaf is the only node of its subtree. -/
theorem pending_of_firstChild?_eq_none (h : c.firstChild? = none) :
    c.pending = c.spot :: laterSpots c.levels := by
  rw [Cursor.firstChild?] at h
  split at h
  · next hchildren => rw [pending, Node.spots_eq, hchildren, Node.spotsAll, List.singleton_append]
  · cases h

/-- The climb goes to the first spot that is left, and ends at the root exactly if none is left. -/
theorem Below.climb (h : Below root c) :
    match c.climb root with
    | some next => Below root next ∧ laterSpots c.levels = next.pending
    | none => laterSpots c.levels = [] := by
  induction h with
  | root =>
    have hsame : (ofSpot root).spot.same root = true := beq_self_eq_true root.address
    rw [Cursor.climb, if_pos hsame]
    rfl
  | @child c h place n later ih =>
    have hsame := h.same_child place n
    cases later with
    | cons sibling later =>
      rw [Cursor.climb, if_neg (by simp [hsame])]
      simp only [nextSibling?]
      refine ⟨h.child (place + 1) sibling later, ?_⟩
      simp only [pending, laterSpots, Node.spotsAll, List.append_assoc]
    | nil =>
      have hup : Cursor.climb root ⟨⟨place :: c.spot.address, n⟩, ⟨c.spot, place, []⟩ :: c.levels⟩ =
          c.climb root := by
        rw [Cursor.climb, if_neg (by simp [hsame])]
        rfl
      rw [hup]
      simpa only [laterSpots, Node.spotsAll, List.nil_append] using ih

/-- A walk visits what is pending, one spot after the other. -/
theorem Below.visitAll_eq {σ : Type} (visit : σ → Spot → σ) (state : σ) (h : Below root c) :
    c.visitAll visit root state = c.pending.foldl visit state := by
  fun_induction Cursor.visitAll visit root state c with
  | case1 state c state' child hchild _ ih =>
    obtain ⟨hbelow, hpending⟩ := h.firstChild? hchild
    rw [ih hbelow, hpending]
    rfl
  | case2 state c state' hleaf next hnext _ ih =>
    have hclimb := h.climb
    rw [hnext] at hclimb
    rw [ih hclimb.1, pending_of_firstChild?_eq_none hleaf, hclimb.2]
    rfl
  | case3 state c state' hleaf hend =>
    have hclimb := h.climb
    rw [hend] at hclimb
    rw [pending_of_firstChild?_eq_none hleaf, hclimb]
    rfl

end Cursor

theorem Spot.walk_eq_foldl {σ : Type} (visit : σ → Spot → σ) (state : σ) (r : Spot) :
    r.walk visit state = (r.node.spots r.address).foldl visit state := by
  rw [Spot.walk, Cursor.Below.root.visitAll_eq]
  simp only [Cursor.pending, Cursor.ofSpot, Cursor.laterSpots, List.append_nil]

theorem Node.walk_eq_preorder (n : Node) : n.walk = n.preorder := by
  rw [Node.walk, Spot.walk_eq_foldl, List.foldl_flip_cons_eq_append, List.append_nil,
    List.reverse_reverse, map_node_spots]

namespace Node

/-- The node at an address. -/
def at? (tree : Node) : List Nat → Option Node
  | [] => some tree
  | place :: above => (tree.at? above).bind fun n => n.children[place]?

theorem at?_append (tree : Node) (way address : List Nat) :
    tree.at? (way ++ address) = (tree.at? address).bind fun n => n.at? way := by
  induction way with
  | nil => simp [at?]
  | cons place way ih => simp only [List.cons_append, at?, ih, Option.bind_assoc]

theorem at?_append_singleton (n : Node) (way : List Nat) (place : Nat) :
    n.at? (way ++ [place]) = n.children[place]?.bind fun c => c.at? way := by
  rw [at?_append]
  rfl

mutual

/-- The spots of a subtree are its nodes under their addresses, all of them and no others. -/
theorem mem_spots_iff {address : List Nat} {s : Spot} (n : Node) :
    s ∈ n.spots address ↔ ∃ way, s.address = way ++ address ∧ n.at? way = some s.node := by
  cases n with
  | node k r start stop cs =>
    rw [spots, List.mem_cons, mem_spotsAll_iff cs]
    constructor
    · rintro (rfl | ⟨place, c, way, hc, haddress, hnode⟩)
      · exact ⟨[], rfl, rfl⟩
      · refine ⟨way ++ [place], by simpa using haddress, ?_⟩
        rw [at?_append_singleton, children, hc]
        exact hnode
    · rintro ⟨way, haddress, hnode⟩
      rcases List.eq_nil_or_concat way with rfl | ⟨way, place, rfl⟩
      · obtain ⟨a, m⟩ := s
        cases hnode
        obtain rfl : a = address := haddress
        exact .inl rfl
      · rw [List.concat_eq_append, at?_append_singleton, Option.bind_eq_some_iff] at hnode
        obtain ⟨c, hc, hnode⟩ := hnode
        exact .inr ⟨place, c, way, hc, by simpa using haddress, hnode⟩

theorem mem_spotsAll_iff {address : List Nat} {start : Nat} {s : Spot} (ns : List Node) :
    s ∈ spotsAll address start ns ↔
      ∃ place n way, ns[place]? = some n ∧ s.address = way ++ (start + place) :: address ∧
        n.at? way = some s.node := by
  cases ns with
  | nil => simp [spotsAll]
  | cons n ns =>
    rw [spotsAll, List.mem_append, mem_spots_iff n, mem_spotsAll_iff ns]
    constructor
    · rintro (⟨way, haddress, hnode⟩ | ⟨place, m, way, hm, haddress, hnode⟩)
      · exact ⟨0, n, way, rfl, haddress, hnode⟩
      · exact ⟨place + 1, m, way, hm, by rw [haddress, Nat.add_right_comm, Nat.add_assoc], hnode⟩
    · rintro ⟨place, m, way, hm, haddress, hnode⟩
      cases place with
      | zero =>
        obtain rfl : n = m := by simpa using hm
        exact .inl ⟨way, haddress, hnode⟩
      | succ place =>
        exact .inr ⟨place, m, way, hm, by rw [haddress, Nat.add_right_comm, Nat.add_assoc], hnode⟩

end

mutual

theorem nodup_addresses_spots (address : List Nat) (n : Node) :
    ((n.spots address).map Spot.address).Nodup := by
  cases n with
  | node k r start stop cs =>
    rw [spots, List.map_cons, List.nodup_cons]
    refine ⟨?_, nodup_addresses_spotsAll address 0 cs⟩
    rw [List.mem_map]
    rintro ⟨s, hs, heq⟩
    obtain ⟨place, c, way, -, haddress, -⟩ := (mem_spotsAll_iff cs).1 hs
    have := congrArg List.length (haddress.symm.trans heq)
    simp at this
    omega

/-- Ways through different children are different. -/
theorem nodup_addresses_spotsAll (address : List Nat) (start : Nat) (ns : List Node) :
    ((spotsAll address start ns).map Spot.address).Nodup := by
  cases ns with
  | nil => exact .nil
  | cons n ns =>
    rw [spotsAll, List.map_append, List.nodup_append]
    refine ⟨nodup_addresses_spots _ n, nodup_addresses_spotsAll address (start + 1) ns, ?_⟩
    intro a ha b hb heq
    obtain ⟨s, hs, rfl⟩ := List.mem_map.1 ha
    obtain ⟨t, ht, rfl⟩ := List.mem_map.1 hb
    obtain ⟨way, hway, -⟩ := (mem_spots_iff n).1 hs
    obtain ⟨place, m, way', -, hway', -⟩ := (mem_spotsAll_iff ns).1 ht
    rw [hway, hway'] at heq
    have hplace := (List.cons.inj (List.append_inj_right' heq (by simp))).1
    omega

end

end Node

/-- The walk visits exactly the nodes of the subtree at a spot of a tree, each of them once, in the
order of the recursive walk. -/
theorem Spot.walk_visits_subtree (tree : Node) (r : Spot) (hr : tree.at? r.address = some r.node) :
    (∀ (σ : Type) (visit : σ → Spot → σ) (state : σ),
      r.walk visit state = (r.node.spots r.address).foldl visit state) ∧
    (r.node.spots r.address).map Spot.node = r.node.preorder ∧
    ((r.node.spots r.address).map Spot.address).Nodup ∧
    ∀ s : Spot, s ∈ r.node.spots r.address ↔
      r.address <:+ s.address ∧ tree.at? s.address = some s.node := by
  refine ⟨fun σ visit state => r.walk_eq_foldl visit state, Node.map_node_spots _ _,
    Node.nodup_addresses_spots _ _, fun s => ?_⟩
  rw [Node.mem_spots_iff]
  constructor
  · rintro ⟨way, haddress, hnode⟩
    refine ⟨⟨way, haddress.symm⟩, ?_⟩
    rw [haddress, Node.at?_append, hr]
    exact hnode
  · rintro ⟨⟨way, haddress⟩, hnode⟩
    rw [← haddress, Node.at?_append, hr] at hnode
    exact ⟨way, haddress.symm, hnode⟩

/-- A call between two names, with a chain of single children and a last child that is a leaf. -/
def Node.callBetweenNames : Node :=
  let leaf (start : Nat) : Node := .node (.rule .identifier) none start (start + 1) []
  let callee : Node := .node (.rule .memberExpression) (some .function) 2 3 [leaf 2]
  .node (.rule .program) none 0 6
    [leaf 0, .node (.rule .callExpression) none 2 5 [callee, leaf 4], leaf 5]

theorem Spot.walk_visits_subtree_inner :
    ∃ call, Node.callBetweenNames.at? [1] = some call ∧
      (Spot.walk (fun seen s => s :: seen) [] ⟨[1], call⟩).reverse.map Spot.address =
        [[1], [0, 1], [0, 0, 1], [1, 1]] ∧
      ∀ s : Spot, s ∈ call.spots [1] ↔
        [1] <:+ s.address ∧ Node.callBetweenNames.at? s.address = some s.node := by
  refine ⟨_, rfl, ?_⟩
  obtain ⟨hwalk, -, -, hmem⟩ := Spot.walk_visits_subtree Node.callBetweenNames ⟨[1], _⟩ rfl
  refine ⟨?_, hmem⟩
  rw [hwalk]
  rfl

end InjectionScan.Syntax
