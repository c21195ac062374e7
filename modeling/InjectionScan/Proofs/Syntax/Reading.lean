import InjectionScan.Proofs.Syntax.Preorder
import InjectionScan.Proofs.Text.ByteOrder
import InjectionScan.Syntax.Source
import Mathlib.Data.List.Forall2

/-! Syntax that reads the same, each in its own source, wherever it stands. -/
namespace InjectionScan.Syntax.Node

variable {source source' : String} {R : Node → Node → Prop} {m n : Node} {ms ns : List Node}

/-- A relation that keeps kinds, roles and texts, of the nodes and of what is below them. -/
structure KeepsReading (source source' : String) (R : Node → Node → Prop) : Prop where
  kind : ∀ {m n}, R m n → m.kind = n.kind
  role : ∀ {m n}, R m n → m.role = n.role
  text : ∀ {m n}, R m n → m.text source = n.text source'
  children : ∀ {m n}, R m n → List.Forall₂ R m.children n.children

theorem keepsReading_eq (source : String) : KeepsReading source source Eq where
  kind := by rintro _ _ rfl; rfl
  role := by rintro _ _ rfl; rfl
  text := by rintro _ _ rfl; rfl
  children := by rintro _ _ rfl; exact List.forall₂_refl _

section Lists

theorem rel_find? {p q : Node → Bool} (hpq : ∀ {m n}, R m n → p m = q n)
    (h : List.Forall₂ R ms ns) : Option.Rel R (ms.find? p) (ns.find? q) := by
  induction h with
  | nil => exact .none
  | cons hfirst _ ih =>
    rw [List.find?_cons, List.find?_cons, hpq hfirst]
    split
    · exact .some hfirst
    · exact ih

theorem exists_rel_of_mem (h : List.Forall₂ R ms ns) (hm : m ∈ ms) : ∃ n ∈ ns, R m n := by
  induction h with
  | nil => cases hm
  | cons hfirst _ ih =>
    rcases List.mem_cons.1 hm with rfl | hm
    · exact ⟨_, List.mem_cons_self, hfirst⟩
    · obtain ⟨n, hn, hr⟩ := ih hm
      exact ⟨n, List.mem_cons_of_mem _ hn, hr⟩

theorem exists_rel_of_eq_some {x y : Option Node} (h : Option.Rel R x y) (hx : x = some m) :
    ∃ n, y = some n ∧ R m n := by
  cases h with
  | none => cases hx
  | some hr =>
    cases hx
    exact ⟨_, rfl, hr⟩

theorem eq_of_rel (hR : ∀ {m n}, R m n → m = n) {x y : Option Node} (h : Option.Rel R x y) :
    x = y := by
  cases h with
  | none => rfl
  | some hr => rw [hR hr]

theorem rel_flip {x y : Option Node} (h : Option.Rel R x y) : Option.Rel (flip R) y x := by
  cases h with
  | none => exact .none
  | some hr => exact .some hr

end Lists

namespace KeepsReading

variable (hR : KeepsReading source source' R)

include hR

theorem flip : KeepsReading source' source (flip R) where
  kind h := (hR.kind h).symm
  role h := (hR.role h).symm
  text h := (hR.text h).symm
  children h := (hR.children h).flip

theorem hasRule (h : R m n) (r : Rule) : m.hasRule r = n.hasRule r := by
  rw [Node.hasRule, Node.hasRule, hR.kind h]

theorem child? (h : R m n) (r : Role) : Option.Rel R (m.child? r) (n.child? r) :=
  rel_find? (fun hc => by rw [hR.role hc]) (hR.children h)

theorem namedChildren (h : R m n) : List.Forall₂ R m.namedChildren n.namedChildren :=
  List.rel_filter (fun _ _ hc => by simp [isNamed, hR.kind hc]) (hR.children h)

omit hR

mutual

theorem preorder (hR : KeepsReading source source' R) (m n : Node) (h : R m n) :
    List.Forall₂ R m.preorder n.preorder := by
  cases m with
  | node k r s e cs =>
    rw [preorder_eq n]
    exact .cons h (preorderAll hR cs n.children (hR.children h))

theorem preorderAll (hR : KeepsReading source source' R) (ms ns : List Node)
    (h : List.Forall₂ R ms ns) : List.Forall₂ R (Node.preorderAll ms) (Node.preorderAll ns) := by
  cases ms with
  | nil =>
    cases h
    exact .nil
  | cons m ms =>
    obtain ⟨n, ns, hfirst, hrest, rfl⟩ := List.forall₂_cons_left_iff.1 h
    exact List.rel_append (preorder hR m n hfirst) (preorderAll hR ms ns hrest)

end

end KeepsReading

section Compared

mutual

/-- Whether a node reads in the first source as another one does in the second. -/
def readsAs (source source' : String) : Node → Node → Bool
  | node k r s e cs, n =>
    k == n.kind && r == n.role && (node k r s e cs).text source == n.text source' &&
      readAllAs source source' cs n.children

def readAllAs (source source' : String) : List Node → List Node → Bool
  | [], ns => ns.isEmpty
  | m :: ms, ns =>
    match ns with
    | [] => false
    | n :: ns => m.readsAs source source' n && readAllAs source source' ms ns

end

theorem readAllAs_iff :
    readAllAs source source' ms ns = true ↔
      List.Forall₂ (fun m n => m.readsAs source source' n = true) ms ns := by
  induction ms generalizing ns with
  | nil => cases ns <;> simp [readAllAs]
  | cons m ms ih => cases ns <;> simp [readAllAs, ih]

theorem keepsReading_readsAs (source source' : String) :
    KeepsReading source source' fun m n => m.readsAs source source' n = true := by
  have hparts {m n : Node} (h : m.readsAs source source' n = true) :
      m.kind = n.kind ∧ m.role = n.role ∧ m.text source = n.text source' ∧
        readAllAs source source' m.children n.children = true := by
    cases m
    simpa [readsAs, Node.kind, Node.role, Node.children, and_assoc] using h
  exact
    { kind := fun h => (hparts h).1
      role := fun h => (hparts h).2.1
      text := fun h => (hparts h).2.2.1
      children := fun h => readAllAs_iff.1 (hparts h).2.2.2 }

end Compared

section Places

/-- The nodes and all that is below them have the same texts and places in both sources. -/
def KeepPlaces (source source' : String) (ns : List Node) : Prop :=
  ∀ n ∈ preorderAll ns, n.text source = n.text source' ∧ n.position source = n.position source'

/-- The nodes and all that is below them stand inside the source. -/
def Inside (source : String) (ns : List Node) : Prop :=
  ∀ n ∈ preorderAll ns, n.start ≤ n.stop ∧ n.stop ≤ source.utf8ByteSize

instance : Decidable (Inside source ns) := inferInstanceAs (Decidable (∀ n ∈ preorderAll ns, _))

theorem toUTF8_append (source more : String) :
    (source ++ more).toUTF8 = source.toUTF8 ++ more.toUTF8 := String.toByteArray_append

theorem text_append (h : n.stop ≤ source.utf8ByteSize) (more : String) :
    n.text (source ++ more) = n.text source := by
  have hsize : n.stop ≤ source.toUTF8.size := h
  have hboth : n.stop ≤ source.toUTF8.size + more.toUTF8.size := Nat.le_add_right_of_le hsize
  have hmore : more.toUTF8.extract (n.start - source.toUTF8.size) 0 = ByteArray.empty :=
    ByteArray.extract_eq_empty_iff.2 (by simp)
  have hextract : (source.toUTF8 ++ more.toUTF8).extract n.start n.stop =
      source.toUTF8.extract n.start n.stop := by
    rw [ByteArray.extract_append, Nat.sub_eq_zero_of_le hsize, hmore, ByteArray.append_empty]
  simp only [text, toUTF8_append, ByteArray.size_append, hextract, hsize, hboth]

theorem position_append (h : n.start ≤ source.utf8ByteSize) (more : String) :
    n.position (source ++ more) = n.position source := by
  rw [Text.utf8ByteSize_eq, ← Text.length_bytesOf] at h
  rw [position, position, Position.ofOffset, Position.ofOffset, Text.toList_toUTF8,
    Text.toList_toUTF8, String.toList_append, Text.bytesOf_append,
    List.take_append_of_le_length h]

theorem Inside.keepPlaces_append (h : Inside source ns) (more : String) :
    KeepPlaces source (source ++ more) ns := by
  intro n hn
  obtain ⟨hstart, hstop⟩ := h n hn
  exact ⟨(text_append hstop more).symm, (position_append (Nat.le_trans hstart hstop) more).symm⟩

theorem mem_preorder_of_mem_children {c : Node} (hc : c ∈ n.children) {k : Node}
    (hk : k ∈ c.preorder) : k ∈ n.preorder := by
  rw [preorder_eq, preorderAll_eq_flatMap]
  exact List.mem_cons_of_mem _ (List.mem_flatMap.2 ⟨c, hc, hk⟩)

/-- To be the same node, with the same texts in both sources, is to read the same. -/
theorem keepsReading_same (source source' : String) :
    KeepsReading source source' fun m n =>
      m = n ∧ ∀ k ∈ m.preorder, k.text source = k.text source' where
  kind h := by rw [h.1]
  role h := by rw [h.1]
  text {m n} h := by
    rw [← h.1]
    exact h.2 m (by rw [preorder_eq]; exact List.mem_cons_self)
  children {m n} h := by
    rw [← h.1, List.forall₂_same]
    exact fun c hc => ⟨rfl, fun k hk => h.2 k (mem_preorder_of_mem_children hc hk)⟩

end Places

end InjectionScan.Syntax.Node
