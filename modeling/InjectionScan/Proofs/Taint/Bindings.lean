import InjectionScan.Proofs.Dictionary.Order
import InjectionScan.Proofs.Syntax.Preorder
import InjectionScan.Script.Program
import InjectionScan.Taint.Bindings
import Mathlib.Data.Set.Card

/-! Of the declarators of a name the last one in document order stays in the table. -/
namespace InjectionScan.Taint

open Syntax

variable {source : String} {table : Bindings} {n : Node} {ns : List Node} {name : String}
  {value : Node}

/-- A declarator of a plain name that has an initial value. -/
def Declares (source : String) (n : Node) (name : String) (value : Node) : Prop :=
  n.hasRule .variableDeclarator ∧ n.child? .value = some value ∧
    ∃ target, n.child? .name = some target ∧ target.hasRule .identifier ∧
      target.text source = name

/-- The node puts the name into the table. The empty name is never bound. -/
def Records (source : String) (n : Node) (name : String) : Prop :=
  name ≠ "" ∧ ∃ value, Declares source n name value

/-- Of the nodes that declare a name, the last one gives it this value. -/
def LastDeclares (source : String) (ns : List Node) (name : String) (value : Node) : Prop :=
  ∃ before n after, ns = before ++ n :: after ∧ Declares source n name value ∧
    ∀ m ∈ after, ∀ other, ¬ Declares source m name other

/-- A node that declares nothing: it is no declarator, as an assignment is none, or it has no initial
value, or it names no plain variable, as a destructuring pattern does not. -/
def PassedOver (n : Node) : Prop :=
  n.hasRule .variableDeclarator = false ∨ n.child? .value = none ∨
    ∀ target, n.child? .name = some target → target.hasRule .identifier = false

section Declarations

theorem declared?_eq_some_iff :
    Bindings.declared? source n = some (name, value) ↔ Declares source n name value := by
  rw [Bindings.declared?, Declares]
  cases n.child? .name <;> cases n.child? .value <;> grind

theorem Declares.unique {other : String} {otherValue : Node} (h : Declares source n name value)
    (h' : Declares source n other otherValue) : name = other ∧ value = otherValue := by
  rw [← declared?_eq_some_iff] at h h'
  simpa using h.symm.trans h'

theorem declared?_eq_none_iff : Bindings.declared? source n = none ↔ PassedOver n := by
  rw [Bindings.declared?, PassedOver]
  cases n.child? .name <;> cases n.child? .value <;> grind

instance : Decidable (PassedOver n) :=
  decidable_of_iff (Bindings.declared? "" n = none) declared?_eq_none_iff

end Declarations

section Recording

theorem get?_bind (name key : String) (value : Node) :
    (table.bind name value).get? key =
      if name = key ∧ name ≠ "" then some value else table.get? key := by
  rw [Bindings.bind]
  by_cases hname : name = ""
  · simp [hname]
  · simp [hname, Dictionary.get?_insert]

/-- The table after one more node. -/
def Bindings.record (source : String) (table : Bindings) (n : Node) : Bindings :=
  match declared? source n with
  | some (name, value) => table.bind name value
  | none => table

theorem collect_eq_foldl_record (source : String) (root : Node) :
    Bindings.collect source root = root.preorder.foldl (Bindings.record source) .empty := by
  rw [Bindings.collect, Node.walk_eq_preorder]
  rfl

theorem record_of_passedOver (h : PassedOver n) : Bindings.record source table n = table := by
  rw [Bindings.record, declared?_eq_none_iff.2 h]

theorem get?_record_of_declares (h : Declares source n name value) (hname : name ≠ "") :
    (Bindings.record source table n).get? name = some value := by
  rw [Bindings.record, declared?_eq_some_iff.2 h]
  simp [get?_bind, hname]

theorem get?_record_of_not_records (h : ¬ Records source n name) :
    (Bindings.record source table n).get? name = table.get? name := by
  rw [Bindings.record]
  split
  · next other value hd =>
    have hother : ¬ (other = name ∧ other ≠ "") := by
      rintro ⟨rfl, hne⟩
      exact h ⟨hne, value, declared?_eq_some_iff.1 hd⟩
    rw [get?_bind, if_neg hother]
  · rfl

end Recording

section Runs

/-- One node more: it decides if it declares the name, and otherwise nothing changes. -/
theorem lastDeclares_concat_iff :
    LastDeclares source (ns ++ [n]) name value ↔
      Declares source n name value ∨
        (∀ other, ¬ Declares source n name other) ∧ LastDeclares source ns name value := by
  constructor
  · rintro ⟨before, m, after, heq, hm, hafter⟩
    obtain rfl | ⟨rest, z, rfl⟩ := List.eq_nil_or_concat' after
    · obtain ⟨-, rfl⟩ : ns = before ∧ n = m := by simpa using heq
      exact .inl hm
    · rw [← List.cons_append, ← List.append_assoc] at heq
      obtain ⟨rfl, ⟨⟩⟩ := List.append_inj' heq rfl
      exact .inr ⟨hafter n (by simp), before, m, rest, rfl, hm,
        fun k hk => hafter k (by simp [hk])⟩
  · rintro (hn | ⟨hn, before, m, after, rfl, hm, hafter⟩)
    · exact ⟨ns, n, [], rfl, hn, by simp⟩
    · refine ⟨before, m, after ++ [n], by simp, hm, ?_⟩
      simpa only [List.forall_mem_append, List.forall_mem_singleton] using ⟨hafter, hn⟩

/-- What the table says of a name after some nodes: the last of them that declares the name decides,
and if there is none the table says what it said before. -/
theorem get?_foldl_record (hname : name ≠ "") (table : Bindings) (ns : List Node) :
    (ns.foldl (Bindings.record source) table).get? name = some value ↔
      LastDeclares source ns name value ∨
        (∀ m ∈ ns, ∀ other, ¬ Declares source m name other) ∧ table.get? name = some value := by
  -- On the nodes from the last one on, since each overrides what came before it.
  induction ns using List.reverseRecOn with
  | nil => simp [LastDeclares]
  | append_singleton ns n ih =>
    rw [List.foldl_append, List.foldl_cons, List.foldl_nil]
    by_cases hn : ∃ last, Declares source n name last
    · obtain ⟨last, hn⟩ := hn
      have hsome : ¬ ∀ other, ¬ Declares source n name other := fun h => h last hn
      have hvalue : Declares source n name value ↔ last = value :=
        ⟨fun h => (hn.unique h).2, fun h => h ▸ hn⟩
      rw [get?_record_of_declares hn hname]
      simp only [lastDeclares_concat_iff, List.forall_mem_append, List.forall_mem_singleton, hsome,
        hvalue, false_and, and_false, or_false, Option.some.injEq]
    · have hnone : ∀ other, ¬ Declares source n name other := not_exists.1 hn
      rw [get?_record_of_not_records fun h => hn h.2, ih]
      simp only [lastDeclares_concat_iff, List.forall_mem_append, List.forall_mem_singleton, hnone,
        not_false_eq_true, implies_true, false_or, true_and, and_true]

theorem get?_foldl_record_of_not_records (h : ∀ n ∈ ns, ¬ Records source n name)
    (table : Bindings) :
    (ns.foldl (Bindings.record source) table).get? name = table.get? name := by
  induction ns generalizing table with
  | nil => rfl
  | cons n ns ih =>
    obtain ⟨hn, hns⟩ := List.forall_mem_cons.1 h
    rw [List.foldl_cons, ih hns, get?_record_of_not_records hn]

theorem foldl_record_filter (table : Bindings) (ns : List Node) :
    (ns.filter fun n => ¬ PassedOver n).foldl (Bindings.record source) table =
      ns.foldl (Bindings.record source) table := by
  rw [List.foldl_filter]
  congr 1
  funext table n
  by_cases hn : PassedOver n
  · simp [hn, record_of_passedOver hn]
  · simp [hn]

end Runs

section Tables

variable {root : Node}

theorem exists_lastDeclares_iff :
    (∃ value, LastDeclares source ns name value) ↔
      ∃ n ∈ ns, ∃ value, Declares source n name value := by
  constructor
  · rintro ⟨value, before, n, after, rfl, hn, -⟩
    exact ⟨n, by simp, value, hn⟩
  · rintro ⟨n, hn, hd⟩
    induction ns using List.reverseRecOn with
    | nil => cases hn
    | append_singleton ns m ih =>
      by_cases hm : ∃ value, Declares source m name value
      · obtain ⟨value, hm⟩ := hm
        exact ⟨value, lastDeclares_concat_iff.2 (.inl hm)⟩
      · have hbefore : n ∈ ns := by
          rcases List.mem_append.1 hn with hn | hn
          · exact hn
          · rw [List.mem_singleton.1 hn] at hd
            exact absurd hd hm
        obtain ⟨value, hlast⟩ := ih hbefore
        exact ⟨value, lastDeclares_concat_iff.2 (.inr ⟨not_exists.1 hm, hlast⟩)⟩

theorem get?_collect_eq_some_iff :
    (Bindings.collect source root).get? name = some value ↔
      name ≠ "" ∧ LastDeclares source root.preorder name value := by
  rw [collect_eq_foldl_record]
  by_cases hname : name = ""
  · subst hname
    rw [get?_foldl_record_of_not_records fun _ _ h => h.1 rfl]
    simp [Dictionary.get?_empty]
  · rw [get?_foldl_record hname]
    simp [Dictionary.get?_empty, hname]

/-- A node of the tree records the name. -/
def Recorded (source : String) (root : Node) (name : String) : Prop :=
  ∃ n ∈ root.preorder, Records source n name

theorem isSome_get?_collect_iff :
    ((Bindings.collect source root).get? name).isSome = true ↔ Recorded source root name := by
  simp only [Option.isSome_iff_exists, get?_collect_eq_some_iff, exists_and_left,
    exists_lastDeclares_iff, Recorded, Records]
  grind

theorem encard_recorded (source : String) (root : Node) :
    {name | Recorded source root name}.encard = (Bindings.collect source root).size := by
  have hnames : {name | Recorded source root name} =
      (((Bindings.collect source root).entries.map Prod.fst).toFinset : Set String) := by
    ext name
    rw [Set.mem_ofPred_eq, ← isSome_get?_collect_iff, Dictionary.isSome_get?_iff]
    simp
  rw [hnames, Set.encard_coe_eq_coe_finsetCard,
    List.toFinset_card_of_nodup (Dictionary.nodup_names _), List.length_map, Dictionary.size]

/-- The table gives every name the value of its last declarator in document order, and it has as many
entries as there are names declared. Nodes that declare nothing do not matter to it. -/
theorem collect_last_declaration (source : String) (root : Node) :
    (∀ name value, (Bindings.collect source root).get? name = some value ↔
      name ≠ "" ∧ LastDeclares source root.preorder name value) ∧
    (∀ name, (Bindings.collect source root).get? name = none ↔
      name = "" ∨ ∀ n ∈ root.preorder, ∀ value, ¬ Declares source n name value) ∧
    {name | ∃ n ∈ root.preorder, Records source n name}.encard =
      (Bindings.collect source root).size ∧
    ∀ other : Node, (other.preorder.filter fun n => ¬ PassedOver n) =
        (root.preorder.filter fun n => ¬ PassedOver n) →
      Bindings.collect source other = Bindings.collect source root := by
  refine ⟨fun _ _ => get?_collect_eq_some_iff, fun name => ?_, encard_recorded source root, ?_⟩
  · rw [← Option.not_isSome_iff_eq_none, isSome_get?_collect_iff, Recorded]
    grind [Records]
  · intro other h
    rw [collect_eq_foldl_record, collect_eq_foldl_record, ← foldl_record_filter, h,
      foldl_record_filter]

/-- A name that is declared again inside its initial value, and two statements that declare
nothing. -/
def declaredInside : String := "var q=function(){var q=a+b};let p;q=c"

/-- Statements at the end that declare nothing can be left out. -/
theorem filter_preorder_withChildren {first rest : List Node} {root : Node}
    (hchildren : root.children = first ++ rest)
    (hroot : root.hasRule .variableDeclarator = false)
    (hrest : ∀ n ∈ Node.preorderAll rest, PassedOver n) :
    ((root.withChildren first).preorder.filter fun n => ¬ PassedOver n) =
      (root.preorder.filter fun n => ¬ PassedOver n) := by
  have hnone : (Node.preorderAll rest).filter (fun n => ¬ PassedOver n) = [] := by
    simpa using hrest
  have htop : PassedOver root := .inl hroot
  have htop' : PassedOver (root.withChildren first) := .inl (by simpa using hroot)
  rw [Node.preorder_eq, Node.preorder_eq, List.filter_cons_of_neg (by simpa using htop'),
    List.filter_cons_of_neg (by simpa using htop), Node.children_withChildren, hchildren,
    Node.preorderAll_append, List.filter_append, hnone, List.append_nil]

theorem collect_last_declaration_inside :
    let root := Script.parse declaredInside
    let first := root.withChildren (root.children.take 1)
    (first.preorder.filter fun n => ¬ PassedOver n) =
      (root.preorder.filter fun n => ¬ PassedOver n) ∧
    Bindings.collect declaredInside first = Bindings.collect declaredInside root ∧
    ((Bindings.collect declaredInside root).get? "q").map (Node.text declaredInside) =
      some "a+b" := by
  have hscript : (Script.parse declaredInside).hasRule .variableDeclarator = false ∧
      (∀ n ∈ Node.preorderAll ((Script.parse declaredInside).children.drop 1), PassedOver n) ∧
      ((Bindings.collect declaredInside (Script.parse declaredInside)).get? "q").map
        (Node.text declaredInside) = some "a+b" := by
    decide +kernel
  obtain ⟨hroot, hrest, hvalue⟩ := hscript
  have hsame := filter_preorder_withChildren (List.take_append_drop 1 _).symm hroot hrest
  exact ⟨hsame, (collect_last_declaration declaredInside _).2.2.2 _ hsame, hvalue⟩

end Tables

end InjectionScan.Taint
