import InjectionScan.Proofs.Taint.Transfer

/-! The order of statements does not matter as long as no name is declared twice. -/
namespace InjectionScan.Taint

open Syntax Node

variable {source source' : String} {root root' m n : Node} {ms ns : List Node} {name : String}

section Orders

/-- No name is recorded by both nodes. -/
def Apart (source : String) (m n : Node) : Prop :=
  ∀ name, Records source m name → ¬ Records source n name

/-- No name is recorded by two nodes of the tree. -/
def NoRedeclaration (source : String) (root : Node) : Prop :=
  root.preorder.Pairwise (Apart source)

instance : Decidable (Apart source m n) :=
  decidable_of_iff
    (∀ d ∈ Bindings.declared? source m, ∀ e ∈ Bindings.declared? source n,
      d.1 = e.1 → d.1 = "") (by
    constructor
    · rintro h name ⟨hname, _, hm⟩ ⟨-, _, hn⟩
      exact hname (h _ (declared?_eq_some_iff.2 hm) _ (declared?_eq_some_iff.2 hn) rfl)
    · rintro h ⟨name, value⟩ hm ⟨_, other⟩ hn rfl
      by_contra hname
      exact h name ⟨hname, value, declared?_eq_some_iff.1 hm⟩
        ⟨hname, other, declared?_eq_some_iff.1 hn⟩)

instance : Decidable (NoRedeclaration source root) :=
  inferInstanceAs (Decidable (root.preorder.Pairwise _))

instance : Std.Symm (Apart source) where
  symm _ _ h name hn hm := h name hm hn

theorem get?_record_record (h : Apart source m n) (hm : Records source m name)
    (table : Bindings) :
    (Bindings.record source (Bindings.record source table m) n).get? name =
      (Bindings.record source (Bindings.record source table n) m).get? name := by
  rw [get?_record_of_not_records (h name hm)]
  obtain ⟨hname, value, hd⟩ := hm
  rw [get?_record_of_declares hd hname, get?_record_of_declares hd hname]

theorem record_comm (h : Apart source m n) (table : Bindings) :
    Bindings.record source (Bindings.record source table m) n =
      Bindings.record source (Bindings.record source table n) m := by
  refine Dictionary.eq_of_get?_eq fun name => ?_
  by_cases hm : Records source m name
  · exact get?_record_record h hm table
  · by_cases hn : Records source n name
    · exact (get?_record_record (symm h) hn table).symm
    · rw [get?_record_of_not_records hn, get?_record_of_not_records hm,
        get?_record_of_not_records hm, get?_record_of_not_records hn]

/-- Nodes that do not touch each other's names can be recorded in any order. -/
theorem foldl_record_perm (hapart : ns.Pairwise (Apart source)) (h : ns.Perm ms)
    (table : Bindings) :
    ns.foldl (Bindings.record source) table = ms.foldl (Bindings.record source) table := by
  refine h.foldl_eq' ?_ table
  intro m hm n hn table
  by_cases heq : m = n
  · rw [heq]
  · exact record_comm (hapart.forall hm hn heq) table

/-- Statements that come in another order leave the same table. -/
theorem collect_eq_foldl_of_perm (hroot : IsTop root) (hunique : NoRedeclaration source root)
    {order : List Node} (horder : order.Perm root.children) :
    Bindings.collect source root =
      (preorderAll order).foldl (Bindings.record source) .empty := by
  have hstatements : (preorderAll root.children).Pairwise (Apart source) := by
    rw [NoRedeclaration, preorder_eq] at hunique
    exact (List.pairwise_cons.1 hunique).2
  have hnodes : (preorderAll root.children).Perm (preorderAll order) := by
    rw [preorderAll_eq_flatMap, preorderAll_eq_flatMap]
    exact horder.symm.flatMap_right preorder
  rw [hroot.collect_eq, foldl_record_perm hstatements hnodes]

end Orders

section Reports

variable {order : List Node}

/-- The calls in some statements that are vulnerable by the table of a tree. -/
def vulnerableIn (source : String) (root : Node) (statements : List Node) : List Node :=
  (preorderAll statements).filter fun n => IsVulnerable (Bindings.collect source root) source n

theorem vulnerableIn_perm (hroot : IsTop root) (horder : order.Perm root.children) :
    (vulnerableIn source root order).Perm (injections source root) := by
  rw [hroot.injections_eq, vulnerableIn, preorderAll_eq_flatMap, preorderAll_eq_flatMap]
  exact (horder.flatMap_right preorder).filter _

/-- The verdicts stay, and the report follows the new order. -/
theorem injections_of_perm (hroot : IsTop root) (hroot' : IsTop root')
    (hunique : NoRedeclaration source root) (hperm : root'.children.Perm root.children) :
    injections source root' = vulnerableIn source root root'.children := by
  rw [hroot'.injections_eq, vulnerableIn, hroot'.collect_eq,
    collect_eq_foldl_of_perm hroot hunique hperm]

/-- If no name is declared twice, the statements of a program may come in any order: the calls that
are reported stay the same, and they are reported as they follow each other. This holds of the tree
with its statements in another order, and of a text that has these statements in another order. -/
theorem injections_flow_insensitive (hroot : IsTop root) (hunique : NoRedeclaration source root) :
    (∀ root', IsTop root' → root'.children.Perm root.children →
      injections source root' = vulnerableIn source root root'.children ∧
      (injections source root').Perm (injections source root) ∧
      ∀ config file, sqlInjection.run config source file root' =
        (injections source root').map fun call =>
          sqlInjection.report config source file ⟨call, message, some suggestion⟩) ∧
    ∀ source' root' order, IsTop root' → order.Perm root.children →
      readAllAs source source' order root'.children = true →
      (vulnerableIn source root order).Perm (injections source root) ∧
      readAllAs source source' (vulnerableIn source root order) (injections source' root') =
        true := by
  refine ⟨fun root' hroot' hperm => ?_, fun source' root' order hroot' horder hmoved => ?_⟩
  · have hsame := injections_of_perm hroot hroot' hunique hperm
    exact ⟨hsame, hsame ▸ vulnerableIn_perm hroot hperm,
      fun config file => sqlInjection_run_eq_map config source file root'⟩
  · have hreordered := injections_of_perm hroot (hroot.withChildren order) hunique
      (by simpa using horder)
    have hreads := forall₂_injections (keepsReading_readsAs source source')
      (hroot.withChildren order) hroot' (by simpa using readAllAs_iff.1 hmoved)
    rw [hreordered, children_withChildren] at hreads
    exact ⟨vulnerableIn_perm hroot horder, readAllAs_iff.2 hreads⟩

/-- A name that is declared after its use, and the same statements the other way round. -/
def useFirst : String := "db.query(q);var q=a+b;"

def declaredFirst : String := "var q=a+b;db.query(q);"

theorem injections_flow_insensitive_useFirst :
    let root := Script.parse useFirst
    let root' := Script.parse declaredFirst
    let order := root.children.reverse
    IsTop root ∧ IsTop root' ∧ NoRedeclaration useFirst root ∧
    (injections useFirst (root.withChildren order)).Perm (injections useFirst root) ∧
    readAllAs useFirst declaredFirst order root'.children = true ∧
    readAllAs useFirst declaredFirst (vulnerableIn useFirst root order)
      (injections declaredFirst root') = true ∧
    (injections declaredFirst root').map (Node.text declaredFirst) = ["db.query(q)"] := by
  have hscripts : NoRedeclaration useFirst (Script.parse useFirst) ∧
      readAllAs useFirst declaredFirst (Script.parse useFirst).children.reverse
        (Script.parse declaredFirst).children = true ∧
      (injections declaredFirst (Script.parse declaredFirst)).map (Node.text declaredFirst) =
        ["db.query(q)"] := by
    decide +kernel
  obtain ⟨hunique, hmoved, hreport⟩ := hscripts
  have htop := isTop_parse useFirst
  have htop' := isTop_parse declaredFirst
  have horder := List.reverse_perm (Script.parse useFirst).children
  have hreversed := (injections_flow_insensitive htop hunique).1 _
    (htop.withChildren (Script.parse useFirst).children.reverse) (by simp)
  have hsame := (injections_flow_insensitive htop hunique).2 declaredFirst _ _ htop' horder hmoved
  exact ⟨htop, htop', hunique, hreversed.2.1, hmoved, hsame.2, hreport⟩

end Reports

end InjectionScan.Taint
