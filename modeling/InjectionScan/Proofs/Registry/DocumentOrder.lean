import InjectionScan.Proofs.Script.Parse
import InjectionScan.Proofs.Syntax.Nesting
import InjectionScan.Registry

/-! An analyzer that walks through a tree reports in document order, and no node twice. -/
namespace InjectionScan

open Syntax

/-! ### Visitors -/

/-- A remark together with the spot of its node. -/
structure Note where
  spot : Spot
  message : String
  suggestion : Option String

def Note.remark (n : Note) : Remark := ⟨n.spot.node, n.message, n.suggestion⟩

/-- An inspection that is done in one walk. It looks at each node in its turn, with what it has learnt
from the nodes before, and reports it or passes on. -/
structure Visitor (σ : Type) where
  initial : σ
  /-- What is known after a visit, and the message and the suggestion for a node that is reported. -/
  visit : σ → Spot → σ × Option (String × Option String)

namespace Visitor

variable {σ : Type} (v : Visitor σ) {root : Node}

/-- One visit; notes are kept with the last one first. -/
def step (seen : σ × List Note) (s : Spot) : σ × List Note :=
  match v.visit seen.1 s with
  | (state, some (message, suggestion)) => (state, ⟨s, message, suggestion⟩ :: seen.2)
  | (state, none) => (state, seen.2)

/-- The notes of a walk through a tree. -/
def notes (root : Node) : List Note :=
  (Spot.walk v.step (v.initial, []) ⟨[], root⟩).2.reverse

/-- The visitor that reports the nodes that pass a test. -/
def ofTest (test : Node → Bool) (message : String) (suggestion : Option String) : Visitor Unit where
  initial := ()
  visit _ s := ((), if test s.node then some (message, suggestion) else none)

/-- A visit makes a note about its own spot, or none. -/
theorem map_spot_step_sublist (seen : σ × List Note) (s : Spot) :
    ((v.step seen s).2.map Note.spot).Sublist (s :: seen.2.map Note.spot) := by
  unfold step
  split
  · exact .refl _
  · exact List.sublist_cons_self _ _

theorem map_spot_foldl_sublist (spots : List Spot) (seen : σ × List Note) :
    ((spots.foldl v.step seen).2.map Note.spot).Sublist (spots.reverse ++ seen.2.map Note.spot) := by
  induction spots generalizing seen with
  | nil => exact .refl _
  | cons s spots ih =>
    rw [List.foldl_cons, List.reverse_cons, List.append_assoc, List.singleton_append]
    exact (ih (v.step seen s)).trans ((v.map_spot_step_sublist seen s).append_left _)

/-- What is reported are some of the spots, in the order of the walk. -/
theorem map_spot_notes_sublist (root : Node) :
    ((v.notes root).map Note.spot).Sublist (root.spots []) := by
  have hsub := (v.map_spot_foldl_sublist (root.spots []) (v.initial, [])).reverse
  rw [List.map_nil, List.append_nil, List.reverse_reverse, ← List.map_reverse] at hsub
  rw [notes, Spot.walk_eq_foldl]
  exact hsub

theorem at?_of_mem_notes {n : Note} (h : n ∈ v.notes root) :
    root.at? n.spot.address = some n.spot.node := by
  have hspot := (v.map_spot_notes_sublist root).subset (List.mem_map_of_mem h)
  obtain ⟨way, haddress, hnode⟩ := (Node.mem_spots_iff root).1 hspot
  rw [haddress, List.append_nil]
  exact hnode

theorem nodup_addresses_notes (root : Node) :
    ((v.notes root).map fun n => n.spot.address).Nodup := by
  have hsub := (v.map_spot_notes_sublist root).map Spot.address
  rw [List.map_map] at hsub
  exact (Node.nodup_addresses_spots [] root).sublist hsub

/-- In a nested tree no node is reported after one that starts later. -/
theorem pairwise_notes (hroot : root.Nested) :
    (v.notes root).Pairwise fun m n => m.spot.node.start ≤ n.spot.node.start := by
  have hreported := (v.map_spot_notes_sublist root).map Spot.node
  rw [Node.map_node_spots] at hreported
  have hforward := (Node.Nested.pairwise_preorder root hroot).1.sublist hreported
  rw [List.pairwise_map, List.pairwise_map] at hforward
  exact hforward

theorem foldl_step_ofTest (test : Node → Bool) (message : String) (suggestion : Option String)
    (spots : List Spot) (seen : Unit × List Note) :
    (spots.foldl (ofTest test message suggestion).step seen).2 =
      ((spots.filter fun s => test s.node).map fun s => ⟨s, message, suggestion⟩).reverse ++
        seen.2 := by
  induction spots generalizing seen with
  | nil => rfl
  | cons s spots ih =>
    rw [List.foldl_cons, ih, List.filter_cons]
    cases htest : test s.node <;> simp [step, ofTest, htest]

/-- A test reports all nodes that pass it. -/
theorem notes_ofTest (test : Node → Bool) (message : String) (suggestion : Option String)
    (root : Node) : (ofTest test message suggestion).notes root =
      ((root.spots []).filter fun s => test s.node).map fun s => ⟨s, message, suggestion⟩ := by
  rw [notes, Spot.walk_eq_foldl, foldl_step_ofTest, List.append_nil, List.reverse_reverse]

theorem map_remark_notes_ofTest (test : Node → Bool) (message : String) (suggestion : Option String)
    (root : Node) : ((ofTest test message suggestion).notes root).map Note.remark =
      (root.walk.filter test).map fun n => ⟨n, message, suggestion⟩ := by
  rw [notes_ofTest, Node.walk_eq_preorder, ← Node.map_node_spots [], List.filter_map, List.map_map,
    List.map_map]
  rfl

end Visitor

/-! ### Analyzers -/

namespace Analyzer

variable {σ : Type} {a : Analyzer} {config : Config} {source : String} {file : Path} {root : Node}

/-- The analyzer reports what a visitor reports; which one may depend on the whole file. -/
def Follows (a : Analyzer) (v : String → Path → Node → Visitor σ) : Prop :=
  ∀ source file root, a.inspect source file root = ((v source file root).notes root).map Note.remark

theorem sqlInjection_follows :
    Taint.sqlInjection.Follows fun source _ root =>
      .ofTest (Taint.isInjection (Taint.Bindings.collect source root) source) Taint.message
        (some Taint.suggestion) :=
  fun _ _ _ => (Visitor.map_remark_notes_ofTest ..).symm

theorem ofKind_follows (name code description message kind : String) (category : Category)
    (severity : Severity) (suggestion : Option String) :
    (ofKind name code description message kind category severity suggestion).Follows fun _ _ _ =>
      .ofTest (fun n => n.kind.name == kind) message suggestion :=
  fun _ _ _ => (Visitor.map_remark_notes_ofTest ..).symm

/-- The findings of an analyzer are reports on nodes of the tree, on no node twice, and their lines and
columns go forward. -/
structure GoesForward (a : Analyzer) (config : Config) (source : String) (file : Path) (root : Node)
    (notes : List Note) : Prop where
  run_eq : a.run config source file root = notes.map fun n => a.report config source file n.remark
  at?_eq : ∀ n ∈ notes, root.at? n.spot.address = some n.spot.node
  nodup : (notes.map fun n => n.spot.address).Nodup
  pairwise : (a.run config source file root).Pairwise fun f g =>
    f.line < g.line ∨ f.line = g.line ∧ f.column ≤ g.column

theorem Follows.goesForward {v : String → Path → Node → Visitor σ} (h : a.Follows v)
    (hroot : root.Nested) (config : Config) (source : String) (file : Path) :
    a.GoesForward config source file root ((v source file root).notes root) := by
  have hrun : a.run config source file root =
      ((v source file root).notes root).map fun n => a.report config source file n.remark := by
    rw [run, h, List.map_map]
    rfl
  refine ⟨hrun, fun n => (v source file root).at?_of_mem_notes, Visitor.nodup_addresses_notes _ root, ?_⟩
  rw [hrun, List.pairwise_map]
  exact (Visitor.pairwise_notes _ hroot).imp fun hle => Position.ofOffset_mono source hle

/-- What an analyzer adds to the findings of a file: nothing, if it is switched off or made for another
language. -/
def contribution (a : Analyzer) (config : Config) (language : Language) (source : String) (file : Path)
    (root : Node) : List Finding :=
  if a.language = language ∧ a.isEnabled config then a.run config source file root else []

end Analyzer

/-! ### Registries -/

namespace Registry

variable {config : Config} {language : Language} {source : String} {file : Path} {root : Node}

/-- How the findings of a file stand. Each of them belongs to a place in the registry; earlier places
come first, and what belongs to a place is what the analyzer there contributes. An analyzer that follows
a visitor reports what that visitor notes, going forward. -/
structure InDocumentOrder (registry : Registry) (config : Config) (language : Language)
    (source : String) (file : Path) (root : Node) (findings : List Finding) : Prop where
  registration : ∃ entries : List (Nat × Finding), findings = entries.map Prod.snd ∧
    entries.Pairwise (fun d e => d.1 ≤ e.1) ∧
    ∀ place, (entries.filter fun e => e.1 == place).map Prod.snd =
      (registry[place]?.map fun a => a.contribution config language source file root).getD []
  forward : ∀ a ∈ registry, ∀ (σ : Type) (v : String → Path → Node → Visitor σ), a.Follows v →
    a.GoesForward config source file root ((v source file root).notes root)

/-- The contributions of analyzers, each finding with the place of its analyzer. -/
def entriesFrom (config : Config) (language : Language) (source : String) (file : Path) (root : Node) :
    Nat → Registry → List (Nat × Finding)
  | _, [] => []
  | place, a :: registry =>
    ((a.contribution config language source file root).map fun f => (place, f)) ++
      entriesFrom config language source file root (place + 1) registry

theorem map_snd_entriesFrom (start : Nat) (registry : Registry) :
    (entriesFrom config language source file root start registry).map Prod.snd =
      registry.analyzeTree config language source file root := by
  induction registry generalizing start with
  | nil => rfl
  | cons a registry ih =>
    rw [entriesFrom, List.map_append, List.map_map, ih, analyzeTree, analyzeTree, List.filter_cons]
    by_cases hruns : a.language = language ∧ a.isEnabled config = true
    · simp [Analyzer.contribution, hruns, Function.comp_def]
    · rw [Analyzer.contribution, if_neg hruns, if_neg (by simpa using hruns)]
      rfl

theorem le_of_mem_entriesFrom {start : Nat} {registry : Registry} {e : Nat × Finding}
    (h : e ∈ entriesFrom config language source file root start registry) : start ≤ e.1 := by
  induction registry generalizing start with
  | nil => cases h
  | cons a registry ih =>
    rcases List.mem_append.1 h with h | h
    · obtain ⟨f, -, rfl⟩ := List.mem_map.1 h
      exact Nat.le_refl start
    · exact Nat.le_of_succ_le (ih h)

theorem pairwise_entriesFrom (start : Nat) (registry : Registry) :
    (entriesFrom config language source file root start registry).Pairwise fun d e => d.1 ≤ e.1 := by
  induction registry generalizing start with
  | nil => exact .nil
  | cons a registry ih =>
    refine List.pairwise_append.2 ⟨?_, ih (start + 1), ?_⟩
    · exact List.pairwise_map.2 (List.pairwise_of_forall fun _ _ => Nat.le_refl start)
    · intro d hd e he
      obtain ⟨f, -, rfl⟩ := List.mem_map.1 hd
      exact Nat.le_of_succ_le (le_of_mem_entriesFrom he)

/-- No entry of one analyzer counts for another. -/
theorem filter_entriesFrom (start place : Nat) (registry : Registry) :
    ((entriesFrom config language source file root start registry).filter
        fun e => e.1 == start + place).map Prod.snd =
      (registry[place]?.map fun a => a.contribution config language source file root).getD [] := by
  induction registry generalizing start place with
  | nil => rfl
  | cons a registry ih =>
    rw [entriesFrom, List.filter_append, List.map_append]
    cases place with
    | zero =>
      have hlater : (entriesFrom config language source file root (start + 1) registry).filter
          (fun e => e.1 == start + 0) = [] := by
        refine List.filter_eq_nil_iff.2 fun e he => ?_
        have hplace := le_of_mem_entriesFrom he
        simp only [beq_iff_eq]
        omega
      rw [hlater]
      simp [List.filter_map, Function.comp_def]
    | succ place =>
      have hfirst : ((a.contribution config language source file root).map fun f => (start, f)).filter
          (fun e => e.1 == start + (place + 1)) = [] := by
        refine List.filter_eq_nil_iff.2 fun e he => ?_
        obtain ⟨f, -, rfl⟩ := List.mem_map.1 he
        simp only [beq_iff_eq]
        omega
      rw [hfirst, ← Nat.add_assoc, Nat.add_right_comm, ih]
      rfl

theorem analyzeTree_inDocumentOrder (registry : Registry) (hroot : root.Nested) :
    registry.InDocumentOrder config language source file root
      (registry.analyzeTree config language source file root) where
  registration := by
    refine ⟨entriesFrom config language source file root 0 registry,
      (map_snd_entriesFrom 0 registry).symm, pairwise_entriesFrom 0 registry, fun place => ?_⟩
    rw [← filter_entriesFrom 0 place registry, Nat.zero_add]
  forward _ _ _ _ hfollows := hfollows.goesForward hroot config source file

/-- Findings come in document order: in every nested tree, and so in the tree of every source text. The
built-in analyzer and the analyzers for a kind of nodes follow visitors. -/
theorem findings_in_document_order (registry : Registry) (config : Config) (language : Language)
    (source : String) (file : Path) :
    (∀ root : Node, root.Nested →
      registry.InDocumentOrder config language source file root
        (registry.analyzeTree config language source file root)) ∧
    (Language.ofPath? file = some language →
      ∃ findings, registry.analyzeSource config source file = .ok findings ∧
        registry.InDocumentOrder config language source file (Script.parse source) findings) ∧
    Taint.sqlInjection.Follows (fun source _ root =>
      .ofTest (Taint.isInjection (Taint.Bindings.collect source root) source) Taint.message
        (some Taint.suggestion)) ∧
    ∀ name code description message kind category severity suggestion,
      (Analyzer.ofKind name code description message kind category severity suggestion).Follows
        fun _ _ _ => .ofTest (fun n => n.kind.name == kind) message suggestion := by
  refine ⟨fun _ hroot => analyzeTree_inDocumentOrder registry hroot, fun hlanguage => ?_,
    Analyzer.sqlInjection_follows, Analyzer.ofKind_follows⟩
  refine ⟨registry.analyzeTree config language source file (Script.parse source), ?_,
    analyzeTree_inDocumentOrder registry (Script.parse_nested source)⟩
  rw [analyzeSource, hlanguage]

def sumsAndCalls : Registry :=
  [Taint.sqlInjection,
    .ofKind "call" "CALL" "Reports calls" "Do not call" "call_expression" .style .info none]

/-- A call on the result of a call starts where that one does, so two nodes are reported at one place. -/
theorem findings_in_document_order_sumsAndCalls :
    Node.callBetweenNames.Nested ∧
    sumsAndCalls.InDocumentOrder {} .javascript "a b(c)" ⟨"a.js"⟩ Node.callBetweenNames
      (sumsAndCalls.analyzeTree {} .javascript "a b(c)" ⟨"a.js"⟩ Node.callBetweenNames) ∧
    Language.ofPath? ⟨"a.js"⟩ = some .javascript ∧
    ∃ findings,
      sumsAndCalls.analyzeSource {} "d.raw(\"s\" + x).f()\ng()" ⟨"a.js"⟩ = .ok findings ∧
      findings.map (fun f => (f.rule, f.line, f.column)) =
        [("sql-injection", 1, 1), ("call", 1, 1), ("call", 1, 1), ("call", 2, 1)] ∧
      sumsAndCalls.InDocumentOrder {} .javascript "d.raw(\"s\" + x).f()\ng()" ⟨"a.js"⟩
        (Script.parse "d.raw(\"s\" + x).f()\ng()") findings := by
  have hroot : Node.callBetweenNames.Nested := by decide
  have hlanguage : Language.ofPath? ⟨"a.js"⟩ = some .javascript := by decide
  obtain ⟨htree, -⟩ := findings_in_document_order sumsAndCalls {} .javascript "a b(c)" ⟨"a.js"⟩
  obtain ⟨-, hsource, -⟩ :=
    findings_in_document_order sumsAndCalls {} .javascript "d.raw(\"s\" + x).f()\ng()" ⟨"a.js"⟩
  obtain ⟨findings, hfindings, horder⟩ := hsource hlanguage
  refine ⟨hroot, htree _ hroot, hlanguage, findings, hfindings, ?_, horder⟩
  have hvalue : (sumsAndCalls.analyzeSource {} "d.raw(\"s\" + x).f()\ng()" ⟨"a.js"⟩).toOption.map
      (List.map fun f => (f.rule, f.line, f.column)) =
        some [("sql-injection", 1, 1), ("call", 1, 1), ("call", 1, 1), ("call", 2, 1)] := by
    decide +kernel
  rw [hfindings] at hvalue
  exact Option.some.inj hvalue

end Registry

end InjectionScan
