import InjectionScan.Proofs.Syntax.Preorder
import InjectionScan.Proofs.Taint.Derivation
import InjectionScan.Proofs.Text.PhysicalLine
import InjectionScan.Script.Program
import InjectionScan.Taint.Sink
import Mathlib.Data.List.Forall2

/-! Exactly those calls are reported that hand a tainted argument to a sink. -/
namespace InjectionScan.Taint

open Syntax

variable {table : Bindings} {source : String} {call argument : Node}

/-- The call has the form `object.method(…)`, and the method is a sink. -/
def CallsSink (source : String) (call : Node) : Prop :=
  ∃ callee property, call.child? .function = some callee ∧ callee.hasRule .memberExpression ∧
    callee.child? .property = some property ∧ property.text source ∈ sinks

/-- The first argument in parentheses; comments before it are no arguments. -/
def IsFirstArgument (call argument : Node) : Prop :=
  ∃ arguments before after, call.child? .arguments = some arguments ∧
    arguments.hasRule .argumentList ∧ arguments.namedChildren = before ++ argument :: after ∧
    (∀ n ∈ before, n.hasRule .comment) ∧ ¬ argument.hasRule .comment

/-- A call that hands a tainted expression to a sink. -/
def IsVulnerable (table : Bindings) (source : String) (call : Node) : Prop :=
  call.hasRule .callExpression ∧ CallsSink source call ∧
    ∃ argument, IsFirstArgument call argument ∧ Tainted table source argument

theorem calledMethod?_isSink_iff :
    (∃ method, calledMethod? source call = some method ∧ isSink method = true) ↔
      CallsSink source call := by
  simp only [calledMethod?, CallsSink, isSink, List.contains_iff_mem, Option.bind_eq_bind]
  constructor
  · rintro ⟨method, hm, hs⟩
    obtain ⟨callee, hc, hm⟩ := Option.bind_eq_some_iff.1 hm
    split at hm
    · next hr =>
      obtain ⟨property, hp, hm⟩ := Option.bind_eq_some_iff.1 hm
      obtain rfl := Option.some.inj hm
      exact ⟨callee, property, hc, hr, hp, hs⟩
    · simp at hm
  · rintro ⟨callee, property, hc, hr, hp, hs⟩
    exact ⟨property.text source, by simp [hc, hr, hp], hs⟩

theorem firstArgument?_eq_some_iff :
    firstArgument? call = some argument ↔ IsFirstArgument call argument := by
  simp only [firstArgument?, IsFirstArgument, Option.bind_eq_bind]
  constructor
  · intro h
    obtain ⟨arguments, ha, h⟩ := Option.bind_eq_some_iff.1 h
    split at h
    · next hr =>
      obtain ⟨hc, before, after, hn, hb⟩ := List.find?_eq_some_iff_append.1 h
      exact ⟨arguments, before, after, ha, hr, hn, by simpa using hb, by simpa using hc⟩
    · simp at h
  · rintro ⟨arguments, before, after, ha, hr, hn, hb, hc⟩
    simp only [ha, Option.bind_some, hr, if_true]
    exact List.find?_eq_some_iff_append.2 ⟨by simpa using hc, before, after, hn, by simpa using hb⟩

/-- Resolving a name before the evaluation does not change the verdict. -/
theorem tainted_resolved_iff (hn : argument.hasRule .identifier) :
    Tainted table source ((table.get? (argument.text source)).getD argument) ↔
      Tainted table source argument := by
  cases hg : table.get? (argument.text source) with
  | none => rfl
  | some value =>
    constructor
    · exact .binding hn hg
    · intro h
      rw [← taintedAvoiding_nil_iff, taintedAvoiding_name_iff hn] at h
      obtain ⟨-, v, hv, ht⟩ := h
      obtain rfl : value = v := Option.some.inj (hg.symm.trans hv)
      exact ht.tainted

/-- What is evaluated for a call is tainted exactly if the first argument of a sink is. -/
theorem exists_sinkArgument?_iff :
    (∃ resolved, sinkArgument? table source call = some resolved ∧
        Tainted table source resolved) ↔
      CallsSink source call ∧ ∃ argument, IsFirstArgument call argument ∧
        Tainted table source argument := by
  rw [← calledMethod?_isSink_iff]
  simp only [← firstArgument?_eq_some_iff, sinkArgument?, Option.bind_eq_bind]
  constructor
  · rintro ⟨resolved, hs, ht⟩
    obtain ⟨method, hm, hs⟩ := Option.bind_eq_some_iff.1 hs
    split at hs
    · next hsink =>
      obtain ⟨argument, ha, hs⟩ := Option.bind_eq_some_iff.1 hs
      refine ⟨⟨method, hm, hsink⟩, argument, ha, ?_⟩
      split at hs
      · next hn =>
        obtain rfl := Option.some.inj hs
        exact (tainted_resolved_iff hn).1 ht
      · obtain rfl := Option.some.inj hs
        exact ht
    · simp at hs
  · rintro ⟨⟨method, hm, hsink⟩, argument, ha, ht⟩
    simp only [hm, Option.bind_some, hsink, if_true, ha]
    by_cases hn : argument.hasRule .identifier
    · exact ⟨_, by simp [hn], (tainted_resolved_iff hn).2 ht⟩
    · exact ⟨argument, by simp [hn], ht⟩

theorem isInjection_iff :
    isInjection table source call = true ↔ IsVulnerable table source call := by
  rw [IsVulnerable, ← exists_sinkArgument?_iff, isInjection, Bool.and_eq_true]
  cases sinkArgument? table source call with
  | none => simp
  | some resolved => simp [isTainted_iff]

instance : Decidable (IsVulnerable table source call) :=
  decidable_of_iff (isInjection table source call = true) isInjection_iff

theorem injections_eq (source : String) (root : Node) :
    injections source root =
      root.preorder.filter fun n => IsVulnerable (Bindings.collect source root) source n := by
  rw [injections, Node.walk_eq_preorder]
  refine List.filter_congr fun n _ => ?_
  rw [Bool.eq_iff_iff, isInjection_iff, decide_eq_true_iff]

theorem sqlInjection_run_eq_map (config : Config) (source : String) (file : Path) (root : Node) :
    sqlInjection.run config source file root = (injections source root).map fun call =>
      sqlInjection.report config source file ⟨call, message, some suggestion⟩ := by
  simp [Analyzer.run, sqlInjection]

/-- A finding of the rule is at the place where a call starts, its column counted in bytes. -/
structure ReportsCall (config : Config) (source : String) (file : Path) (call : Node)
    (f : Finding) : Prop where
  rule : f.rule = "sql-injection"
  severity : f.severity = (config.rules.severity.get? "sql-injection").getD .critical
  file : f.file = file
  line : f.line = (source.toUTF8.toList.take call.start).count 10 + 1
  column : f.column =
    ((source.toUTF8.toList.take call.start).reverse.takeWhile fun b => b != 10).length + 1

theorem reportsCall_report (config : Config) (source : String) (file : Path) (call : Node) :
    ReportsCall config source file call
      (sqlInjection.report config source file ⟨call, message, some suggestion⟩) where
  rule := rfl
  severity := rfl
  file := rfl
  line := Text.ofOffset_line source call.start
  column := Text.ofOffset_column source call.start

/-- The analyzer reports the vulnerable calls of a tree, each once and in preorder, and nothing
else, whatever the shape of the tree and of its bindings. Each finding is at the place of its
call. -/
theorem sqlInjection_run_eq (config : Config) (source : String) (file : Path) (root : Node) :
    sqlInjection.run config source file root =
      (root.preorder.filter fun n => IsVulnerable (Bindings.collect source root) source n).map
        (fun call => sqlInjection.report config source file ⟨call, message, some suggestion⟩) ∧
    List.Forall₂ (ReportsCall config source file)
      (root.preorder.filter fun n => IsVulnerable (Bindings.collect source root) source n)
      (sqlInjection.run config source file root) := by
  rw [sqlInjection_run_eq_map, injections_eq]
  refine ⟨rfl, List.forall₂_map_right_iff.2 (List.forall₂_same.2 fun call _ => ?_)⟩
  exact reportsCall_report config source file call

/-- A template that reaches the second of two calls through two names. -/
def throughNames : String :=
  "const part = `${x}`;\nconst all = part;\nd.raw('a'); d.raw(/* all */ all);"

theorem sqlInjection_run_eq_throughNames :
    (((Script.parse throughNames).preorder.filter fun n => IsVulnerable
        (Bindings.collect throughNames (Script.parse throughNames)) throughNames n).map fun n =>
      (n.text throughNames, n.start)) = [("d.raw(/* all */ all)", 51)] ∧
    (sqlInjection.run {} throughNames ⟨"a.js"⟩ (Script.parse throughNames)).map
      (fun f => (f.rule, f.severity, f.line, f.column)) = [("sql-injection", .critical, 3, 13)] := by
  obtain ⟨hrun, -⟩ := sqlInjection_run_eq {} throughNames ⟨"a.js"⟩ (Script.parse throughNames)
  rw [hrun]
  decide +kernel

end InjectionScan.Taint
