import InjectionScan.Proofs.Dictionary.Lookup
import InjectionScan.Proofs.Syntax.Comments
import InjectionScan.Proofs.Taint.Exactness
import InjectionScan.Script.Program

/-! Comments of the common kind change no verdict; one in markup style hides an argument. -/
namespace InjectionScan.Taint

open Syntax Node

variable {p : Node → Bool} {table bare : Bindings} {source : String} {n call argument : Node}

/-- The values of the second table are those of the first one without some nodes. -/
def Strips (p : Node → Bool) (table bare : Bindings) : Prop :=
  ∀ name, bare.get? name = (table.get? name).map (without p)

section Collecting

theorem Strips.bind (h : Strips p table bare) (name : String) (value : Node) :
    Strips p (table.bind name value) (bare.bind name (value.without p)) := by
  intro key
  rw [Bindings.bind, Bindings.bind]
  split
  · exact h key
  · rw [Dictionary.get?_insert, Dictionary.get?_insert]
    split
    · rfl
    · exact h key

theorem Strips.foldl_bind (h : Strips p table bare) (declarations : List (String × Node)) :
    Strips p (declarations.foldl (fun table d => table.bind d.1 d.2) table)
      ((declarations.map (Prod.map id (without p))).foldl (fun table d => table.bind d.1 d.2)
        bare) := by
  induction declarations generalizing table bare with
  | nil => exact h
  | cons d declarations ih => exact ih (h.bind d.1 d.2)

theorem collect_eq_foldl (source : String) (root : Node) :
    Bindings.collect source root =
      (root.preorder.filterMap (Bindings.declared? source)).foldl
        (fun table d => table.bind d.1 d.2) .empty := by
  rw [Bindings.collect, walk_eq_preorder, List.foldl_filterMap]
  congr 1
  funext table n
  cases Bindings.declared? source n <;> rfl

variable (hp : FindsComments p)

include hp

theorem declared?_without (source : String) (n : Node) :
    Bindings.declared? source (n.without p) =
      (Bindings.declared? source n).map (Prod.map id (without p)) := by
  simp only [Bindings.declared?, hasRule_without, hp.child?_without]
  split
  · cases n.child? .name with
    | none => rfl
    | some name =>
      cases n.child? .value with
      | none => rfl
      | some value => by_cases hi : name.hasRule .identifier <;> simp [hi]
  · rfl

/-- The table of a tree without comments has the same names, each with its value less comments. -/
theorem strips_collect (source : String) (root : Node) :
    Strips p (Bindings.collect source root) (Bindings.collect source (root.without p)) := by
  have hnone (m : Node) (hm : p m = true) :
      (Bindings.declared? source m).map (Prod.map id (without p)) = none := by
    have hother : m.hasRule .variableDeclarator = false := hp.hasRule_eq_false hm rfl
    simp [Bindings.declared?, hother]
  rw [collect_eq_foldl, collect_eq_foldl,
    hp.filterMap_preorder_without root hnone (declared?_without hp source), ← List.map_filterMap]
  exact Strips.foldl_bind (fun name => rfl) _

end Collecting

section Evaluating

variable (hp : FindsComments p)

include hp

theorem isOperand_without_iff {o : Node} :
    IsOperand (n.without p) o ↔ ∃ o', IsOperand n o' ∧ o'.without p = o := by
  simp only [IsOperand, hp.child?_without, Option.map_eq_some_iff, or_and_right, exists_or]

/-- Nothing that is tainted is a comment. -/
theorem eq_false_of_tainted (h : Tainted table source n) : p n = false := by
  cases h with
  | bareName hn _ _ => exact hp.eq_false_of_hasRule hn rfl
  | operand hn _ _ => exact hp.eq_false_of_hasRule hn rfl
  | substitution hn _ _ => exact hp.eq_false_of_hasRule hn rfl
  | binding hn _ _ => exact hp.eq_false_of_hasRule hn rfl

theorem Tainted.without (hs : Strips p table bare) (h : Tainted table source n) :
    Tainted bare source (n.without p) := by
  induction h with
  | bareName hn ho hi =>
    exact .bareName (by simpa using hn) ((isOperand_without_iff hp).2 ⟨_, ho, rfl⟩)
      (by simpa using hi)
  | operand hn ho _ ih =>
    exact .operand (by simpa using hn) ((isOperand_without_iff hp).2 ⟨_, ho, rfl⟩) ih
  | @substitution n c hn hc hsub =>
    refine .substitution (c := c.without p) (by simpa using hn) ?_ (by simpa using hsub)
    have hkept : p c = false := hp.eq_false_of_hasRule hsub rfl
    rw [namedChildren_without]
    exact List.mem_map_of_mem (List.mem_filter.2 ⟨hc, by simp [hkept]⟩)
  | binding hn hg _ ih =>
    exact .binding (by simpa using hn) (by rw [text_without, hs, hg]; rfl) ih

theorem Tainted.of_without (hs : Strips p table bare) (h : Tainted bare source (n.without p)) :
    Tainted table source n := by
  -- On the derivation in the bare tree, for every node that is the same without comments.
  generalize hm : n.without p = m at h
  induction h generalizing n with
  | bareName hn ho hi =>
    subst hm
    obtain ⟨o, hoperand, rfl⟩ := (isOperand_without_iff hp).1 ho
    exact .bareName (by simpa using hn) hoperand (by simpa using hi)
  | operand hn ho _ ih =>
    subst hm
    obtain ⟨o, hoperand, hsame⟩ := (isOperand_without_iff hp).1 ho
    exact .operand (by simpa using hn) hoperand (ih hsame)
  | substitution hn hc hsub =>
    subst hm
    rw [namedChildren_without] at hc
    obtain ⟨c, hkept, rfl⟩ := List.mem_map.1 hc
    exact .substitution (by simpa using hn) (List.mem_filter.1 hkept).1 (by simpa using hsub)
  | binding hn hg _ ih =>
    subst hm
    rw [text_without, hs, Option.map_eq_some_iff] at hg
    obtain ⟨value, hg, hsame⟩ := hg
    exact .binding (by simpa using hn) hg (ih hsame)

end Evaluating

section Calls

/-- A call has at most one first argument. -/
theorem IsFirstArgument.eq {a b : Node} (ha : IsFirstArgument call a)
    (hb : IsFirstArgument call b) : a = b := by
  rw [← firstArgument?_eq_some_iff] at ha hb
  exact Option.some.inj (ha.symm.trans hb)

theorem IsFirstArgument.not_comment (h : IsFirstArgument call argument) :
    ¬ argument.hasRule .comment := by
  obtain ⟨_, _, _, _, _, _, _, hcommon⟩ := h
  exact hcommon

variable (hp : FindsComments p)

include hp

theorem callsSink_without_iff : CallsSink source (call.without p) ↔ CallsSink source call := by
  simp only [CallsSink, hp.child?_without, Option.map_eq_some_iff]
  constructor
  · rintro ⟨_, _, ⟨callee, hc, rfl⟩, hr, hproperty, hs⟩
    rw [hp.child?_without, Option.map_eq_some_iff] at hproperty
    obtain ⟨property, hprop, rfl⟩ := hproperty
    exact ⟨callee, property, hc, by simpa using hr, hprop, by simpa using hs⟩
  · rintro ⟨callee, property, hc, hr, hprop, hs⟩
    exact ⟨_, property.without p, ⟨callee, hc, rfl⟩, by simpa using hr,
      by rw [hp.child?_without, hprop]; rfl, by simpa using hs⟩

/-- The arguments that remain are searched as they were, with the comments left out as well. -/
theorem firstArgument?_without (call : Node) :
    firstArgument? (call.without p) = (call.child? .arguments).bind fun arguments =>
      if arguments.hasRule .argumentList then
        (arguments.namedChildren.find? fun n => !p n && !n.hasRule .comment).map (without p)
      else none := by
  simp only [firstArgument?, hp.child?_without, Option.bind_eq_bind, Option.bind_map,
    Function.comp_def, hasRule_without, namedChildren_without, List.find?_map, List.find?_filter]
  simp

/-- An argument that is no comment stays the first one. -/
theorem IsFirstArgument.without (h : IsFirstArgument call argument) (hkept : p argument = false) :
    IsFirstArgument (call.without p) (argument.without p) := by
  obtain ⟨arguments, before, after, ha, hr, hn, hb, hc⟩ := h
  have hfind : (arguments.namedChildren.find? fun n => !p n && !n.hasRule .comment) =
      some argument := by
    refine List.find?_eq_some_iff_append.2 ⟨by simpa [hkept] using hc, before, after, hn, ?_⟩
    intro n hmem
    simp [hb n hmem]
  rw [← firstArgument?_eq_some_iff, firstArgument?_without hp, ha, Option.bind_some, if_pos hr,
    hfind, Option.map_some]

theorem exists_isFirstArgument_of_without (h : IsFirstArgument (call.without p) n) :
    ∃ argument, IsFirstArgument call argument := by
  rw [← firstArgument?_eq_some_iff, firstArgument?_without hp] at h
  obtain ⟨arguments, ha, h⟩ := Option.bind_eq_some_iff.1 h
  split at h
  · next hr =>
    obtain ⟨found, hfound, -⟩ := Option.map_eq_some_iff.1 h
    have hsome : (arguments.namedChildren.find? fun n => !n.hasRule .comment).isSome = true := by
      refine List.find?_isSome.2 ⟨found, List.mem_of_find?_eq_some hfound, ?_⟩
      exact (Bool.and_eq_true _ _ ▸ List.find?_some hfound).2
    obtain ⟨argument, hargument⟩ := Option.isSome_iff_exists.1 hsome
    refine ⟨argument, firstArgument?_eq_some_iff.1 ?_⟩
    simp [firstArgument?, ha, hr, hargument]
  · cases h

/-- Comments change the verdict on a call only where one of them is taken for its argument. -/
theorem isVulnerable_iff_without (hs : Strips p table bare) :
    IsVulnerable table source call ↔
      IsVulnerable bare source (call.without p) ∧
        ¬ ∃ c, IsFirstArgument call c ∧ p c = true := by
  simp only [IsVulnerable, hasRule_without, callsSink_without_iff hp]
  constructor
  · rintro ⟨hcall, hsink, argument, hfirst, ht⟩
    have hkept : p argument = false := eq_false_of_tainted hp ht
    refine ⟨⟨hcall, hsink, _, hfirst.without hp hkept, ht.without hp hs⟩, ?_⟩
    rintro ⟨c, hc, hpc⟩
    rw [hc.eq hfirst, hkept] at hpc
    cases hpc
  · rintro ⟨⟨hcall, hsink, resolved, hresolved, ht⟩, hno⟩
    obtain ⟨argument, hfirst⟩ := exists_isFirstArgument_of_without hp hresolved
    -- The call has a first argument; as it is no comment, the bare call has the same one.
    have hkept : p argument = false := by
      cases hpa : p argument with
      | false => rfl
      | true => exact absurd ⟨argument, hfirst, hpa⟩ hno
    have hsame : resolved = argument.without p := hresolved.eq (hfirst.without hp hkept)
    exact ⟨hcall, hsink, argument, hfirst, Tainted.of_without hp hs (hsame ▸ ht)⟩

/-- The report of a tree less comments, read off the tree with its comments. -/
theorem sqlInjection_run_without (config : Config) (source : String) (file : Path) (root : Node) :
    sqlInjection.run config source file (root.without p) =
      (root.preorder.filter fun call =>
          IsVulnerable (Bindings.collect source (root.without p)) source (call.without p)).map
        fun call => sqlInjection.report config source file ⟨call, message, some suggestion⟩ := by
  have hother (m : Node) (hm : p m = true) :
      decide (IsVulnerable (Bindings.collect source (root.without p)) source (m.without p)) =
        false := by
    have hcall : m.hasRule .callExpression = false := hp.hasRule_eq_false hm rfl
    simp [IsVulnerable, hcall]
  rw [sqlInjection_run_eq_map, injections_eq, hp.filter_preorder_without root hother]
  simp [Analyzer.report, Function.comp_def]

end Calls

/-- What is taken for the first argument is a comment in the style of a page's markup. -/
def TakesMarkupComment (call : Node) : Prop :=
  ∃ c, IsFirstArgument call c ∧ c.isLooseComment ∧ c.hasRule .htmlComment

instance : Decidable (TakesMarkupComment call) :=
  decidable_of_iff
    ((firstArgument? call).any fun c => c.isLooseComment && c.hasRule .htmlComment) (by
      simp [TakesMarkupComment, ← firstArgument?_eq_some_iff, Option.any_eq_true])

/-- A comment between tokens of the common kind, in slashes. -/
def isCommonComment (n : Node) : Bool := n.isLooseComment && n.hasRule .comment

theorem findsComments_isCommonComment : FindsComments isCommonComment where
  isComment h := findsComments_isLooseComment.isComment (by simp_all [isCommonComment])
  role_eq_none h := findsComments_isLooseComment.role_eq_none (by simp_all [isCommonComment])
  children_eq_nil h := findsComments_isLooseComment.children_eq_nil (by simp_all [isCommonComment])

/-- Comments of the common kind are passed over, so only the other kind can be taken. -/
theorem takesMarkupComment_iff :
    TakesMarkupComment call ↔ ∃ c, IsFirstArgument call c ∧ c.isLooseComment = true := by
  constructor
  · rintro ⟨c, hfirst, hloose, -⟩
    exact ⟨c, hfirst, hloose⟩
  · rintro ⟨c, hfirst, hloose⟩
    rcases hasRule_of_isComment (findsComments_isLooseComment.isComment hloose) with hr | hr
    · exact absurd hr hfirst.not_comment
    · exact ⟨c, hfirst, hloose, hr⟩

/-- The calls that are reported once the comments are left out, as they stand in the tree. -/
def bareInjections (source : String) (root : Node) : List Node :=
  root.preorder.filter fun call =>
    IsVulnerable (Bindings.collect source root.withoutComments) source call.withoutComments

theorem injections_eq_filter_bareInjections (source : String) (root : Node) :
    injections source root =
      (bareInjections source root).filter fun call => ¬ TakesMarkupComment call := by
  have hs := strips_collect findsComments_isLooseComment source root
  rw [injections_eq, bareInjections, List.filter_filter]
  refine List.filter_congr fun call _ => ?_
  rw [Bool.eq_iff_iff, decide_eq_true_iff, Bool.and_eq_true, decide_eq_true_iff, decide_eq_true_iff,
    isVulnerable_iff_without findsComments_isLooseComment hs, ← takesMarkupComment_iff, and_comm]
  rfl

/-- Comments of the common kind are passed over wherever they stand. -/
theorem sqlInjection_run_without_common (config : Config) (source : String) (file : Path)
    (root : Node) :
    sqlInjection.run config source file (root.without isCommonComment) =
      sqlInjection.run config source file root := by
  have hs := strips_collect findsComments_isCommonComment source root
  rw [sqlInjection_run_without findsComments_isCommonComment, sqlInjection_run_eq_map,
    injections_eq]
  congr 1
  refine List.filter_congr fun call _ => ?_
  have hnone : ¬ ∃ c, IsFirstArgument call c ∧ isCommonComment c = true := by
    rintro ⟨c, hfirst, hc⟩
    exact hfirst.not_comment (by simp_all [isCommonComment])
  rw [Bool.eq_iff_iff, decide_eq_true_iff, decide_eq_true_iff,
    isVulnerable_iff_without findsComments_isCommonComment hs]
  exact (and_iff_left hnone).symm

/-- Comments of the common kind never change the report. Leaving out both kinds adds the calls, and
only those, where a comment in the style of markup is taken for the first argument; all other
findings stay, in the same order. -/
theorem sqlInjection_run_withoutComments (config : Config) (source : String) (file : Path)
    (root : Node) :
    let report := fun call =>
      sqlInjection.report config source file ⟨call, message, some suggestion⟩
    sqlInjection.run config source file (root.without isCommonComment) =
      sqlInjection.run config source file root ∧
    sqlInjection.run config source file root.withoutComments =
      (bareInjections source root).map report ∧
    sqlInjection.run config source file root =
      ((bareInjections source root).filter fun call => ¬ TakesMarkupComment call).map report ∧
    (sqlInjection.run config source file root.withoutComments =
        sqlInjection.run config source file root ↔
      ∀ call ∈ bareInjections source root, ¬ TakesMarkupComment call) := by
  intro report
  have hbare : sqlInjection.run config source file root.withoutComments =
      (bareInjections source root).map report :=
    sqlInjection_run_without findsComments_isLooseComment config source file root
  have hfull : sqlInjection.run config source file root =
      ((bareInjections source root).filter fun call => ¬ TakesMarkupComment call).map report := by
    rw [sqlInjection_run_eq_map, injections_eq_filter_bareInjections]
  refine ⟨sqlInjection_run_without_common config source file root, hbare, hfull, ?_⟩
  rw [hbare, hfull]
  constructor
  · intro h
    have hlength := congrArg List.length h
    rw [List.length_map, List.length_map, eq_comm, List.length_filter_eq_length_iff] at hlength
    simpa using hlength
  · intro h
    rw [List.filter_eq_self.2 (by simpa using h)]

/-- A call with a comment in the style of markup before its argument, up to the end of the line. -/
def markupBeforeArgument : String := "db.query(<!-- x\n\"a\" + b);\n"

/-- A comment hides a vulnerable call: nothing is reported until the comment is left out. -/
theorem markup_comment_hides_injection :
    sqlInjection.run {} markupBeforeArgument ⟨"app.js"⟩ (Script.parse markupBeforeArgument) = [] ∧
    (sqlInjection.run {} markupBeforeArgument ⟨"app.js"⟩
        (Script.parse markupBeforeArgument).withoutComments).map
      (fun f => (f.rule, f.line, f.column)) = [("sql-injection", 1, 1)] := by
  decide +kernel

end InjectionScan.Taint
