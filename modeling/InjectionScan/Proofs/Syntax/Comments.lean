import InjectionScan.Proofs.Syntax.Preorder
import InjectionScan.Syntax.Source

/-! Leaving out the comments of a tree moves nothing else. -/
namespace InjectionScan.Syntax.Node

variable {p : Node → Bool} {n : Node}

mutual

/-- The tree without the nodes below its root that satisfy a test. All others keep their places. -/
def without (p : Node → Bool) : Node → Node
  | node k r s e cs => node k r s e (withoutAll p cs)

def withoutAll (p : Node → Bool) : List Node → List Node
  | [] => []
  | n :: ns => if p n then withoutAll p ns else n.without p :: withoutAll p ns

end

/-- A comment between tokens: a leaf that plays no role for its parent. -/
def isLooseComment (n : Node) : Bool :=
  n.isComment && n.role.isNone && n.children.isEmpty

/-- The tree without its comments, of both kinds. -/
def withoutComments (n : Node) : Node := n.without isLooseComment

theorem hasRule_of_isComment (h : n.isComment) : n.hasRule .comment ∨ n.hasRule .htmlComment := by
  simp only [Node.isComment, Kind.isComment] at h
  split at h
  · next hk => exact .inl (by simp [hasRule, hk])
  · next hk => exact .inr (by simp [hasRule, hk])
  · cases h

section Parts

theorem withoutAll_eq (ns : List Node) :
    withoutAll p ns = (ns.filter fun n => !p n).map (without p) := by
  induction ns with
  | nil => rfl
  | cons n ns ih => by_cases hp : p n <;> simp [withoutAll, hp, ih]

theorem children_without (p : Node → Bool) (n : Node) :
    (n.without p).children = (n.children.filter fun c => !p c).map (without p) := by
  cases n
  exact withoutAll_eq _

@[simp] theorem kind_without (p : Node → Bool) (n : Node) : (n.without p).kind = n.kind := by
  cases n; rfl

@[simp] theorem role_without (p : Node → Bool) (n : Node) : (n.without p).role = n.role := by
  cases n; rfl

@[simp] theorem start_without (p : Node → Bool) (n : Node) : (n.without p).start = n.start := by
  cases n; rfl

@[simp] theorem stop_without (p : Node → Bool) (n : Node) : (n.without p).stop = n.stop := by
  cases n; rfl

@[simp] theorem hasRule_without (p : Node → Bool) (n : Node) (r : Rule) :
    (n.without p).hasRule r = n.hasRule r := by
  simp [hasRule]

@[simp] theorem isNamed_without (p : Node → Bool) (n : Node) :
    (n.without p).isNamed = n.isNamed := by
  simp [isNamed]

@[simp] theorem text_without (p : Node → Bool) (source : String) (n : Node) :
    (n.without p).text source = n.text source := by
  simp [text]

@[simp] theorem position_without (p : Node → Bool) (source : String) (n : Node) :
    (n.without p).position source = n.position source := by
  simp [position]

theorem namedChildren_without (p : Node → Bool) (n : Node) :
    (n.without p).namedChildren = (n.namedChildren.filter fun c => !p c).map (without p) := by
  simp only [namedChildren, children_without, List.filter_map, List.filter_filter,
    Function.comp_def, isNamed_without]
  simp only [Bool.and_comm]

end Parts

/-- A test that only comments between tokens satisfy. -/
structure FindsComments (p : Node → Bool) : Prop where
  isComment : ∀ {n}, p n → n.isComment
  role_eq_none : ∀ {n}, p n → n.role = none
  children_eq_nil : ∀ {n}, p n → n.children = []

theorem findsComments_isLooseComment : FindsComments isLooseComment where
  isComment h := by simp_all [isLooseComment]
  role_eq_none h := by simp_all [isLooseComment]
  children_eq_nil h := by simp_all [isLooseComment]

namespace FindsComments

variable (hp : FindsComments p)

include hp

theorem hasRule_eq_false {r : Rule} (h : p n = true) (hc : (Kind.rule r).isComment = false) :
    n.hasRule r = false := by
  have hcomment : n.isComment = true := hp.isComment h
  cases hr : n.hasRule r with
  | false => rfl
  | true =>
    have hkind : n.kind = .rule r := by simpa [hasRule] using hr
    rw [Node.isComment, hkind, hc] at hcomment
    cases hcomment

/-- A node of a rule for something else is kept. -/
theorem eq_false_of_hasRule {r : Rule} (hr : n.hasRule r) (hc : (Kind.rule r).isComment = false) :
    p n = false := by
  cases h : p n with
  | false => rfl
  | true => rw [hp.hasRule_eq_false h hc] at hr; cases hr

/-- What plays a role is kept, and what comes first in a role stays first. -/
theorem child?_without (n : Node) (r : Role) :
    (n.without p).child? r = (n.child? r).map (without p) := by
  simp only [child?, children_without, List.find?_map, List.find?_filter, Function.comp_def,
    role_without]
  congr 2
  funext c
  cases hc : p c with
  | false => simp [Bool.beq_eq_decide_eq]
  | true => simp [hp.role_eq_none hc]

omit hp

mutual

theorem preorder_without (hp : FindsComments p) (n : Node) :
    (n.without p).preorder =
      (n :: (preorderAll n.children).filter fun m => !p m).map (without p) := by
  cases n with
  | node k r s e cs =>
    rw [List.map_cons, children, ← preorderAll_withoutAll hp cs]
    rfl

/-- A comment has nothing below it, so only the comments themselves are missing from the walk. -/
theorem preorderAll_withoutAll (hp : FindsComments p) (ns : List Node) :
    preorderAll (withoutAll p ns) = ((preorderAll ns).filter fun m => !p m).map (without p) := by
  cases ns with
  | nil => rfl
  | cons n ns =>
    rw [preorderAll, preorder_eq, withoutAll]
    split
    · next h =>
      rw [preorderAll_withoutAll hp ns, hp.children_eq_nil h]
      simp [h, preorderAll]
    · next h =>
      rw [preorderAll, preorder_without hp n, preorderAll_withoutAll hp ns]
      simp [h]

end

include hp

/-- A search for other nodes finds the same without the comments. -/
theorem filterMap_preorder_without {α : Type} {f g : Node → Option α} (n : Node)
    (hf : ∀ m, p m = true → f m = none) (hg : ∀ m, g (m.without p) = f m) :
    (n.without p).preorder.filterMap g = n.preorder.filterMap f := by
  have hkept : ((preorderAll n.children).filter fun m => !p m).filterMap f =
      (preorderAll n.children).filterMap f := by
    rw [List.filterMap_filter]
    congr 1
    funext m
    cases hm : p m with
    | false => rfl
    | true => exact (hf m hm).symm
  have hsame : g ∘ without p = f := funext hg
  rw [hp.preorder_without, preorder_eq, List.filterMap_map, hsame, List.filterMap_cons,
    List.filterMap_cons, hkept]

theorem filter_preorder_without {q : Node → Bool} (n : Node)
    (hq : ∀ m, p m = true → q (m.without p) = false) :
    (n.without p).preorder.filter q =
      (n.preorder.filter fun m => q (m.without p)).map (without p) := by
  have hkept : ((preorderAll n.children).filter fun m => !p m).filter (fun m => q (m.without p)) =
      (preorderAll n.children).filter fun m => q (m.without p) := by
    rw [List.filter_filter]
    refine List.filter_congr fun m _ => ?_
    cases hm : p m with
    | false => simp
    | true => simp [hq m hm]
  rw [hp.preorder_without, preorder_eq, List.filter_map, Function.comp_def, List.filter_cons,
    List.filter_cons, hkept]

end FindsComments

end InjectionScan.Syntax.Node
