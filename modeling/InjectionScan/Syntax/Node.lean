import InjectionScan.Syntax.Kind

/-! Syntax trees. -/
namespace InjectionScan.Syntax

/-- The part a child plays for its parent, where the parent's rule names one. -/
inductive Role where
  | name
  | value
  | left
  | right
  | function
  | arguments
  | object
  | property
deriving DecidableEq, Repr

/-- Offsets are in bytes, and `stop` is the first byte after the node. -/
inductive Node where
  | node (kind : Kind) (role : Option Role) (start stop : Nat) (children : List Node)
deriving Repr

namespace Node

def kind : Node → Kind
  | node k _ _ _ _ => k

def role : Node → Option Role
  | node _ r _ _ _ => r

def start : Node → Nat
  | node _ _ s _ _ => s

def stop : Node → Nat
  | node _ _ _ e _ => e

def children : Node → List Node
  | node _ _ _ _ cs => cs

def hasRule (n : Node) (r : Rule) : Bool :=
  n.kind == .rule r

def isNamed (n : Node) : Bool :=
  n.kind.isNamed

def isComment (n : Node) : Bool :=
  n.kind.isComment

/-- The first child that plays the role. -/
def child? (n : Node) (r : Role) : Option Node :=
  n.children.find? fun c => c.role == some r

def namedChildren (n : Node) : List Node :=
  n.children.filter isNamed

def withRole (r : Option Role) : Node → Node
  | node k _ s e cs => node k r s e cs

def withKind (k : Kind) : Node → Node
  | node _ r s e cs => node k r s e cs

mutual

/-- The number of nodes in the subtree. -/
def size : Node → Nat
  | node _ _ _ _ cs => sizeAll cs + 1

def sizeAll : List Node → Nat
  | [] => 0
  | n :: ns => n.size + sizeAll ns

end

mutual

/-- The node, then the walks of its children from left to right. -/
def preorder : Node → List Node
  | node k r s e cs => node k r s e cs :: preorderAll cs

def preorderAll : List Node → List Node
  | [] => []
  | n :: ns => n.preorder ++ preorderAll ns

end

theorem sizeAll_append (ms ns : List Node) : sizeAll (ms ++ ns) = sizeAll ms + sizeAll ns := by
  induction ms with
  | nil => simp [sizeAll]
  | cons m ms ih => simp only [List.cons_append, sizeAll, ih]; omega

theorem size_eq (n : Node) : n.size = sizeAll n.children + 1 := by
  cases n
  simp [size, children]

end Node

end InjectionScan.Syntax
