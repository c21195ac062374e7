import InjectionScan.Syntax.Node

/-! Patterns are read as literals first and turned into patterns once they are known to be. -/
namespace InjectionScan.Script

open InjectionScan.Syntax

/-- Whether an expression can stand before a compound assignment operator. -/
def isPlace (n : Node) : Bool :=
  n.hasRule .identifier || n.hasRule .memberExpression || n.hasRule .subscriptExpression ||
    n.hasRule .parenthesizedExpression

mutual

/-- The pattern that a literal, name or member stands for. -/
def pattern? : Node → Option Node
  | .node (.rule .objectLiteral) r s e cs =>
    (propertyPatterns? cs).map (.node (.rule .objectPattern) r s e)
  | .node (.rule .arrayLiteral) r s e cs =>
    (elementPatterns? cs).map (.node (.rule .arrayPattern) r s e)
  | .node (.rule k) r s e cs =>
    if k = .identifier ∨ k = .undefinedLiteral ∨ k = .memberExpression ∨ k = .subscriptExpression ∨
        k = .objectPattern ∨ k = .arrayPattern then
      some (.node (.rule k) r s e cs)
    else none
  | .node (.token _) _ _ _ _ => none

/-- The pattern of an array element or parameter, which may have a default. -/
def elementPattern? : Node → Option Node
  | .node (.token t) r s e cs => some (.node (.token t) r s e cs)
  | .node (.rule .comment) r s e cs => some (.node (.rule .comment) r s e cs)
  | .node (.rule .htmlComment) r s e cs => some (.node (.rule .htmlComment) r s e cs)
  | .node (.rule .restPattern) r s e cs => some (.node (.rule .restPattern) r s e cs)
  | .node (.rule .spreadElement) r s e cs =>
    (elementPatterns? cs).map (.node (.rule .restPattern) r s e)
  | .node (.rule .assignmentExpression) r s e cs =>
    match cs with
    | target :: _ =>
      if target.hasRule .parenthesizedExpression then none
      else some (.node (.rule .assignmentPattern) r s e cs)
    | [] => none
  | n => pattern? n

def elementPatterns? : List Node → Option (List Node)
  | [] => some []
  | n :: ns => do
    let p ← elementPattern? n
    let ps ← elementPatterns? ns
    return p :: ps

/-- The pattern of a property: a name, a name with a default, a key with a pattern, or the rest. -/
def propertyPattern? : Node → Option Node
  | .node (.token t) r s e cs => some (.node (.token t) r s e cs)
  | .node (.rule .comment) r s e cs => some (.node (.rule .comment) r s e cs)
  | .node (.rule .htmlComment) r s e cs => some (.node (.rule .htmlComment) r s e cs)
  | .node (.rule .shorthandPropertyIdentifier) r s e cs =>
    some (.node (.rule .shorthandPropertyIdentifierPattern) r s e cs)
  | .node (.rule .objectAssignmentPattern) r s e cs =>
    some (.node (.rule .objectAssignmentPattern) r s e cs)
  | .node (.rule .spreadElement) r s e cs =>
    (elementPatterns? cs).map (.node (.rule .restPattern) r s e)
  | .node (.rule .pair) r s e cs =>
    (valuePattern? cs).map (.node (.rule .pairPattern) r s e)
  | _ => none

def propertyPatterns? : List Node → Option (List Node)
  | [] => some []
  | n :: ns => do
    let p ← propertyPattern? n
    let ps ← propertyPatterns? ns
    return p :: ps

/-- Turns the last part of a pair into a pattern. -/
def valuePattern? : List Node → Option (List Node)
  | [] => none
  | [n] => (elementPattern? n).map ([·])
  | n :: ns => (valuePattern? ns).map (n :: ·)

end

/-- A default value stands in patterns only: one that is left in an object is an error. -/
def refuseDefaults (parts : List Node) : List Node :=
  parts.map fun n => if n.hasRule .objectAssignmentPattern then n.withKind (.rule .error) else n

mutual

/-- Marks defaults that were left in object literals. -/
def markDefaults : Node → Node
  | .node k r s e cs =>
    let parts := markDefaultsAll cs
    .node k r s e (if k = .rule .objectLiteral then refuseDefaults parts else parts)

def markDefaultsAll : List Node → List Node
  | [] => []
  | n :: ns => markDefaults n :: markDefaultsAll ns

end

end InjectionScan.Script
