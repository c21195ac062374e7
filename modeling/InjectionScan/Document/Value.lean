import InjectionScan.Decimal

/-! Values of structured documents, whatever the notation that they are written in. -/
namespace InjectionScan

inductive Document where
  | null
  | bool (b : Bool)
  | integer (n : Int)
  | decimal (d : Decimal)
  | string (s : String)
  /-- A date, a time of day, or both, as it is written. -/
  | stamp (text : String)
  | array (items : List Document)
  | object (fields : List (String × Document))
deriving Repr

namespace Document

/-- The value of a key; of equal keys the first. -/
def get? (key : String) : Document → Option Document
  | object fields => fields.lookup key
  | _ => none

def nat (n : Nat) : Document := integer n

def strings (xs : List String) : Document := array (xs.map string)

end Document

end InjectionScan
