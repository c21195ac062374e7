import InjectionScan.Toml.Number
import InjectionScan.Toml.Table

/-! Reading TOML documents. The entries of a table stand in the order in which they are written. -/
namespace InjectionScan.Toml

/-- The table of the entries between braces. -/
def inlineTable (entries : List (List String × Document)) : Option Document :=
  (entries.foldlM (fun t (key, d) => Item.addKey key d t) Item.fresh).map Item.toDocument

mutual

/-- A value at a depth of nesting. -/
def value? : Nat → Nat → Reader Document
  | 0, _, _ => none
  | fuel + 1, depth, cs =>
    match cs with
    | '[' :: rest => if depth + 1 < depthLimit then items? fuel (depth + 1) [] rest else none
    | '{' :: rest =>
      if depth + 1 < depthLimit then
        match skipSpaces rest with
        | '}' :: rest => (inlineTable []).map fun d => (d, rest)
        | _ => entries? fuel (depth + 1) [] rest
      else none
    | 't' :: 'r' :: 'u' :: 'e' :: rest => some (.bool true, rest)
    | 'f' :: 'a' :: 'l' :: 's' :: 'e' :: rest => some (.bool false, rest)
    | c :: _ =>
      if c == '"' || c == '\'' then (string? cs).map fun (s, cs) => (.string s, cs)
      else number? cs
    | [] => none

/-- The items of an array after its bracket or a comma; `done` holds those before, last first. -/
def items? : Nat → Nat → List Document → Reader Document
  | 0, _, _, _ => none
  | fuel + 1, depth, done, cs =>
    match skipLines cs.length cs with
    | ']' :: rest => some (.array done.reverse, rest)
    | cs =>
      match value? fuel depth cs with
      | none => none
      | some (d, cs) =>
        match skipLines cs.length cs with
        | ',' :: rest => items? fuel depth (d :: done) rest
        | ']' :: rest => some (.array (d :: done).reverse, rest)
        | _ => none

/-- The entries of a table in braces, after the brace or a comma. -/
def entries? : Nat → Nat → List (List String × Document) → Reader Document
  | 0, _, _, _ => none
  | fuel + 1, depth, done, cs =>
    match key? cs with
    | some (key, '=' :: cs) =>
      match value? fuel depth (skipSpaces cs) with
      | none => none
      | some (d, cs) =>
        match skipSpaces cs with
        | ',' :: rest => entries? fuel depth ((key, d) :: done) rest
        | '}' :: rest => (inlineTable ((key, d) :: done).reverse).map fun d => (d, rest)
        | _ => none
    | _ => none

end

/-- A header of a table or of an element of an array, from its bracket on. -/
def header? (draft : Draft) (cs : List Char) : Option (Draft × List Char) :=
  match cs with
  | '[' :: '[' :: cs =>
    match key? cs with
    | some (path, ']' :: ']' :: cs) => (draft.openElement path).map fun d => (d, cs)
    | _ => none
  | '[' :: cs =>
    match key? cs with
    | some (path, ']' :: cs) => (draft.openTable path).map fun d => (d, cs)
    | _ => none
  | _ => none

/-- A key and its value. -/
def pair? (draft : Draft) (cs : List Char) : Option (Draft × List Char) :=
  match key? cs with
  | some (key, '=' :: cs) =>
    match value? (cs.length + 1) 0 (skipSpaces cs) with
    | some (d, cs) => (draft.addKey key d).map fun draft => (draft, cs)
    | none => none
  | _ => none

/-- The lines of a document. -/
def lines? : Nat → Draft → List Char → Option Draft
  | 0, _, _ => none
  | fuel + 1, draft, cs =>
    match skipSpaces cs with
    | [] => some draft
    | c :: cs =>
      let line :=
        if c == '#' || c == '\n' || c == '\r' then some (draft, c :: cs)
        else if c == '[' then header? draft (c :: cs)
        else pair? draft (c :: cs)
      match line with
      | none => none
      | some (draft, rest) =>
        match lineEnd? rest with
        | some rest => lines? fuel draft rest
        | none => none

/-- A mark that may stand in front of a text. -/
def byteOrderMark : Char := Char.ofNat 0xFEFF

/-- The document of a text, if it is one. -/
def parse? (text : String) : Option Document :=
  let cs := text.toList
  let cs := if cs.head? == some byteOrderMark then cs.drop 1 else cs
  ((lines? (cs.length + 1) {} cs).bind Draft.close).map Item.toDocument

end InjectionScan.Toml
