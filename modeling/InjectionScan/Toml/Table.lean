import InjectionScan.Document.Value

/-! Tables while a TOML text is read; how a table was made says what may be added to it. -/
namespace InjectionScan.Toml

inductive Item where
  | value (d : Document)
  /-- `implicit` if no header of its own was read, `dotted` if a dotted key made it. -/
  | table (implicit dotted : Bool) (entries : List (String × Item))
  /-- The tables of an array, each made by a header. -/
  | tables (elements : List Item)

namespace Item

/-- A table with a header. -/
def fresh : Item := table false false []

/-- Puts an item in place of the entry of that name, or at the end. -/
def setEntry (name : String) (item : Item) : List (String × Item) → List (String × Item)
  | [] => [(name, item)]
  | e :: es => if e.1 == name then (name, item) :: es else e :: setEntry name item es

/-- Changes the table at the end of a path. Tables on the way are made where there are none, and of
an array the last table counts. A dotted key cannot go through a table that has a header. -/
def descend {α : Type} (dotted : Bool) (change : Item → Option (Item × α)) :
    List String → Item → Option (Item × α)
  | [], t => change t
  | name :: path, table implicit byDots entries =>
    match entries.lookup name with
    | none =>
      (descend dotted change path (table true dotted [])).map fun (new, a) =>
        (table implicit byDots (entries ++ [(name, new)]), a)
    | some (value _) => none
    | some (tables elements) =>
      match elements.getLast? with
      | none => none
      | some last =>
        (descend dotted change path last).map fun (new, a) =>
          (table implicit byDots (setEntry name (tables (elements.dropLast ++ [new])) entries), a)
    | some (table i d es) =>
      if dotted && !i then none
      else
        (descend dotted change path (table i d es)).map fun (new, a) =>
          (table implicit byDots (setEntry name new entries), a)
  | _ :: _, _ => none

/-- Adds a new entry. Plain and dotted keys do not mix in one table. -/
def addEntry (plain : Bool) (name : String) (d : Document) : Item → Option (Item × Unit)
  | table implicit dotted entries =>
    if dotted == plain || (entries.lookup name).isSome then none
    else some (table implicit dotted (entries ++ [(name, value d)]), ())
  | _ => none

/-- Adds the value of a key, which may have dots. -/
def addKey (key : List String) (d : Document) (t : Item) : Option Item :=
  match key.getLast? with
  | none => none
  | some name =>
    let path := key.dropLast
    (t.descend true (addEntry path.isEmpty name d) path).map Prod.fst

/-- Takes a table out of its parent to be filled under its header; only one without a header of its
own can be there. -/
def takeTable (name : String) : Item → Option (Item × Item)
  | table implicit dotted entries =>
    match entries.lookup name with
    | none => some (table implicit dotted entries, fresh)
    | some (table true false es) =>
      some (table implicit dotted (entries.filter fun e => e.1 != name), table false false es)
    | some _ => none
  | _ => none

/-- Puts a table into its parent. -/
def putTable (name : String) (new : Item) : Item → Option (Item × Unit)
  | table implicit dotted entries => some (table implicit dotted (setEntry name new entries), ())
  | _ => none

/-- Makes sure that an array of tables is there. -/
def openArray (name : String) : Item → Option (Item × Unit)
  | table implicit dotted entries =>
    match entries.lookup name with
    | none => some (table implicit dotted (entries ++ [(name, tables [])]), ())
    | some (tables _) => some (table implicit dotted entries, ())
    | some _ => none
  | _ => none

/-- Adds a table to an array of tables. -/
def pushTable (name : String) (new : Item) : Item → Option (Item × Unit)
  | table implicit dotted entries =>
    match entries.lookup name with
    | none => some (table implicit dotted (entries ++ [(name, tables [new])]), ())
    | some (tables elements) =>
      some (table implicit dotted (setEntry name (tables (elements ++ [new])) entries), ())
    | some _ => none
  | _ => none

mutual

def toDocument : Item → Document
  | value d => d
  | table _ _ entries => .object (entryDocuments entries)
  | tables elements => .array (elementDocuments elements)

def entryDocuments : List (String × Item) → List (String × Document)
  | [] => []
  | (name, item) :: entries => (name, toDocument item) :: entryDocuments entries

def elementDocuments : List Item → List Document
  | [] => []
  | item :: items => toDocument item :: elementDocuments items

end

end Item

/-- The table that a header opened, where it belongs, and all that came before. -/
structure Draft where
  root : Item := .fresh
  current : Item := .fresh
  /-- Empty before the first header. -/
  path : List String := []
  isArray : Bool := false

namespace Draft

/-- Puts the open table where it belongs. -/
def close (d : Draft) : Option Item :=
  match d.path.getLast? with
  | none => some d.current
  | some name =>
    let change := if d.isArray then Item.pushTable name d.current else Item.putTable name d.current
    (d.root.descend false change d.path.dropLast).map Prod.fst

/-- Opens a table under a header. -/
def openTable (d : Draft) (path : List String) : Option Draft := do
  let root ← d.close
  let name ← path.getLast?
  let (root, current) ← root.descend false (Item.takeTable name) path.dropLast
  return { root, current, path, isArray := false }

/-- Opens the next table of an array under a header. -/
def openElement (d : Draft) (path : List String) : Option Draft := do
  let root ← d.close
  let name ← path.getLast?
  let (root, _) ← root.descend false (Item.openArray name) path.dropLast
  return { root, current := .fresh, path, isArray := true }

def addKey (d : Draft) (key : List String) (value : Document) : Option Draft :=
  (d.current.addKey key value).map fun current => { d with current }

end Draft

end InjectionScan.Toml
