import InjectionScan.Naming

/-! Patterns of ignore rules and their meaning on the bytes of a path. -/
namespace InjectionScan.Ignore

/-- Why a text is no pattern. -/
inductive GlobError where
  | unclosedSet
  | emptyRange (first last : Char)
  | unopenedGroup
  | unclosedGroup
  | danglingEscape
deriving DecidableEq, Repr

def GlobError.message : GlobError → String
  | unclosedSet => "unclosed character class; missing ']'"
  | emptyRange first last =>
    "invalid range; '" ++ String.ofList [first] ++ "' > '" ++ String.ofList [last] ++ "'"
  | unopenedGroup =>
    "unopened alternate group; missing '\x7b' (maybe escape '\x7d' with '[\x7d]'?)"
  | unclosedGroup =>
    "unclosed alternate group; missing '\x7d' (maybe escape '\x7b' with '[\x7b]'?)"
  | danglingEscape => "dangling '\\'"

/-- A part of a pattern. -/
inductive Token where
  | byte (b : UInt8)
  /-- One byte of a segment. -/
  | anyByte
  /-- Any bytes of a segment. -/
  | anyBytes
  /-- Any directories at the front. -/
  | leadingDirectories
  /-- A slash and all that follows. -/
  | allBelow
  /-- A slash, or a slash, any directories and a slash. -/
  | innerDirectories
  | oneOf (negated : Bool) (ranges : List (UInt8 × UInt8))
  | alternatives (branches : List (List Token))

def bytesOf (c : Char) : List UInt8 := (String.ofList [c]).toUTF8.toList

def slash : UInt8 := 47

/-- The bytes of a range of characters. Only the last byte of the first character and the first byte
of the last one make a range of bytes. -/
def byteRanges (first last : Char) : List (UInt8 × UInt8) :=
  let single (b : UInt8) : UInt8 × UInt8 := (b, b)
  if first = last then (bytesOf first).map single
  else
    (bytesOf first).dropLast.map single ++
      [((bytesOf first).getLastD 0, (bytesOf last).headD 0)] ++
      (bytesOf last).tail.map single

/-- What was read of a set in brackets. -/
structure SetDraft where
  /-- Last first. -/
  ranges : List (Char × Char) := []
  first : Bool := true
  /-- Whether a dash was read after the last character. -/
  inRange : Bool := false

/-- Reads a set up to its closing bracket; nothing if there is none. -/
def setFrom : SetDraft → List Char → Except GlobError (Option (List (Char × Char) × List Char))
  | _, [] => .ok none
  | d, c :: cs =>
    if c == ']' && !d.first then
      .ok (some ((if d.inRange then ('-', '-') :: d.ranges else d.ranges).reverse, cs))
    else if c == '-' && !d.first && !d.inRange then setFrom { d with inRange := true } cs
    else
      match d.inRange, d.ranges with
      | true, (a, _) :: ranges =>
        if c < a then .error (.emptyRange a c)
        else setFrom { ranges := (a, c) :: ranges, first := false } cs
      | _, ranges => setFrom { ranges := (c, c) :: ranges, first := false } cs

/-- A pattern as far as it was read. -/
structure Draft where
  /-- The branch that is being read, last part first. -/
  current : List Token := []
  /-- The open groups from the inside out: their branches before this one, last first, and what was
  read before the group. -/
  groups : List (List (List Token) × List Token) := []

namespace Draft

def push (d : Draft) (t : Token) : Draft := { d with current := t :: d.current }

def pushChar (d : Draft) (c : Char) : Draft :=
  { d with current := ((bytesOf c).map Token.byte).reverse ++ d.current }

def openGroup (d : Draft) : Draft := ⟨[], ([], d.current) :: d.groups⟩

def nextBranch (d : Draft) : Draft :=
  match d.groups with
  | [] => d.pushChar ','
  | (branches, outer) :: groups => ⟨[], (d.current.reverse :: branches, outer) :: groups⟩

def closeGroup (d : Draft) : Except GlobError Draft :=
  match d.groups with
  | [] => .error .unopenedGroup
  | (branches, outer) :: groups =>
    .ok ⟨.alternatives (d.current.reverse :: branches).reverse :: outer, groups⟩

/-- Puts any directories in place of the slash before them. Any directories at the front or below
stay what they are. -/
def replaceSlash (d : Draft) (t : Token) : Draft :=
  match d.current with
  | .leadingDirectories :: _ => d
  | .allBelow :: _ => d
  | _ :: rest => { d with current := t :: rest }
  | [] => d

/-- Two stars, given the character before them and the text after them. Returns the text that is
left and the last character that was read. -/
def doubleStar (d : Draft) (last : Option Char) (cs : List Char) : Draft × Option Char × List Char :=
  let plain := ((d.push .anyBytes).push .anyBytes, some '*', cs)
  if d.current.isEmpty then
    match cs with
    | [] => (d.push .leadingDirectories, some '*', [])
    | '/' :: rest => (d.push .leadingDirectories, some '/', rest)
    | _ => plain
  else if last != some '/' && (d.groups.isEmpty || (last != some ',' && last != some '{')) then plain
  else
    match cs with
    | [] => (d.replaceSlash .allBelow, some '*', [])
    | '/' :: rest => (d.replaceSlash .innerDirectories, some '/', rest)
    | c :: _ =>
      if !d.groups.isEmpty && (c == ',' || c == '}') then (d.replaceSlash .allBelow, some '*', cs)
      else plain

end Draft

/-- Reads the rest of a pattern. If `lenient`, a bracket that is not closed stands for itself, and so
do all brackets after it. -/
def parseFrom : Nat → Bool → Bool → Option Char → Draft → List Char → Except GlobError Draft
  | 0, _, _, _, d, _ => .ok d
  | _ + 1, _, _, _, d, [] => .ok d
  | fuel + 1, lenient, sets, last, d, c :: cs =>
    if c == '?' then parseFrom fuel lenient sets (some c) (d.push .anyByte) cs
    else if c == '*' then
      match cs with
      | '*' :: cs =>
        let (d, last, cs) := d.doubleStar last cs
        parseFrom fuel lenient sets last d cs
      | cs => parseFrom fuel lenient sets (some c) (d.push .anyBytes) cs
    else if c == '[' && sets then
      let negated := cs.head? == some '!' || cs.head? == some '^'
      match setFrom {} (if negated then cs.drop 1 else cs) with
      | .error e => .error e
      | .ok none =>
        if lenient then parseFrom fuel lenient false (some c) (d.pushChar '[') cs
        else .error .unclosedSet
      | .ok (some (ranges, cs)) =>
        let ranges := ranges.flatMap fun (a, b) => byteRanges a b
        parseFrom fuel lenient sets (some ']') (d.push (.oneOf negated ranges)) cs
    else if c == '{' then parseFrom fuel lenient sets (some c) d.openGroup cs
    else if c == '}' then
      match d.closeGroup with
      | .ok d => parseFrom fuel lenient sets (some c) d cs
      | .error e => .error e
    else if c == ',' then parseFrom fuel lenient sets (some c) d.nextBranch cs
    else if c == '\\' then
      match cs with
      | [] => .error .danglingEscape
      | x :: cs => parseFrom fuel lenient sets (some x) (d.pushChar x) cs
    else parseFrom fuel lenient sets (some c) (d.pushChar c) cs

/-- The pattern of a text. -/
def parseGlob (lenient : Bool) (cs : List Char) : Except GlobError (List Token) :=
  match parseFrom (cs.length + 1) lenient true none {} cs with
  | .error e => .error e
  | .ok d => if d.groups.isEmpty then .ok d.current.reverse else .error .unclosedGroup

/-- A text and all its ends. -/
def ends : List UInt8 → List (List UInt8)
  | [] => [[]]
  | b :: bs => (b :: bs) :: ends bs

/-- What is left after some bytes of the first segment. -/
def segmentEnds : List UInt8 → List (List UInt8)
  | [] => [[]]
  | b :: bs => if b = slash then [b :: bs] else (b :: bs) :: segmentEnds bs

/-- What follows each slash. -/
def afterSlashes : List UInt8 → List (List UInt8)
  | [] => []
  | b :: bs => if b = slash then bs :: afterSlashes bs else afterSlashes bs

mutual

/-- Whether a part holds nothing but empty alternatives. -/
def isVoid : Token → Bool
  | .alternatives branches => areVoid branches
  | _ => false

def allVoid : List Token → Bool
  | [] => true
  | t :: ts => isVoid t && allVoid ts

def areVoid : List (List Token) → Bool
  | [] => true
  | b :: bs => allVoid b && areVoid bs

end

mutual

/-- Whether a part fits some bytes at the front such that the rest is accepted. -/
def fits (accept : List UInt8 → Bool) (bytes : List UInt8) : Token → Bool
  | .byte x =>
    match bytes with
    | b :: bs => b == x && accept bs
    | [] => false
  | .anyByte =>
    match bytes with
    | b :: bs => b != slash && accept bs
    | [] => false
  | .anyBytes => (segmentEnds bytes).any accept
  | .leadingDirectories => accept bytes || (afterSlashes bytes).any accept
  | .allBelow =>
    match bytes with
    | b :: bs => b == slash && (ends bs).any accept
    | [] => false
  | .innerDirectories =>
    match bytes with
    | b :: bs => b == slash && (accept bs || (afterSlashes bs).any accept)
    | [] => false
  | .oneOf negated ranges =>
    match bytes with
    | b :: bs => ((ranges.any fun (lo, hi) => lo ≤ b && b ≤ hi) != negated) && accept bs
    | [] => false
  | .alternatives branches =>
    if areVoid branches then accept bytes else fitsBranch accept bytes branches

def fitsAll (accept : List UInt8 → Bool) (bytes : List UInt8) : List Token → Bool
  | [] => accept bytes
  | t :: ts => fits (fun rest => fitsAll accept rest ts) bytes t

/-- Empty branches do not count. -/
def fitsBranch (accept : List UInt8 → Bool) (bytes : List UInt8) : List (List Token) → Bool
  | [] => false
  | b :: bs => (!allVoid b && fitsAll accept bytes b) || fitsBranch accept bytes bs

end

/-- Whether a pattern fits a whole path. Any directories alone fit everything. -/
def matchesPath [Naming] (glob : List Token) (path : String) : Bool :=
  match glob with
  | [.leadingDirectories] => true
  | glob => fitsAll List.isEmpty (Naming.bytes path) glob

end InjectionScan.Ignore
