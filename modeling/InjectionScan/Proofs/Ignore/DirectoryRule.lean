import InjectionScan.Discovery
import InjectionScan.Proofs.Text.ByteOrder

/-! The rule of a pattern that names a directory fits only from the place of the search on. -/
namespace InjectionScan.Ignore

section Parsing

variable {cs : List Char} {d : Draft}

/-- A character that stands for itself in a pattern. -/
def isLiteral (c : Char) : Bool :=
  c != '/' && c != '*' && c != '?' && c != '[' && c != '\x7b' && c != '\x7d' && c != '\\'

theorem bytesOf_eq (c : Char) : bytesOf c = String.utf8EncodeChar c := by
  rw [bytesOf, Text.toList_toUTF8, String.toList_ofList]
  simp [Text.bytesOf]

/-- The draft after some literal characters. -/
def Draft.pushAll (d : Draft) (cs : List Char) : Draft :=
  { d with current := ((Text.bytesOf cs).map Token.byte).reverse ++ d.current }

theorem Draft.pushAll_pushChar (d : Draft) (c : Char) (cs : List Char) :
    (d.pushChar c).pushAll cs = d.pushAll (c :: cs) := by
  simp [pushAll, pushChar, bytesOf_eq, Text.bytesOf_cons]

/-- Outside of groups literal characters, a slash or a comma are read as they are. -/
theorem parseFrom_cons {c : Char} (hc : isLiteral c = true ∨ c = '/') (hgroups : d.groups = [])
    (fuel : Nat) (lenient sets : Bool) (last : Option Char) (cs : List Char) :
    parseFrom (fuel + 1) lenient sets last d (c :: cs) =
      parseFrom fuel lenient sets (some c) (d.pushChar c) cs := by
  have hne : c ≠ '*' ∧ c ≠ '?' ∧ c ≠ '[' ∧ c ≠ '\x7b' ∧ c ≠ '\x7d' ∧ c ≠ '\\' := by
    rcases hc with hc | rfl
    · simp_all [isLiteral]
    · decide
  obtain ⟨hstar, hmark, hbracket, hopen, hclose, hslash⟩ := hne
  by_cases hcomma : c = ','
  · simp [parseFrom, hcomma, Draft.nextBranch, hgroups]
  · simp [parseFrom, hstar, hmark, hbracket, hopen, hclose, hslash, hcomma]

theorem parseFrom_append (h : ∀ c ∈ cs, isLiteral c = true) (hgroups : d.groups = [])
    (fuel : Nat) (lenient sets : Bool) (last : Option Char) (rest : List Char) :
    ∃ last', parseFrom (cs.length + fuel) lenient sets last d (cs ++ rest) =
      parseFrom fuel lenient sets last' (d.pushAll cs) rest := by
  induction cs generalizing d last with
  | nil => exact ⟨last, by simp [Draft.pushAll, Text.bytesOf]⟩
  | cons c cs ih =>
    obtain ⟨last', hrest⟩ := ih (fun x hx => h x (List.mem_cons_of_mem _ hx))
      (show (d.pushChar c).groups = [] from hgroups) (some c)
    refine ⟨last', ?_⟩
    rw [List.length_cons, Nat.succ_add, List.cons_append,
      parseFrom_cons (.inl (h c List.mem_cons_self)) hgroups, hrest, Draft.pushAll_pushChar]

/-- The parts of the pattern for all below a directory. -/
def belowGlob (cs : List Char) : List Token :=
  (Text.bytesOf cs).map Token.byte ++ [.innerDirectories, .anyBytes]

/-- After a slash, two stars and another slash stand for directories on the way. -/
theorem parseFrom_below (hgroups : d.groups = []) (lenient sets : Bool) (last : Option Char) :
    parseFrom 6 lenient sets last d ['/', '*', '*', '/', '*'] =
      .ok { d with current := .anyBytes :: .innerDirectories :: d.current } := by
  have hslash : d.pushChar '/' = { d with current := .byte slash :: d.current } := by
    simp [Draft.pushChar, bytesOf_eq]
    rfl
  rw [parseFrom_cons (.inr rfl) hgroups, hslash]
  rfl

theorem parseGlob_below (h : ∀ c ∈ cs, isLiteral c = true) (lenient : Bool) :
    parseGlob lenient (cs ++ ['/', '*', '*', '/', '*']) = .ok (belowGlob cs) := by
  obtain ⟨last, hread⟩ := parseFrom_append h (show ({} : Draft).groups = [] from rfl) 6 lenient true
    none ['/', '*', '*', '/', '*']
  have hgroups : (({} : Draft).pushAll cs).groups = [] := rfl
  rw [parseGlob, show (cs ++ ['/', '*', '*', '/', '*']).length + 1 = cs.length + 6 by simp, hread,
    parseFrom_below hgroups]
  simp [Draft.pushAll, belowGlob]

end Parsing

section Matching

theorem fitsAll_anyBytes_cons {b : UInt8} (h : b ≠ slash) (bytes : List UInt8) :
    fitsAll List.isEmpty (b :: bytes) [.anyBytes] = fitsAll List.isEmpty bytes [.anyBytes] := by
  simp [fitsAll, fits, segmentEnds, h]

/-- A path always ends in a segment, whatever directories lead to it. -/
theorem fitsAll_anywhere (bytes : List UInt8) :
    (fitsAll List.isEmpty bytes [.anyBytes] ||
      (afterSlashes bytes).any fun rest => fitsAll List.isEmpty rest [.anyBytes]) = true := by
  induction bytes with
  | nil => simp [fitsAll, fits, segmentEnds]
  | cons b bytes ih =>
    by_cases hb : b = slash
    · rw [afterSlashes, if_pos hb, List.any_cons, ih, Bool.or_true]
    · rw [afterSlashes, if_neg hb, fitsAll_anyBytes_cons hb]
      exact ih

theorem fitsAll_bytes (accept : List UInt8 → Bool) (xs : List UInt8) (ts : List Token)
    (bytes : List UInt8) :
    fitsAll accept bytes (xs.map Token.byte ++ ts) = true ↔
      ∃ rest, bytes = xs ++ rest ∧ fitsAll accept rest ts = true := by
  induction xs generalizing bytes with
  | nil => simp
  | cons x xs ih =>
    rw [List.map_cons, List.cons_append, fitsAll]
    cases bytes with
    | nil => simp [fits]
    | cons b bytes =>
      simp only [fits, Bool.and_eq_true, beq_iff_eq, ih, List.cons_append, List.cons.injEq]
      constructor
      · rintro ⟨rfl, rest, rfl, hrest⟩
        exact ⟨rest, ⟨rfl, rfl⟩, hrest⟩
      · rintro ⟨rest, ⟨rfl, rfl⟩, hrest⟩
        exact ⟨rfl, rest, rfl, hrest⟩

theorem fitsAll_below_iff (bytes : List UInt8) :
    fitsAll List.isEmpty bytes [.innerDirectories, .anyBytes] = true ↔
      ∃ rest, bytes = slash :: rest := by
  rw [fitsAll]
  cases bytes with
  | nil => simp [fits]
  | cons b bytes => simp [fits, fitsAll_anywhere]

theorem matchesPath_belowGlob (cs : List Char) (path : String) :
    matchesPath (belowGlob cs) path = true ↔ cs ++ ['/'] <+: path.toList := by
  have hslash : Text.bytesOf ['/'] = [slash] := by decide
  have hmatch : matchesPath (belowGlob cs) path =
      fitsAll List.isEmpty path.toUTF8.toList (belowGlob cs) := by
    rw [matchesPath]
    · rfl
    · intro h
      simpa [belowGlob] using congrArg List.length h
  rw [hmatch, belowGlob, fitsAll_bytes, ← Text.bytesOf_prefix_iff, Text.bytesOf_append, hslash,
    Text.toList_toUTF8]
  simp only [fitsAll_below_iff]
  constructor
  · rintro ⟨_, hpath, rest, rfl⟩
    exact ⟨rest, by simp [hpath]⟩
  · rintro ⟨rest, hpath⟩
    exact ⟨slash :: rest, by simp [← hpath], rest, rfl⟩

end Matching

section Lines

/-- A name without slashes and without characters that have a meaning in patterns. -/
structure IsDirectoryName (d : String) : Prop where
  nonempty : d.toList ≠ []
  literal : ∀ c ∈ d.toList, isLiteral c = true

/-- The rule for all that is below a directory at the place of the search. -/
def Rule.below (d : String) : Rule := ⟨belowGlob d.toList, true, false⟩

theorem anchor_exception {c : Char} (h : c ≠ '/') (cs : List Char) :
    Rule.anchor ('!' :: c :: cs) = (true, false, c :: cs) := by
  simp [Rule.anchor, h]

/-- The slash that stands inside the line ties the pattern to the place of the search. -/
theorem ofLine_directory {d : String} (h : IsDirectoryName d) (lenient : Bool) :
    Rule.ofLine lenient (Discovery.patternLine (d ++ "/")) = .ok (some (Rule.below d)) := by
  have hline : Discovery.patternLine (d ++ "/") = '!' :: (d.toList ++ ['/', '*', '*']) := by
    simp [Discovery.patternLine]
  have htrim : Rule.trimLine ('!' :: (d.toList ++ ['/', '*', '*'])) =
      '!' :: (d.toList ++ ['/', '*', '*']) := by
    have hblank : Text.isBlank '*' = false := by decide
    simp [Rule.trimLine, Text.trimEnd, Text.dropEnd, hblank]
  have hanchor : Rule.anchor ('!' :: (d.toList ++ ['/', '*', '*'])) =
      (true, false, d.toList ++ ['/', '*', '*']) := by
    obtain ⟨c, cs, hcs⟩ := List.exists_cons_of_ne_nil h.nonempty
    have hc : c ≠ '/' := by
      rintro rfl
      cases h.literal '/' (by simp [hcs])
    rw [hcs]
    exact anchor_exception hc _
  have hpattern : Rule.onlyBelow (Rule.atAnyDepth false (d.toList ++ ['/', '*', '*'])) =
      d.toList ++ ['/', '*', '*', '/', '*'] := by
    simp [Rule.onlyBelow, Rule.atAnyDepth]
  have hdirectory : Rule.dropLastSlash (d.toList ++ ['/', '*', '*']) =
      (false, d.toList ++ ['/', '*', '*']) := by
    simp [Rule.dropLastSlash]
  simp [hline, Rule.ofLine, htrim, hanchor, hdirectory, hpattern, parseGlob_below h.literal,
    Rule.below]

end Lines

end InjectionScan.Ignore
