import InjectionScan.Json.Printer
import InjectionScan.Json.Reader
import InjectionScan.Proofs.Document.Decoding
import InjectionScan.Proofs.Text.Runs

/-! The text of a document is read back, but for the order of its fields. -/
namespace InjectionScan.Json

section Strings

theorem hexValue?_hexDigit : ∀ n < 16, hexValue? (hexDigit n) = some n := by decide

theorem unit?_hexDigits {n : Nat} (h : n < 256) (cs : List Char) :
    unit? ('0' :: '0' :: hexDigit (n / 16) :: hexDigit (n % 16) :: cs) = some (n, cs) := by
  have hzero : hexValue? '0' = some 0 := by decide
  rw [unit?, hzero, hexValue?_hexDigit _ (by omega), hexValue?_hexDigit _ (by omega)]
  simp only [Option.bind_eq_bind, Option.bind_some, Option.pure_def, Option.some.injEq,
    Prod.mk.injEq, and_true]
  omega

/-- A written character is read in one step. -/
theorem stringTail_escapeChar (fuel : Nat) (done : List Char) (c : Char) (cs : List Char) :
    stringTail (fuel + 1) done (escapeChar c ++ cs) = stringTail fuel (c :: done) cs := by
  by_cases hquote : c = '"'
  · subst hquote
    rfl
  by_cases hslash : c = '\\'
  · subst hslash
    rfl
  by_cases hnewline : c = '\n'
  · subst hnewline
    rfl
  by_cases hreturn : c = '\r'
  · subst hreturn
    rfl
  by_cases htab : c = '\t'
  · subst htab
    rfl
  by_cases hback : c.toNat = 8
  · obtain rfl : c = Char.ofNat 8 := by rw [← hback, Char.ofNat_toNat]
    rfl
  by_cases hfeed : c.toNat = 12
  · obtain rfl : c = Char.ofNat 12 := by rw [← hfeed, Char.ofNat_toNat]
    rfl
  by_cases hlow : c.toNat < 32
  · have hunit : escapedUnit? ('0' :: '0' :: hexDigit (c.toNat / 16) :: hexDigit (c.toNat % 16) ::
        cs) = some (c, cs) := by
      rw [escapedUnit?, unit?_hexDigits (by omega)]
      have hhigh : ¬ 55296 ≤ c.toNat := by omega
      have hlow' : ¬ 56320 ≤ c.toNat := by omega
      simp [hhigh, hlow', Char.ofNat_toNat]
    simp [escapeChar, hquote, hslash, hnewline, hreturn, htab, hback, hfeed, hlow, stringTail, hunit]
  · simp [escapeChar, hquote, hslash, hnewline, hreturn, htab, hback, hfeed, hlow, stringTail]

theorem stringTail_flatMap {cs : List Char} {fuel : Nat} (h : cs.length < fuel)
    (done rest : List Char) :
    stringTail fuel done (cs.flatMap escapeChar ++ '"' :: rest) =
      some (String.ofList (done.reverse ++ cs), rest) := by
  induction cs generalizing fuel done with
  | nil =>
    obtain ⟨fuel, rfl⟩ : ∃ k, fuel = k + 1 := ⟨fuel - 1, by simp at h; omega⟩
    simp [stringTail]
  | cons c cs ih =>
    obtain ⟨fuel, rfl⟩ : ∃ k, fuel = k + 1 := ⟨fuel - 1, by simp at h; omega⟩
    rw [List.flatMap_cons, List.append_assoc, stringTail_escapeChar, ih (by simpa using h)]
    simp

theorem escapeChar_ne_nil (c : Char) : escapeChar c ≠ [] := by
  simp only [escapeChar]
  repeat' split
  all_goals simp

theorem length_le_length_flatMap (cs : List Char) : cs.length ≤ (cs.flatMap escapeChar).length := by
  induction cs with
  | nil => simp
  | cons c cs ih =>
    have hc : 0 < (escapeChar c).length := List.length_pos_iff.2 (escapeChar_ne_nil c)
    rw [List.flatMap_cons, List.length_append, List.length_cons]
    omega

end Strings

section Numbers

/-- Nothing at the front goes on with a number. -/
def EndsNumber (rest : List Char) : Prop :=
  ∀ c ∈ rest.head?, ('0' ≤ c && c ≤ '9') = false ∧ c ≠ '.' ∧ c ≠ 'e' ∧ c ≠ 'E'

theorem natOf_toDigits (n : Nat) : natOf (Nat.toDigits 10 n) = n := by
  have hstep : (fun (k : Nat) (c : Char) => k * 10 + (c.toNat - 48)) =
      fun k c => 10 * k + (c.toNat - '0'.toNat) := by
    funext k c
    rw [Nat.mul_comm]
    rfl
  rw [natOf, hstep, ← Nat.ofDigitChars_eq_foldl, Nat.ofDigitChars_ten_toDigits]

theorem takeWhile_toDigits {rest : List Char} (n : Nat) (h : EndsNumber rest) :
    (Nat.toDigits 10 n ++ rest).takeWhile (fun c => '0' ≤ c && c ≤ '9') = Nat.toDigits 10 n := by
  refine Text.takeWhile_append_of_stop (fun c hc => Text.isDigit_of_mem_toDigits hc) ?_
  exact fun c hc => (h c hc).1

theorem dropWhile_toDigits {rest : List Char} (n : Nat) (h : EndsNumber rest) :
    (Nat.toDigits 10 n ++ rest).dropWhile (fun c => '0' ≤ c && c ≤ '9') = rest := by
  refine Text.dropWhile_append_of_stop (fun c hc => Text.isDigit_of_mem_toDigits hc) ?_
  exact fun c hc => (h c hc).1

theorem exponent?_of_ends {rest : List Char} (h : EndsNumber rest) :
    number?.exponent? rest = some (0, rest, false) := by
  cases rest with
  | nil => rfl
  | cons c rest =>
    obtain ⟨-, -, he, hE⟩ := h c rfl
    simp [number?.exponent?, he, hE]

theorem head?_toDigits_ne_minus (n : Nat) (rest : List Char) :
    ((Nat.toDigits 10 n ++ rest).head? == some '-') = false := by
  obtain ⟨d, ds, hd⟩ := List.exists_cons_of_ne_nil (Nat.toDigits_ne_nil (n := n) (b := 10))
  have hdigit := Text.isDigit_of_mem_toDigits (n := n) (c := d) (by simp [hd])
  have hne : d ≠ '-' := by
    rintro rfl
    exact absurd hdigit (by decide)
  simpa [hd] using hne

/-- Only zero is written with a zero in front. -/
theorem leadingZero_toDigits (n : Nat) :
    (1 < (Nat.toDigits 10 n).length && (Nat.toDigits 10 n).head? == some '0') = false := by
  rcases Nat.eq_zero_or_pos n with rfl | hn
  · decide
  · obtain ⟨d, ds, hd, hne⟩ := Text.exists_toDigits_eq_cons hn
    simp [hd, hne]

theorem number?_toDigits {n : Nat} (hn : n < Nat.pow 2 64) {rest : List Char}
    (h : EndsNumber rest) :
    number? (Nat.toDigits 10 n ++ rest) = some (.nat n, rest) := by
  have hempty : (Nat.toDigits 10 n).isEmpty = false := by simp [Nat.toDigits_ne_nil]
  have hpoint : ∀ tail, rest ≠ '.' :: tail := by
    rintro tail rfl
    exact (h '.' rfl).2.1 rfl
  simp only [number?, head?_toDigits_ne_minus, Bool.false_eq_true, if_false, takeWhile_toDigits n h,
    dropWhile_toDigits n h, hempty, leadingZero_toDigits, Bool.or_self]
  simp [exponent?_of_ends h, natOf_toDigits, hn, Document.nat]

end Numbers

section Values

mutual

/-- A document as it is read from its text: an object becomes a map, which keeps the last of equal
keys and has its keys in order. -/
def asRead : Document → Document
  | .array items => .array (asReadItems items)
  | .object fields => .object (asReadFields [] fields)
  | d => d

def asReadItems : List Document → List Document
  | [] => []
  | x :: xs => asRead x :: asReadItems xs

def asReadFields (done : List (String × Document)) :
    List (String × Document) → List (String × Document)
  | [] => done
  | (k, x) :: fields => asReadFields (insertField k (asRead x) done) fields

end

/-- Documents that a text holds exactly: whole numbers from zero on that fit into 64 bits, neither other
numbers nor stamps, and no name twice in an object. -/
inductive Exact : Document → Prop
  | null : Exact .null
  | bool (b : Bool) : Exact (.bool b)
  | nat {n : Nat} (h : n < Nat.pow 2 64) : Exact (.nat n)
  | string (s : String) : Exact (.string s)
  | array {items : List Document} (h : ∀ x ∈ items, Exact x) : Exact (.array items)
  | object {fields : List (String × Document)} (hnames : (fields.map Prod.fst).Nodup)
    (h : ∀ f ∈ fields, Exact f.2) : Exact (.object fields)

theorem prettyItems_eq (indent : Nat) (items : List Document) :
    prettyItems indent items = items.map (pretty indent) := by
  induction items with
  | nil => rfl
  | cons x xs ih => rw [prettyItems, ih, List.map_cons]

theorem prettyFields_eq (indent : Nat) (fields : List (String × Document)) :
    prettyFields indent fields =
      fields.map fun f => quote f.1 ++ ": " ++ pretty indent f.2 := by
  induction fields with
  | nil => rfl
  | cons f fields ih => rw [prettyFields, ih, List.map_cons]

theorem asReadItems_eq (items : List Document) : asReadItems items = items.map asRead := by
  induction items with
  | nil => rfl
  | cons x xs ih => rw [asReadItems, ih, List.map_cons]

theorem toList_quote (s : String) :
    (quote s).toList = '"' :: (s.toList.flatMap escapeChar ++ ['"']) := by
  simp [quote]

/-- A line break with what it is indented by. -/
def lineBreak (indent : Nat) : List Char := '\n' :: List.replicate (2 * indent) ' '

theorem skipBlank_lineBreak (indent : Nat) (cs : List Char) :
    skipBlank (lineBreak indent ++ cs) = skipBlank cs := by
  rw [skipBlank, List.dropWhile_append_of_pos]
  · rfl
  · intro c hc
    rcases List.mem_cons.1 hc with rfl | hc
    · decide
    · rw [List.eq_of_mem_replicate hc]
      decide

theorem toList_bracket {opening closing : String} (indent : Nat) {items : List String}
    (h : items ≠ []) :
    (bracket opening closing indent items).toList =
      opening.toList ++ (lineBreak (indent + 1) ++
        ((',' :: lineBreak (indent + 1)).intercalate (items.map String.toList) ++
          (lineBreak indent ++ closing.toList))) := by
  rw [bracket, if_neg (by simpa using h)]
  simp [lineBreak]

theorem toList_pretty_nat (indent n : Nat) :
    (pretty indent (.nat n)).toList = Nat.toDigits 10 n := by
  rw [Document.nat, pretty]
  exact Nat.toList_repr

theorem not_blank_of_isDigit {c : Char} (h : ('0' ≤ c && c ≤ '9') = true) : isBlank c = false := by
  simp [isBlank, Text.ne_of_isDigit h (x := ' ') rfl, Text.ne_of_isDigit h (x := '\n') rfl,
    Text.ne_of_isDigit h (x := '\r') rfl, Text.ne_of_isDigit h (x := '\t') rfl]

theorem exists_bracket_eq_append (opening closing : String) (indent : Nat) (items : List String) :
    ∃ cs, (bracket opening closing indent items).toList = opening.toList ++ cs := by
  rw [bracket]
  split
  · exact ⟨closing.toList, by simp⟩
  · simp only [String.toList_append, List.append_assoc]
    exact ⟨_, rfl⟩

/-- The first character of a text that is written is neither blank nor a closing bracket. -/
theorem exists_pretty_eq_cons {d : Document} (h : Exact d) (indent : Nat) :
    ∃ c cs, (pretty indent d).toList = c :: cs ∧ isBlank c = false ∧ c ≠ ']' := by
  cases h with
  | null => exact ⟨'n', ['u', 'l', 'l'], by simp [pretty], by decide, by decide⟩
  | bool b =>
    cases b with
    | false => exact ⟨'f', ['a', 'l', 's', 'e'], by simp [pretty], by decide, by decide⟩
    | true => exact ⟨'t', ['r', 'u', 'e'], by simp [pretty], by decide, by decide⟩
  | @nat n h =>
    obtain ⟨d, ds, hd⟩ := List.exists_cons_of_ne_nil (Nat.toDigits_ne_nil (n := n) (b := 10))
    have hdigit := Text.isDigit_of_mem_toDigits (n := n) (c := d) (by simp [hd])
    exact ⟨d, ds, (toList_pretty_nat indent n).trans hd, not_blank_of_isDigit hdigit,
      Text.ne_of_isDigit hdigit rfl⟩
  | string s => exact ⟨_, _, by rw [pretty, toList_quote], by decide, by decide⟩
  | @array items h =>
    obtain ⟨cs, hcs⟩ := exists_bracket_eq_append "[" "]" indent (prettyItems (indent + 1) items)
    exact ⟨'[', cs, by rw [pretty, hcs]; rfl, by decide, by decide⟩
  | @object fields hnames h =>
    obtain ⟨cs, hcs⟩ :=
      exists_bracket_eq_append "\x7b" "\x7d" indent (prettyFields (indent + 1) fields)
    exact ⟨'{', cs, by rw [pretty, hcs]; rfl, by decide, by decide⟩

theorem skipBlank_cons {c : Char} (h : isBlank c = false) (cs : List Char) :
    skipBlank (c :: cs) = c :: cs := by
  rw [skipBlank, List.dropWhile_cons_of_neg (by simp [h])]

theorem endsNumber_cons {c : Char}
    (h : ('0' ≤ c && c ≤ '9') = false ∧ c ≠ '.' ∧ c ≠ 'e' ∧ c ≠ 'E') (cs : List Char) :
    EndsNumber (c :: cs) := by
  intro x hx
  obtain rfl : c = x := by simpa using hx
  exact h

theorem endsNumber_of_blank {rest : List Char} (h : ∀ c ∈ rest, isBlank c = true) :
    EndsNumber rest := by
  intro c hc
  have hblank := h c (List.mem_of_mem_head? hc)
  simp only [isBlank, Bool.or_eq_true, beq_iff_eq] at hblank
  rcases hblank with ((rfl | rfl) | rfl) | rfl <;> decide

theorem value?_of_isDigit {c : Char} (h : ('0' ≤ c && c ≤ '9') = true) (fuel : Nat)
    (cs : List Char) : value? (fuel + 1) (c :: cs) = number? (c :: cs) := by
  have hne : ∀ x ∈ ['n', 't', 'f', '"', '[', '{'], c ≠ x := by
    have hother : ['n', 't', 'f', '"', '[', '\x7b'].all
        (fun x => ('0' ≤ x && x ≤ '9') == false) = true := by decide
    intro x hx
    exact Text.ne_of_isDigit h (eq_of_beq (List.all_eq_true.1 hother x hx))
  simp only [List.forall_mem_cons] at hne
  simp [value?, skipBlank_cons (not_blank_of_isDigit h), hne]

/-- Blanks before a value do not count. -/
theorem value?_lineBreak (fuel indent : Nat) (cs : List Char) :
    value? fuel (lineBreak indent ++ cs) = value? fuel cs := by
  cases fuel with
  | zero => rfl
  | succ fuel => rw [value?, value?, skipBlank_lineBreak]

theorem value?_space (fuel : Nat) (cs : List Char) : value? fuel (' ' :: cs) = value? fuel cs := by
  cases fuel with
  | zero => rfl
  | succ fuel =>
    rw [value?, value?]
    rfl

theorem items?_lineBreak (fuel indent : Nat) (done : List Document) (cs : List Char) :
    items? fuel done (lineBreak indent ++ cs) = items? fuel done cs := by
  cases fuel with
  | zero => rfl
  | succ fuel => rw [items?, items?, value?_lineBreak]

theorem fields?_lineBreak (fuel indent : Nat) (done : List (String × Document))
    (cs : List Char) : fields? fuel done (lineBreak indent ++ cs) = fields? fuel done cs := by
  cases fuel with
  | zero => rfl
  | succ fuel => rw [fields?, fields?, skipBlank_lineBreak]

/-- A document whose text at a depth is read back, whatever follows it. -/
def ReadsBack (indent : Nat) (d : Document) : Prop :=
  ∀ fuel rest, (pretty indent d).toList.length < fuel → EndsNumber rest →
    value? fuel ((pretty indent d).toList ++ rest) = some (asRead d, rest)

theorem endsNumber_lineBreak (indent : Nat) (cs : List Char) :
    EndsNumber (lineBreak indent ++ cs) :=
  endsNumber_cons (by decide) _

theorem endsNumber_comma (cs : List Char) : EndsNumber (',' :: cs) :=
  endsNumber_cons (by decide) _

theorem items?_intercalate {indent fuel : Nat} {x : Document} {xs : List Document}
    (hread : ∀ y ∈ x :: xs, ReadsBack indent y) (outer : Nat) (done : List Document)
    (rest : List Char)
    (hfuel : ((',' :: lineBreak indent).intercalate
      ((x :: xs).map fun y => (pretty indent y).toList)).length + 1 < fuel) :
    items? fuel done ((',' :: lineBreak indent).intercalate
        ((x :: xs).map fun y => (pretty indent y).toList) ++ (lineBreak outer ++ ']' :: rest)) =
      some (.array (done.reverse ++ (x :: xs).map asRead), rest) := by
  obtain ⟨fuel, rfl⟩ : ∃ k, fuel = k + 1 := ⟨fuel - 1, by omega⟩
  induction xs generalizing x done fuel with
  | nil =>
    simp only [List.map_cons, List.map_nil, List.intercalate_singleton] at hfuel ⊢
    rw [items?, hread x (by simp) fuel _ (by omega) (endsNumber_lineBreak _ _)]
    simp [skipBlank_lineBreak, skipBlank_cons (show isBlank ']' = false by decide)]
  | cons y ys ih =>
    simp only [List.map_cons, List.intercalate_cons_cons, List.append_assoc, List.cons_append,
      List.length_append, List.length_cons] at hfuel ⊢
    rw [items?, hread x (by simp) fuel _ (by omega) (endsNumber_comma _)]
    obtain ⟨fuel, rfl⟩ : ∃ k, fuel = k + 1 := ⟨fuel - 1, by omega⟩
    simp only [skipBlank_cons (show isBlank ',' = false by decide)]
    have htail := ih (fun z hz => hread z (List.mem_cons_of_mem _ hz)) (asRead x :: done) fuel
      (by rw [List.map_cons]; omega)
    rw [List.map_cons] at htail
    rw [items?_lineBreak, htail]
    simp

/-- The text of a field at a depth. -/
def fieldText (indent : Nat) (f : String × Document) : List Char :=
  (quote f.1 ++ ": " ++ pretty indent f.2).toList

theorem fieldText_append (indent : Nat) (f : String × Document) (rest : List Char) :
    fieldText indent f ++ rest =
      '"' :: (f.1.toList.flatMap escapeChar ++
        '"' :: ':' :: ' ' :: ((pretty indent f.2).toList ++ rest)) := by
  simp [fieldText, toList_quote]

theorem length_fieldText (indent : Nat) (f : String × Document) :
    (fieldText indent f).length =
      (f.1.toList.flatMap escapeChar).length + (pretty indent f.2).toList.length + 4 := by
  simp [fieldText, toList_quote]
  omega

/-- One field is read, up to what follows it. -/
theorem fields?_field {indent fuel : Nat} {f : String × Document} (hread : ReadsBack indent f.2)
    (hfuel : (fieldText indent f).length < fuel) (done : List (String × Document))
    {rest : List Char} (hends : EndsNumber rest) :
    fields? (fuel + 1) done (fieldText indent f ++ rest) =
      match skipBlank rest with
      | ',' :: cs => fields? fuel (insertField f.1 (asRead f.2) done) cs
      | '}' :: cs => some (.object (insertField f.1 (asRead f.2) done), cs)
      | _ => none := by
  have hlength := length_fieldText indent f
  have hkey := length_le_length_flatMap f.1.toList
  rw [fieldText_append, fields?, skipBlank_cons (by decide)]
  simp only
  rw [stringTail_flatMap (by omega)]
  simp only [List.reverse_nil, List.nil_append, String.ofList_toList,
    skipBlank_cons (show isBlank ':' = false by decide), value?_space]
  rewrite [hread fuel rest (by omega) hends]
  rfl

theorem fields?_intercalate {indent fuel : Nat} {f : String × Document}
    {fs : List (String × Document)} (hread : ∀ g ∈ f :: fs, ReadsBack indent g.2) (outer : Nat)
    (done : List (String × Document)) (rest : List Char)
    (hfuel : ((',' :: lineBreak indent).intercalate
      ((f :: fs).map (fieldText indent))).length + 1 < fuel) :
    fields? fuel done ((',' :: lineBreak indent).intercalate ((f :: fs).map (fieldText indent)) ++
        (lineBreak outer ++ '}' :: rest)) =
      some (.object (asReadFields done (f :: fs)), rest) := by
  obtain ⟨fuel, rfl⟩ : ∃ k, fuel = k + 1 := ⟨fuel - 1, by omega⟩
  induction fs generalizing f done fuel with
  | nil =>
    simp only [List.map_cons, List.map_nil, List.intercalate_singleton] at hfuel ⊢
    rw [fields?_field (hread f (by simp)) (by omega) done (endsNumber_lineBreak _ _),
      skipBlank_lineBreak, skipBlank_cons (by decide)]
    simp [asReadFields]
  | cons g gs ih =>
    simp only [List.map_cons, List.intercalate_cons_cons, List.append_assoc, List.cons_append,
      List.length_append, List.length_cons] at hfuel ⊢
    rw [fields?_field (hread f (by simp)) (by omega) done (endsNumber_comma _),
      skipBlank_cons (by decide)]
    obtain ⟨fuel, rfl⟩ : ∃ k, fuel = k + 1 := ⟨fuel - 1, by omega⟩
    have htail := ih (fun z hz => hread z (List.mem_cons_of_mem _ hz))
      (insertField f.1 (asRead f.2) done) fuel (by rw [List.map_cons]; omega)
    rw [List.map_cons] at htail
    simp only
    rw [fields?_lineBreak, htail]
    simp only [asReadFields]

theorem exists_intercalate_eq_append (separator first : List Char) (others : List (List Char)) :
    ∃ tail, separator.intercalate (first :: others) = first ++ tail := by
  cases others with
  | nil => exact ⟨[], by simp⟩
  | cons next others => exact ⟨_, List.intercalate_cons_cons.trans (List.append_assoc _ _ _)⟩

theorem value?_openBracket {c : Char} (hblank : isBlank c = false) (hne : c ≠ ']')
    (fuel indent : Nat) (cs : List Char) :
    value? (fuel + 1) ('[' :: (lineBreak indent ++ c :: cs)) = items? fuel [] (c :: cs) := by
  simp [value?, skipBlank_cons (show isBlank '[' = false by decide), skipBlank_lineBreak,
    skipBlank_cons hblank, hne]

theorem value?_openBrace (fuel indent : Nat) (cs : List Char) :
    value? (fuel + 1) ('{' :: (lineBreak indent ++ '"' :: cs)) = fields? fuel [] ('"' :: cs) := by
  simp [value?, skipBlank_cons (show isBlank '{' = false by decide), skipBlank_lineBreak,
    skipBlank_cons (show isBlank '"' = false by decide)]

theorem readsBack {d : Document} (h : Exact d) (indent : Nat) : ReadsBack indent d := by
  induction h generalizing indent with
  | null =>
    intro fuel rest hfuel hends
    obtain ⟨fuel, rfl⟩ : ∃ k, fuel = k + 1 := ⟨fuel - 1, by omega⟩
    simp [pretty, value?, skipBlank_cons (show isBlank 'n' = false by decide), asRead]
  | bool b =>
    intro fuel rest hfuel hends
    obtain ⟨fuel, rfl⟩ : ∃ k, fuel = k + 1 := ⟨fuel - 1, by omega⟩
    cases b with
    | false => simp [pretty, value?, skipBlank_cons (show isBlank 'f' = false by decide), asRead]
    | true => simp [pretty, value?, skipBlank_cons (show isBlank 't' = false by decide), asRead]
  | @nat n hn =>
    intro fuel rest hfuel hends
    obtain ⟨fuel, rfl⟩ : ∃ k, fuel = k + 1 := ⟨fuel - 1, by omega⟩
    obtain ⟨c, cs, hc⟩ := List.exists_cons_of_ne_nil (Nat.toDigits_ne_nil (n := n) (b := 10))
    have hdigit := Text.isDigit_of_mem_toDigits (n := n) (c := c) (by simp [hc])
    have hnumber := number?_toDigits hn hends
    rw [toList_pretty_nat, hc, List.cons_append, value?_of_isDigit hdigit, ← List.cons_append, ← hc,
      hnumber]
    rfl
  | string s =>
    intro fuel rest hfuel hends
    obtain ⟨fuel, rfl⟩ : ∃ k, fuel = k + 1 := ⟨fuel - 1, by omega⟩
    have hlength := length_le_length_flatMap s.toList
    have hquoted : (pretty indent (.string s)).toList =
        '"' :: (s.toList.flatMap escapeChar ++ ['"']) := by rw [pretty, toList_quote]
    rw [hquoted] at hfuel ⊢
    simp only [List.length_cons, List.length_append] at hfuel
    rw [List.cons_append, value?, skipBlank_cons (by decide), List.append_assoc]
    simp [stringTail_flatMap (show s.toList.length < fuel + 1 by omega), asRead]
  | @array items hitems ih =>
    intro fuel rest hfuel hends
    obtain ⟨fuel, rfl⟩ : ∃ k, fuel = k + 1 := ⟨fuel - 1, by omega⟩
    cases items with
    | nil => 
      simp [pretty, prettyItems, bracket, value?, skipBlank_cons (show isBlank '[' = false by decide),
        skipBlank_cons (show isBlank ']' = false by decide), asRead, asReadItems]
    | cons x xs =>
      have htext : (pretty indent (.array (x :: xs))).toList =
          '[' :: (lineBreak (indent + 1) ++ ((',' :: lineBreak (indent + 1)).intercalate
            ((x :: xs).map fun y => (pretty (indent + 1) y).toList) ++
              (lineBreak indent ++ [']']))) := by
        rw [pretty, prettyItems_eq, toList_bracket _ (by simp), List.map_map]
        rfl
      rw [htext] at hfuel ⊢
      have hitemsText := items?_intercalate (fun y hy => ih y hy (indent + 1)) indent [] rest
        (show _ < fuel by simp at hfuel ⊢; omega)
      obtain ⟨c, cs, hc, hblank, hne⟩ := exists_pretty_eq_cons (hitems x (by simp)) (indent + 1)
      obtain ⟨tail, htail⟩ := exists_intercalate_eq_append (',' :: lineBreak (indent + 1))
        (pretty (indent + 1) x).toList (xs.map fun y => (pretty (indent + 1) y).toList)
      rw [hc] at htail
      simp only [List.map_cons, htail, hc, List.cons_append, List.append_assoc,
        List.nil_append] at hitemsText ⊢
      rw [value?_openBracket hblank hne, hitemsText, asRead, asReadItems_eq]
      simp
  | @object fields hnames hfields ih =>
    intro fuel rest hfuel hends
    obtain ⟨fuel, rfl⟩ : ∃ k, fuel = k + 1 := ⟨fuel - 1, by omega⟩
    cases fields with
    | nil =>
      simp [pretty, prettyFields, bracket, value?, skipBlank_cons (show isBlank '{' = false by decide),
        skipBlank_cons (show isBlank '}' = false by decide), asRead, asReadFields]
    | cons f fs =>
      have htext : (pretty indent (.object (f :: fs))).toList =
          '{' :: (lineBreak (indent + 1) ++ ((',' :: lineBreak (indent + 1)).intercalate
            ((f :: fs).map (fieldText (indent + 1))) ++ (lineBreak indent ++ ['}']))) := by
        rw [pretty, prettyFields_eq, toList_bracket _ (by simp), List.map_map]
        rfl
      rw [htext] at hfuel ⊢
      have hfieldsText := fields?_intercalate (fun g hg => ih g hg (indent + 1)) indent [] rest
        (show _ < fuel by simp at hfuel ⊢; omega)
      obtain ⟨tail, htail⟩ := exists_intercalate_eq_append (',' :: lineBreak (indent + 1))
        (fieldText (indent + 1) f) (fs.map (fieldText (indent + 1)))
      simp only [List.map_cons, htail, fieldText_append, List.cons_append, List.append_assoc,
        List.nil_append] at hfieldsText ⊢
      rw [value?_openBrace, hfieldsText, asRead]

/-- The text of a document is read back, blanks after it aside. -/
theorem parse?_pretty {d : Document} (h : Exact d) (rest : List Char)
    (hrest : ∀ c ∈ rest, isBlank c = true) :
    parse? (pretty 0 d ++ String.ofList rest) = some (asRead d) := by
  have hends : EndsNumber rest := endsNumber_of_blank hrest
  have hread := readsBack h 0 ((pretty 0 d ++ String.ofList rest).toList.length + 1) rest
    (by simp only [String.toList_append, String.toList_ofList, List.length_append]; omega) hends
  simp only [parse?, String.toList_append, String.toList_ofList] at hread ⊢
  have hskip : skipBlank rest = [] := by
    rw [skipBlank, ← List.append_nil rest, List.dropWhile_append_of_pos hrest]
    rfl
  rw [hread]
  simp [hskip]

theorem lookup_insertField (key name : String) (x : Document) (fields : List (String × Document)) :
    (insertField key x fields).lookup name = if name = key then some x else fields.lookup name := by
  induction fields with
  | nil => exact lookup_cons_ite name key x []
  | cons f fields ih =>
    obtain ⟨k, v⟩ := f
    rw [insertField]
    split
    · exact lookup_cons_ite name key x _
    · split
      · next hk =>
        subst hk
        rw [lookup_cons_ite, lookup_cons_ite]
        split <;> rfl
      · next hk =>
        rw [lookup_cons_ite, lookup_cons_ite, ih]
        by_cases h : name = k
        · subst h
          simp [Ne.symm hk]
        · simp [h]

theorem lookup_asReadFields {fields : List (String × Document)}
    (hkeys : (fields.map Prod.fst).Nodup) (done : List (String × Document)) (name : String) :
    (asReadFields done fields).lookup name =
      ((fields.lookup name).map asRead).or (done.lookup name) := by
  induction fields generalizing done with
  | nil => simp [asReadFields]
  | cons f fields ih =>
    obtain ⟨k, x⟩ := f
    obtain ⟨hk, hrest⟩ := List.nodup_cons.1 hkeys
    rw [asReadFields, ih hrest, lookup_insertField, lookup_cons_ite]
    by_cases h : name = k
    · subst h
      simp [lookup_eq_none_iff_notMem.2 hk]
    · simp [h]

/-- Without equal keys nothing of an object is lost. -/
theorem get?_asRead {fields : List (String × Document)} (hkeys : (fields.map Prod.fst).Nodup)
    (name : String) :
    (asRead (.object fields)).get? name = (fields.lookup name).map asRead := by
  rw [asRead, Document.get?, lookup_asReadFields hkeys, List.lookup_nil, Option.or_none]

end Values

end InjectionScan.Json
