import InjectionScan.Proofs.Toml.Strings
import InjectionScan.Toml.Reader

/-! Values are read back as they are written. -/
namespace InjectionScan.Toml

section Numbers

variable {ds rest : List Char}

theorem hexValue?_digitChar : ∀ n < 10, Json.hexValue? n.digitChar = some n := by decide

theorem valueOf_toDigits (n : Nat) : valueOf 10 (Nat.toDigits 10 n) = n := by
  induction n using Nat.strongRecOn with
  | ind n ih =>
    by_cases hn : n < 10
    · rw [Nat.toDigits_of_lt_base hn]
      simp [valueOf, hexValue?_digitChar n hn]
    · have hlast := hexValue?_digitChar (n % 10) (by omega)
      rw [Nat.toDigits_of_base_le (by decide) (by omega), valueOf, List.foldl_append, ← valueOf,
        ih (n / 10) (by omega)]
      simp [hlast]
      omega

/-- What is left after a number of digits starts with a digit or with what follows the digits. -/
theorem fixedDigits?_append {k n m : Nat} {tail : List Char} (hds : ∀ c ∈ ds, isDigit c = true)
    (hrest : ∀ c ∈ rest.head?, isDigit c = false)
    (h : fixedDigits? k n (ds ++ rest) = some (m, tail)) :
    ∃ left, tail = left ++ rest ∧ ∀ c ∈ left, isDigit c = true := by
  induction k generalizing n ds with
  | zero =>
    obtain ⟨-, rfl⟩ : n = m ∧ ds ++ rest = tail := by simpa [fixedDigits?] using h
    exact ⟨ds, rfl, hds⟩
  | succ k ih =>
    cases ds with
    | nil =>
      cases rest with
      | nil => cases h
      | cons c rest => simp [fixedDigits?, hrest c rfl] at h
    | cons c ds =>
      rw [List.cons_append, fixedDigits?, if_pos (hds c List.mem_cons_self)] at h
      exact ih (fun x hx => hds x (List.mem_cons_of_mem _ hx)) h

theorem date?_line (hds : ∀ c ∈ ds, isDigit c = true) (rest : List Char) :
    date? (ds ++ '\n' :: rest) = none := by
  rw [date?]
  cases hyear : fixedDigits? 4 0 (ds ++ '\n' :: rest) with
  | none => rfl
  | some found =>
    obtain ⟨left, hleft, hdigits⟩ := fixedDigits?_append hds (by simp [isDigit]) hyear
    obtain ⟨year, tail⟩ := found
    simp only at hleft
    subst hleft
    cases left with
    | nil => rfl
    | cons c left =>
      have hne : c ≠ '-' := Text.ne_of_isDigit (hdigits c List.mem_cons_self) (by decide)
      simp [hne]

theorem time?_line (hds : ∀ c ∈ ds, isDigit c = true) (rest : List Char) :
    time? (ds ++ '\n' :: rest) = none := by
  rw [time?, twoDigits?]
  cases hhour : fixedDigits? 2 0 (ds ++ '\n' :: rest) with
  | none => rfl
  | some found =>
    obtain ⟨left, hleft, hdigits⟩ := fixedDigits?_append hds (by simp [isDigit]) hhour
    obtain ⟨hour, tail⟩ := found
    simp only at hleft
    subst hleft
    cases left with
    | nil =>
      simp only [List.nil_append]
      split <;> rfl
    | cons c left =>
      have hne : c ≠ ':' := Text.ne_of_isDigit (hdigits c List.mem_cons_self) (by decide)
      simp only [List.cons_append]
      split <;> simp [hne]

theorem groupedDigits_newline (rest : List Char) :
    groupedDigits isDigit ('\n' :: rest) = none := by
  have hdigit : isDigit '\n' = false := by decide
  unfold groupedDigits
  split
  · next h =>
    rw [List.cons.injEq] at h
    rw [← h.1, hdigit]
    rfl
  · next h =>
    rw [List.cons.injEq] at h
    rw [← h.1, hdigit]
    rfl
  · rfl

theorem groupedDigits_line (hne : ds ≠ []) (hds : ∀ c ∈ ds, isDigit c = true) (rest : List Char) :
    groupedDigits isDigit (ds ++ '\n' :: rest) = some (ds, '\n' :: rest) := by
  induction ds with
  | nil => exact absurd rfl hne
  | cons d ds ih =>
    have hd := hds d List.mem_cons_self
    have htail := fun x hx => hds x (List.mem_cons_of_mem _ hx)
    cases ds with
    | nil =>
      rw [List.singleton_append, groupedDigits, if_pos hd, groupedDigits_newline]
      simp
    | cons e ds =>
      have hplain : e ≠ '_' := Text.ne_of_isDigit (htail e List.mem_cons_self) (by decide)
      rw [List.cons_append, groupedDigits, if_pos hd, ih (by simp) htail]
      intro cs hcs
      rw [List.cons_append, List.cons.injEq] at hcs
      exact hplain hcs.1

theorem exists_toDigits_eq_digit (n : Nat) :
    ∃ d ds, Nat.toDigits 10 n = d :: ds ∧ isDigit d = true := by
  obtain ⟨d, ds, hd⟩ := List.exists_cons_of_ne_nil (Nat.toDigits_ne_nil (n := n) (b := 10))
  exact ⟨d, ds, hd, Text.isDigit_of_mem_toDigits (n := n) (by simp [hd])⟩

theorem sign_toDigits (n : Nat) (rest : List Char) :
    sign (Nat.toDigits 10 n ++ rest) = (false, Nat.toDigits 10 n ++ rest) := by
  obtain ⟨d, ds, hd, hdigit⟩ := exists_toDigits_eq_digit n
  have hminus : d ≠ '-' := Text.ne_of_isDigit hdigit (by decide)
  have hplus : d ≠ '+' := Text.ne_of_isDigit hdigit (by decide)
  simp [hd, sign, hminus, hplus]

theorem wholeDigits?_toDigits (n : Nat) (rest : List Char) :
    wholeDigits? (Nat.toDigits 10 n ++ '\n' :: rest) = some (Nat.toDigits 10 n, '\n' :: rest) := by
  rcases Nat.eq_zero_or_pos n with rfl | hn
  · rfl
  · have hgroup := groupedDigits_line (Nat.toDigits_ne_nil (n := n) (b := 10))
      (fun c hc => Text.isDigit_of_mem_toDigits hc) rest
    obtain ⟨d, ds, hd, hzero⟩ := Text.exists_toDigits_eq_cons hn
    rw [hd] at hgroup ⊢
    rw [List.cons_append] at hgroup ⊢
    rw [wholeDigits?, hgroup]
    simp [hzero]

theorem float?_toDigits (n : Nat) (rest : List Char) :
    float? (Nat.toDigits 10 n ++ '\n' :: rest) = none := by
  have hwhole := wholeDigits?_toDigits n rest
  have hsign := sign_toDigits n ('\n' :: rest)
  obtain ⟨d, ds, hd, hdigit⟩ := exists_toDigits_eq_digit n
  have hi : d ≠ 'i' := Text.ne_of_isDigit hdigit (by decide)
  have hn : d ≠ 'n' := Text.ne_of_isDigit hdigit (by decide)
  rw [hd, List.cons_append] at hwhole hsign ⊢
  simp [float?, hsign, hi, hn, hwhole, exponent?]

theorem integer?_toDigits {n : Nat} (h : n < Nat.pow 2 63) (rest : List Char) :
    integer? (Nat.toDigits 10 n ++ '\n' :: rest) = some (.nat n, '\n' :: rest) := by
  rcases Nat.eq_zero_or_pos n with rfl | hn
  · rfl
  · have hwhole := wholeDigits?_toDigits n rest
    have hsign := sign_toDigits n ('\n' :: rest)
    have hvalue := valueOf_toDigits n
    obtain ⟨d, ds, hd, hzero⟩ := Text.exists_toDigits_eq_cons hn
    rw [hd] at hwhole hsign hvalue ⊢
    rw [List.cons_append] at hwhole hsign ⊢
    have hbound : n < 9223372036854775808 := h
    simp [integer?, hsign, hzero, hwhole, hvalue, hbound, Document.nat]

theorem number?_toDigits {n : Nat} (h : n < Nat.pow 2 63) (rest : List Char) :
    number? (Nat.toDigits 10 n ++ '\n' :: rest) = some (.nat n, '\n' :: rest) := by
  have hdigits : ∀ c ∈ Nat.toDigits 10 n, isDigit c = true :=
    fun c hc => Text.isDigit_of_mem_toDigits hc
  rw [number?, stamp?, date?_line hdigits, time?_line hdigits, float?_toDigits]
  exact integer?_toDigits h rest

end Numbers

section Values

variable {fuel depth : Nat} {rest : List Char}

theorem exists_renderString_eq_cons (s : String) :
    ∃ c cs, (renderString s).toList = c :: cs ∧ (c = '"' ∨ c = '\'') := by
  rw [renderString, String.toList_ofList]
  cases Quoting.ofValue s.toList with
  | basic => exact ⟨'"', _, rfl, .inl rfl⟩
  | literal => exact ⟨'\'', _, rfl, .inr rfl⟩
  | multilineBasic => exact ⟨'"', _, rfl, .inl rfl⟩
  | multilineLiteral => exact ⟨'\'', _, rfl, .inr rfl⟩

theorem value?_renderString (s : String) (fuel depth : Nat) (hdouble : rest.head? ≠ some '"')
    (hsingle : rest.head? ≠ some '\'') :
    value? (fuel + 1) depth ((renderString s).toList ++ rest) = some (.string s, rest) := by
  have hread := string?_renderString s hdouble hsingle
  obtain ⟨c, cs, hcs, hc⟩ := exists_renderString_eq_cons s
  rw [hcs, List.cons_append] at hread ⊢
  rcases hc with rfl | rfl
  · simp [value?, hread]
  · simp [value?, hread]

theorem value?_toDigits {n : Nat} (h : n < Nat.pow 2 63) (fuel depth : Nat) (rest : List Char) :
    value? (fuel + 1) depth (Nat.toDigits 10 n ++ '\n' :: rest) = some (.nat n, '\n' :: rest) := by
  have hread := number?_toDigits h rest
  obtain ⟨d, ds, hd, hdigit⟩ := exists_toDigits_eq_digit n
  have hne : ∀ x, isDigit x = false → d ≠ x := fun x => Text.ne_of_isDigit hdigit
  rw [hd, List.cons_append] at hread ⊢
  simp [value?, hread, hne '[' (by decide), hne '\x7b' (by decide), hne 't' (by decide),
    hne 'f' (by decide), hne '"' (by decide), hne '\'' (by decide)]

/-- Characters that blanks, line ends and comments start with. -/
def isGap (c : Char) : Bool := isSpace c || c == '#' || c == '\n' || c == '\r'

theorem isGap_eq_false_iff {c : Char} :
    isGap c = false ↔ isSpace c = false ∧ c ≠ '#' ∧ c ≠ '\n' ∧ c ≠ '\r' := by
  simp [isGap, and_assoc]

theorem skipSpaces_cons {c : Char} (h : isSpace c = false) (cs : List Char) :
    skipSpaces (c :: cs) = c :: cs :=
  List.dropWhile_cons_of_neg (by simp [h])

theorem skipLines_cons {c : Char} (h : isGap c = false) (n : Nat) (cs : List Char) :
    skipLines n (c :: cs) = c :: cs := by
  obtain ⟨hspace, hcomment, hnewline, hreturn⟩ := isGap_eq_false_iff.1 h
  cases n with
  | zero => rfl
  | succ n => simp [skipLines, skipSpaces_cons hspace, skipComment, newline?, *]

theorem isGap_quote {c : Char} (h : c = '"' ∨ c = '\'') : isGap c = false := by
  rcases h with rfl | rfl <;> decide

/-- The lines of a list after its bracket, one string on each, and what follows the list. -/
def itemLines : List String → List Char → List Char
  | [], rest => '\n' :: ']' :: rest
  | x :: xs, rest =>
    '\n' :: ' ' :: ' ' :: ' ' :: ' ' :: ((renderString x).toList ++ ',' :: itemLines xs rest)

theorem itemLines_eq (xs : List String) (rest : List Char) :
    itemLines xs rest =
      '\n' :: ((String.join (xs.map fun x => "    " ++ renderString x ++ ",\n")).toList ++
        ']' :: rest) := by
  induction xs with
  | nil => rfl
  | cons x xs ih =>
    rw [itemLines, ih]
    simp [String.toList_join]

theorem items?_string (x : String) (fuel depth : Nat) (done : List Document) {c : Char}
    (hc : c = ',' ∨ c = ']') {cs : List Char}
    (hskip : skipLines cs.length cs = (renderString x).toList ++ c :: rest) :
    items? (fuel + 2) depth done cs =
      if c = ',' then items? (fuel + 1) depth (.string x :: done) rest
      else some (.array (.string x :: done).reverse, rest) := by
  have hread : value? (fuel + 1) depth ((renderString x).toList ++ c :: rest) =
      some (.string x, c :: rest) := by
    refine value?_renderString x fuel depth ?_ ?_ <;> rcases hc with rfl | rfl <;> simp
  obtain ⟨d, ds, hds, hd⟩ := exists_renderString_eq_cons x
  have hopen : d ≠ ']' := by
    rcases hd with rfl | rfl <;> decide
  rw [hds, List.cons_append] at hread hskip
  rw [items?, hskip]
  rcases hc with rfl | rfl
  · simp [hopen, hread, skipLines_cons (show isGap ',' = false by decide)]
  · simp [hopen, hread, skipLines_cons (show isGap ']' = false by decide)]

theorem items?_itemLines {xs : List String} (h : xs.length + 1 < fuel) (depth : Nat)
    (done : List Document) (rest : List Char) :
    items? fuel depth done (itemLines xs rest) =
      some (.array (done.reverse ++ xs.map .string), rest) := by
  induction xs generalizing fuel done with
  | nil =>
    obtain ⟨fuel, rfl⟩ : ∃ k, fuel = k + 1 := ⟨fuel - 1, by omega⟩
    have hskip : skipLines ('\n' :: ']' :: rest).length ('\n' :: ']' :: rest) = ']' :: rest := rfl
    rw [itemLines, items?, hskip]
    simp
  | cons x xs ih =>
    obtain ⟨fuel, rfl⟩ : ∃ k, fuel = k + 2 := ⟨fuel - 2, by omega⟩
    have hskip : skipLines (itemLines (x :: xs) rest).length (itemLines (x :: xs) rest) =
        (renderString x).toList ++ ',' :: itemLines xs rest := by
      obtain ⟨c, cs, hcs, hc⟩ := exists_renderString_eq_cons x
      rw [itemLines, hcs, List.cons_append]
      exact skipLines_cons (isGap_quote hc) (_ + 1) _
    rw [items?_string x fuel depth done (.inl rfl) hskip, if_pos rfl, ih (by simp at h; omega)]
    simp

/-- The text of a value is read as the value, up to the end of its line. -/
def ReadsAs (text : String) (d : Document) : Prop :=
  ∀ fuel rest, text.toList.length < fuel →
    value? fuel 0 (skipSpaces (text.toList ++ '\n' :: rest)) = some (d, '\n' :: rest)

theorem readsAs_renderString (s : String) : ReadsAs (renderString s) (.string s) := by
  intro fuel rest h
  obtain ⟨fuel, rfl⟩ : ∃ k, fuel = k + 1 := ⟨fuel - 1, by omega⟩
  have hend : ('\n' :: rest).head? ≠ some '"' := by simp
  have hread := value?_renderString s fuel 0 hend (by simp)
  obtain ⟨c, cs, hcs, hc⟩ := exists_renderString_eq_cons s
  rw [hcs, List.cons_append] at hread ⊢
  rw [skipSpaces_cons (isGap_eq_false_iff.1 (isGap_quote hc)).1]
  exact hread

theorem readsAs_bool (b : Bool) : ReadsAs (if b then "true" else "false") (.bool b) := by
  intro fuel rest h
  obtain ⟨fuel, rfl⟩ : ∃ k, fuel = k + 1 := ⟨fuel - 1, by omega⟩
  cases b <;> rfl

theorem readsAs_nat {n : Nat} (h : n < Nat.pow 2 63) : ReadsAs (toString n) (.nat n) := by
  intro fuel rest hfuel
  obtain ⟨fuel, rfl⟩ : ∃ k, fuel = k + 1 := ⟨fuel - 1, by omega⟩
  have htext : (toString n).toList = Nat.toDigits 10 n := Nat.toList_repr
  have hread := value?_toDigits h fuel 0 rest
  obtain ⟨d, ds, hd, hdigit⟩ := exists_toDigits_eq_digit n
  have hspace : isSpace d = false := by
    simp [isSpace, Text.ne_of_isDigit hdigit (show isDigit ' ' = false by decide),
      Text.ne_of_isDigit hdigit (show isDigit '\t' = false by decide)]
  rw [hd, List.cons_append] at hread
  rw [htext, hd, List.cons_append, skipSpaces_cons hspace, hread]

theorem value?_openBracket (fuel : Nat) (cs : List Char) :
    value? (fuel + 1) 0 ('[' :: cs) = items? fuel 1 [] cs := by
  simp [value?, depthLimit]

theorem length_le_length_itemLines (xs : List String) (rest : List Char) :
    xs.length + 2 ≤ (itemLines xs rest).length := by
  induction xs with
  | nil => simp [itemLines]
  | cons x xs ih =>
    simp [itemLines]
    omega

theorem readsAs_renderStrings (xs : List String) : ReadsAs (renderStrings xs) (.strings xs) := by
  intro fuel rest h
  rcases xs with - | ⟨x, - | ⟨y, xs⟩⟩
  · have htext : (renderStrings []).toList = ['[', ']'] := rfl
    rw [htext] at h
    obtain ⟨fuel, rfl⟩ : ∃ k, fuel = k + 2 := ⟨fuel - 2, by simp at h; omega⟩
    rfl
  · have htext : (renderStrings [x]).toList = '[' :: ((renderString x).toList ++ [']']) := by
      simp [renderStrings]
    obtain ⟨c, cs, hcs, hc⟩ := exists_renderString_eq_cons x
    rw [htext, hcs] at h
    obtain ⟨fuel, rfl⟩ : ∃ k, fuel = k + 3 := ⟨fuel - 3, by simp at h; omega⟩
    have hskip : ∀ n, skipLines n ((renderString x).toList ++ ']' :: '\n' :: rest) =
        (renderString x).toList ++ ']' :: '\n' :: rest := by
      rw [hcs]
      exact fun n => skipLines_cons (isGap_quote hc) n _
    rw [htext, List.cons_append, List.append_assoc, skipSpaces_cons (by decide),
      value?_openBracket, List.singleton_append, items?_string x fuel 1 [] (.inr rfl) (hskip _)]
    rfl
  · have htext : ∀ rest, (renderStrings (x :: y :: xs)).toList ++ rest =
        '[' :: itemLines (x :: y :: xs) rest := by
      intro rest
      simp [renderStrings, itemLines_eq]
    have hlength := length_le_length_itemLines (x :: y :: xs) []
    have hall := congrArg List.length (htext [])
    rw [List.append_nil, List.length_cons] at hall
    obtain ⟨fuel, rfl⟩ : ∃ k, fuel = k + 1 := ⟨fuel - 1, by omega⟩
    rw [htext, skipSpaces_cons (by decide), value?_openBracket, items?_itemLines (by omega)]
    rfl

end Values

end InjectionScan.Toml
