import InjectionScan.Proofs.Text.Runs
import InjectionScan.Toml.Printer

/-! Strings and keys are read back in each of the forms in which they are written. -/
namespace InjectionScan.Toml

variable {c : Char} {cs rest : List Char}

section Characters

theorem isPlain_of_not_isControl (h : isControl c = false) (hn : c ≠ '\n') : isPlain c = true := by
  by_cases ht : c = '\t'
  · simp [isPlain, ht]
  · have hrange : ¬ (c.toNat < 32 ∨ c.toNat = 127) := by simpa [isControl, ht, hn] using h
    simp [isPlain, ht]
    omega

theorem hexValue?_upperHexDigit : ∀ n < 16, Json.hexValue? (upperHexDigit n) = some n := by decide

theorem charOf?_upperHexDigit {n : Nat} (h : n < 128) (cs : List Char) :
    charOf? 4 ('0' :: '0' :: upperHexDigit (n / 16) :: upperHexDigit (n % 16) :: cs) =
      some (Char.ofNat n, cs) := by
  have hzero : Json.hexValue? '0' = some 0 := by decide
  have hsum : n / 16 * 16 + n % 16 = n := by omega
  have hvalid : n.isValidChar := Or.inl (by omega)
  simp [charOf?, hexDigits?, hzero, hexValue?_upperHexDigit _ (show n / 16 < 16 by omega),
    hexValue?_upperHexDigit _ (show n % 16 < 16 by omega), hsum, hvalid]

/-- How a character other than a double quote is written: as an escape, as a line end, or as it
is. -/
theorem escapeChar_cases (multiline : Bool) (hc : c ≠ '"') :
    (∃ e, escapeChar multiline c = '\\' :: e ∧ (∀ cs, escape? (e ++ cs) = some (c, cs)) ∧
      ∀ cs, newline? (skipSpaces (e ++ cs)) = none) ∨
    (c = '\n' ∧ multiline = true ∧ escapeChar multiline c = ['\n']) ∨
    (escapeChar multiline c = [c] ∧ isPlain c = true ∧ c ≠ '\\') := by
  by_cases hslash : c = '\\'
  · subst hslash
    exact .inl ⟨['\\'], rfl, fun _ => rfl, fun _ => rfl⟩
  by_cases htab : c = '\t'
  · subst htab
    exact .inl ⟨['t'], rfl, fun _ => rfl, fun _ => rfl⟩
  by_cases hnewline : c = '\n'
  · subst hnewline
    cases multiline with
    | true => exact .inr (.inl ⟨rfl, rfl, rfl⟩)
    | false => exact .inl ⟨['n'], rfl, fun _ => rfl, fun _ => rfl⟩
  by_cases hreturn : c = '\r'
  · subst hreturn
    exact .inl ⟨['r'], rfl, fun _ => rfl, fun _ => rfl⟩
  by_cases hback : c.toNat = 8
  · obtain rfl : c = Char.ofNat 8 := by rw [← hback, Char.ofNat_toNat]
    exact .inl ⟨['b'], rfl, fun _ => rfl, fun _ => rfl⟩
  by_cases hfeed : c.toNat = 12
  · obtain rfl : c = Char.ofNat 12 := by rw [← hfeed, Char.ofNat_toNat]
    exact .inl ⟨['f'], rfl, fun _ => rfl, fun _ => rfl⟩
  by_cases hcontrol : isControl c = true
  · refine .inl ⟨['u', '0', '0', upperHexDigit (c.toNat / 16), upperHexDigit (c.toNat % 16)], ?_,
      fun cs => ?_, fun _ => rfl⟩
    · simp [escapeChar, hslash, htab, hnewline, hreturn, hback, hfeed, hcontrol]
    · have hsmall : c.toNat < 128 := by
        simp [isControl, htab, hnewline] at hcontrol
        omega
      have hchar := charOf?_upperHexDigit hsmall cs
      rwa [Char.ofNat_toNat] at hchar
  · have hplain := isPlain_of_not_isControl (by simpa using hcontrol) hnewline
    refine .inr (.inr ⟨?_, hplain, hslash⟩)
    simp [escapeChar, hslash, htab, hnewline, hreturn, hback, hfeed, hcontrol]

theorem exists_escapeChar_eq_cons (multiline : Bool) (hc : c ≠ '"') :
    ∃ x e, escapeChar multiline c = x :: e ∧ x ≠ '"' := by
  obtain ⟨e, he, -⟩ | ⟨rfl, -, he⟩ | ⟨he, -⟩ := escapeChar_cases multiline hc
  · exact ⟨_, e, he, by decide⟩
  · exact ⟨_, [], he, by decide⟩
  · exact ⟨c, [], he, hc⟩

theorem length_le_length_escapeText (multiline : Bool) (allowed quotes : Nat) (cs : List Char) :
    cs.length ≤ (escapeText multiline allowed quotes cs).length := by
  fun_induction escapeText multiline allowed quotes cs with
  | case1 => simp
  | case2 quotes cs hlt ih => simpa using ih
  | case3 quotes cs hlt ih =>
    simp
    omega
  | case4 quotes c cs hc ih =>
    obtain ⟨x, e, he, -⟩ := exists_escapeChar_eq_cons multiline hc
    simp [he]
    omega

end Characters

section OneLine

theorem basicTail_escapeText {fuel : Nat} (h : cs.length < fuel) (done rest : List Char) :
    basicTail fuel done (escapeText false 0 0 cs ++ '"' :: rest) =
      some (String.ofList (done.reverse ++ cs), rest) := by
  induction cs generalizing fuel done with
  | nil =>
    obtain ⟨fuel, rfl⟩ : ∃ k, fuel = k + 1 := ⟨fuel - 1, by simp at h; omega⟩
    simp [escapeText, basicTail]
  | cons c cs ih =>
    obtain ⟨fuel, rfl⟩ : ∃ k, fuel = k + 1 := ⟨fuel - 1, by simp at h; omega⟩
    have hrest := ih (show cs.length < fuel by simpa using h) (c :: done)
    rw [List.reverse_cons, List.append_assoc, List.singleton_append] at hrest
    rw [escapeText]
    by_cases hc : c = '"'
    · subst hc
      simpa [basicTail, escape?] using hrest
    · rw [if_neg hc, List.append_assoc]
      obtain ⟨e, he, hescape, -⟩ | ⟨-, hfalse, -⟩ | ⟨he, hplain, hslash⟩ := escapeChar_cases false hc
      · rw [he, List.cons_append, basicTail]
        simpa [hescape] using hrest
      · cases hfalse
      · rw [he, List.singleton_append, basicTail]
        simpa [hc, hslash, hplain] using hrest

theorem literal?_append (h : ∀ c ∈ cs, isPlain c = true ∧ c ≠ '\'') (rest : List Char) :
    literal? (cs ++ '\'' :: rest) = some (String.ofList cs, rest) := by
  have hinside : ∀ c ∈ cs, (isPlain c && c != '\'') = true := fun c hc => by simp [h c hc]
  have hstop : ∀ c ∈ ('\'' :: rest).head?, (isPlain c && c != '\'') = false := by
    intro c hc
    obtain rfl : '\'' = c := by simpa using hc
    decide
  simp only [literal?, Text.dropWhile_append_of_stop hinside hstop,
    Text.takeWhile_append_of_stop hinside hstop]

end OneLine

section ClosingQuotes

variable {quote : Char} {body : List Char}

theorem quotes_append_of_forall_eq (hbody : ∀ c ∈ body, c = quote)
    (hrest : rest.head? ≠ some quote) : quotes quote (body ++ rest) = body.length := by
  rw [quotes, Text.takeWhile_append_of_stop]
  · intro c hc
    simpa using hbody c hc
  · intro c hc
    simp only [beq_eq_false_iff_ne]
    rintro rfl
    exact hrest hc

theorem quotes_of_forall_eq (hbody : ∀ c ∈ body, c = quote) : quotes quote body = body.length := by
  have hend : ([] : List Char).head? ≠ some quote := by simp
  simpa using quotes_append_of_forall_eq hbody hend

theorem quotes_append_of_exists_ne (hbody : ∃ c ∈ body, c ≠ quote) (rest : List Char) :
    quotes quote (body ++ rest) = quotes quote body := by
  have hstops : (body.takeWhile fun c => c == quote).length ≠ body.length := by
    intro heq
    obtain ⟨c, hc, hne⟩ := hbody
    have hall : body.takeWhile (fun c => c == quote) = body :=
      (List.takeWhile_prefix _).eq_of_length heq
    have hinside := List.all_eq_true.1 (List.all_takeWhile (p := fun c => c == quote) (l := body))
    rw [hall] at hinside
    exact hne (by simpa using hinside c hc)
  rw [quotes, List.takeWhile_append, if_neg hstops, quotes]

/-- Up to two quotes right before the closing ones belong to the text. -/
theorem closing?_of_forall_eq (hbody : ∀ c ∈ body, c = quote) (hlength : body.length ≤ 2)
    (hrest : rest.head? ≠ some quote) (done : List Char) :
    closing? quote done (body ++ quote :: quote :: quote :: rest) =
      some (String.ofList (done.reverse ++ body), rest) := by
  have hquotes : quotes quote (body ++ quote :: quote :: quote :: rest) = body.length + 3 := by
    have hall : ∀ c ∈ body ++ [quote, quote, quote], c = quote := by
      simpa [or_imp, forall_and] using hbody
    simpa using quotes_append_of_forall_eq hall hrest
  have hinside : min (body.length + 3 - 3) 2 = body.length := by omega
  have hdrop : (body ++ quote :: quote :: quote :: rest).drop (body.length + 3) = rest := by
    simp [List.drop_append]
  have hreplicate : body = List.replicate body.length quote := List.eq_replicate_of_mem hbody
  have hreverse : body.reverse = body := by rw [hreplicate, List.reverse_replicate]
  rw [closing?, hquotes]
  simp only [Nat.le_add_left, if_true, hinside, hdrop, ← hreplicate, List.reverse_append, hreverse]

theorem closing?_of_exists_ne (hbody : ∃ c ∈ body, c ≠ quote) (hquotes : quotes quote body ≤ 2)
    (done rest : List Char) : closing? quote done (body ++ rest) = none := by
  rw [closing?, quotes_append_of_exists_ne hbody]
  exact if_neg (by omega)

theorem closing?_cons_of_ne (h : c ≠ quote) (done cs : List Char) :
    closing? quote done (c :: cs) = none :=
  closing?_of_exists_ne (show ∃ x ∈ [c], x ≠ quote by simpa using h) (by simp [quotes, h]) done cs

end ClosingQuotes

section SeveralLines

theorem newline?_of_isPlain (h : isPlain c = true) (cs : List Char) : newline? (c :: cs) = none := by
  have hn : c ≠ '\n' := by
    rintro rfl
    cases h
  have hr : c ≠ '\r' := by
    rintro rfl
    cases h
  simp [newline?, hn, hr]

theorem quotes_escapeText {run : Nat} (h : run ≤ 2) (cs : List Char) :
    quotes '"' (escapeText true 2 run cs) + run ≤ 2 := by
  fun_induction escapeText true 2 run cs with
  | case1 => simpa [quotes] using h
  | case2 run cs hlt ih =>
    have := ih (by omega)
    simp only [quotes] at this
    simp [quotes]
    omega
  | case3 run cs hlt => simpa [quotes] using h
  | case4 run c cs hc =>
    obtain ⟨x, e, he, hx⟩ := exists_escapeChar_eq_cons true hc
    simpa [he, quotes, hx] using h

theorem escapeText_eq_self {run : Nat} (h : ∀ x ∈ escapeText true 2 run cs, x = '"') :
    escapeText true 2 run cs = cs := by
  fun_induction escapeText true 2 run cs with
  | case1 => rfl
  | case2 run cs hlt ih => rw [ih fun x hx => h x (List.mem_cons_of_mem _ hx)]
  | case3 run cs hlt =>
    have hslash := h '\\' List.mem_cons_self
    cases hslash
  | case4 run c cs hc =>
    obtain ⟨x, e, he, hx⟩ := exists_escapeChar_eq_cons true hc
    exact absurd (h x (by simp [he])) hx

theorem multilineTail_of_forall_eq {fuel : Nat} (hfuel : 0 < fuel) (hcs : ∀ c ∈ cs, c = '"')
    (hlength : cs.length ≤ 2) (hrest : rest.head? ≠ some '"') (done : List Char) :
    multilineTail fuel done (cs ++ '"' :: '"' :: '"' :: rest) =
      some (String.ofList (done.reverse ++ cs), rest) := by
  obtain ⟨fuel, rfl⟩ : ∃ k, fuel = k + 1 := ⟨fuel - 1, by omega⟩
  have hclosing := closing?_of_forall_eq hcs hlength hrest done
  cases cs with
  | nil => rw [List.nil_append] at hclosing ⊢; rw [multilineTail, hclosing]
  | cons c cs => rw [List.cons_append] at hclosing ⊢; rw [multilineTail, hclosing]

theorem multilineTail_quote {done : List Char} (h : closing? '"' done ('"' :: cs) = none)
    (fuel : Nat) :
    multilineTail (fuel + 1) done ('"' :: cs) = multilineTail fuel ('"' :: done) cs := by
  simp [multilineTail, h]

theorem multilineTail_escape {tail : List Char} (hnewline : newline? (skipSpaces cs) = none)
    (hescape : escape? cs = some (c, tail)) (fuel : Nat) (done : List Char) :
    multilineTail (fuel + 1) done ('\\' :: cs) = multilineTail fuel (c :: done) tail := by
  rw [multilineTail, closing?_cons_of_ne (by decide)]
  simp [foldedLine?, hnewline, hescape]

theorem multilineTail_newline (fuel : Nat) (done cs : List Char) :
    multilineTail (fuel + 1) done ('\n' :: cs) = multilineTail fuel ('\n' :: done) cs := by
  rw [multilineTail, closing?_cons_of_ne (by decide)]
  simp [newline?]

theorem multilineTail_plain (hplain : isPlain c = true) (hquote : c ≠ '"') (hslash : c ≠ '\\')
    (fuel : Nat) (done cs : List Char) :
    multilineTail (fuel + 1) done (c :: cs) = multilineTail fuel (c :: done) cs := by
  rw [multilineTail, closing?_cons_of_ne hquote]
  simp [hquote, hslash, newline?_of_isPlain hplain, hplain]

theorem multilineTail_escapeText {fuel run : Nat} (h : cs.length < fuel) (hrun : run ≤ 2)
    (hrest : rest.head? ≠ some '"') (done : List Char) :
    multilineTail fuel done (escapeText true 2 run cs ++ '"' :: '"' :: '"' :: rest) =
      some (String.ofList (done.reverse ++ cs), rest) := by
  induction cs generalizing fuel run done with
  | nil =>
    exact multilineTail_of_forall_eq (by omega) (show ∀ c ∈ [], c = '"' by simp) (by simp) hrest done
  | cons c cs ih =>
    have hquotes := quotes_escapeText hrun (c :: cs)
    by_cases hall : ∀ x ∈ escapeText true 2 run (c :: cs), x = '"'
    · -- Only quotes are left, and they run into the closing ones.
      have hself := escapeText_eq_self hall
      rw [hself] at hall hquotes ⊢
      have hlength := quotes_of_forall_eq hall
      exact multilineTail_of_forall_eq (by omega) hall (by omega) hrest done
    obtain ⟨fuel, rfl⟩ : ∃ k, fuel = k + 1 := ⟨fuel - 1, by omega⟩
    have hfuel : cs.length < fuel := by simpa using h
    have hopen := closing?_of_exists_ne (by simpa only [Classical.not_forall, exists_prop] using hall)
      (by omega) done
      ('"' :: '"' :: '"' :: rest)
    have hcons : done.reverse ++ c :: cs = (c :: done).reverse ++ cs := by simp
    rw [hcons]
    by_cases hc : c = '"'
    · subst hc
      by_cases hlt : run < 2
      · rw [escapeText, if_pos rfl, if_pos hlt, List.cons_append] at hopen ⊢
        rw [multilineTail_quote hopen]
        exact ih hfuel hlt _
      · rw [escapeText, if_pos rfl, if_neg hlt, List.cons_append, List.cons_append,
          multilineTail_escape rfl rfl]
        exact ih hfuel (by omega) _
    · rw [escapeText, if_neg hc, List.append_assoc]
      obtain ⟨e, he, hescape, hnewline⟩ | ⟨rfl, -, he⟩ | ⟨he, hplain, hslash⟩ :=
        escapeChar_cases true hc
      · rw [he, List.cons_append, multilineTail_escape (hnewline _) (hescape _)]
        exact ih hfuel (by omega) _
      · rw [he, List.singleton_append, multilineTail_newline]
        exact ih hfuel (by omega) _
      · rw [he, List.singleton_append, multilineTail_plain hplain hc hslash]
        exact ih hfuel (by omega) _

end SeveralLines

section LiteralLines

theorem longestRun_mono (x : Char) {a b : Nat} (h : a ≤ b) (cs : List Char) :
    longestRun x a cs ≤ longestRun x b cs := by
  induction cs generalizing a b with
  | nil => exact h
  | cons c cs ih =>
    rw [longestRun, longestRun]
    split
    · exact ih (by omega)
    · omega

theorem longestRun_le_cons (x : Char) (run : Nat) (c : Char) (cs : List Char) :
    longestRun x 0 cs ≤ longestRun x run (c :: cs) := by
  rw [longestRun]
  split
  · exact longestRun_mono x (by omega) cs
  · omega

theorem quotes_add_le_longestRun (x : Char) (run : Nat) (cs : List Char) :
    quotes x cs + run ≤ longestRun x run cs := by
  induction cs generalizing run with
  | nil => simp [quotes, longestRun]
  | cons c cs ih =>
    rw [longestRun]
    by_cases hc : c = x
    · have := ih (run + 1)
      simp only [quotes] at this
      rw [if_pos hc, quotes, List.takeWhile_cons_of_pos (by simpa using hc), List.length_cons]
      omega
    · rw [if_neg hc, quotes, List.takeWhile_cons_of_neg (by simpa using hc), List.length_nil]
      omega

theorem notMem_of_longestRun_eq_zero {x : Char} (h : longestRun x 0 cs = 0) : x ∉ cs := by
  induction cs with
  | nil => simp
  | cons c cs ih =>
    have htail := longestRun_le_cons x 0 c cs
    have hquotes := quotes_add_le_longestRun x 0 (c :: cs)
    have hne : c ≠ x := by
      rintro rfl
      simp [quotes] at hquotes
      omega
    simp [ih (by omega), Ne.symm hne]

theorem multilineLiteralTail_append {fuel : Nat} (h : cs.length < fuel)
    (hcontrol : ∀ c ∈ cs, isControl c = false) (hruns : longestRun '\'' 0 cs ≤ 2)
    (hrest : rest.head? ≠ some '\'') (done : List Char) :
    multilineLiteralTail fuel done (cs ++ '\'' :: '\'' :: '\'' :: rest) =
      some (String.ofList (done.reverse ++ cs), rest) := by
  induction cs generalizing fuel done with
  | nil =>
    obtain ⟨fuel, rfl⟩ : ∃ k, fuel = k + 1 := ⟨fuel - 1, by omega⟩
    have hclosing := closing?_of_forall_eq (show ∀ c ∈ [], c = '\'' by simp) (by simp) hrest done
    rw [List.nil_append] at hclosing ⊢
    rw [multilineLiteralTail, hclosing]
  | cons c cs ih =>
    obtain ⟨fuel, rfl⟩ : ∃ k, fuel = k + 1 := ⟨fuel - 1, by omega⟩
    have hfuel : cs.length < fuel := by simpa using h
    have htail := ih hfuel (fun x hx => hcontrol x (by simp [hx]))
      (Nat.le_trans (longestRun_le_cons '\'' 0 c cs) hruns) (c :: done)
    have hquotes := quotes_add_le_longestRun '\'' 0 (c :: cs)
    rw [List.cons_append, multilineLiteralTail, ← List.cons_append]
    by_cases hall : ∀ x ∈ c :: cs, x = '\''
    · have hlength := quotes_of_forall_eq hall
      rw [closing?_of_forall_eq hall (by omega) hrest]
    · rw [closing?_of_exists_ne (by simpa only [Classical.not_forall, exists_prop] using hall)
      (by omega)]
      rw [List.reverse_cons, List.append_assoc, List.singleton_append] at htail
      by_cases hn : c = '\n'
      · subst hn
        exact htail
      · have hplain := isPlain_of_not_isControl (hcontrol c (by simp)) hn
        rw [List.cons_append, newline?_of_isPlain hplain]
        simpa [hplain] using htail

end LiteralLines

namespace Quoting

/-- The texts that can stand in a form. -/
def Holds : Quoting → List Char → Prop
  | basic, _ | multilineBasic, _ => True
  | literal, cs => ∀ c ∈ cs, isPlain c = true ∧ c ≠ '\''
  | multilineLiteral, cs => (∀ c ∈ cs, isControl c = false) ∧ longestRun '\'' 0 cs ≤ 2

theorem holds_ofValue (cs : List Char) : (ofValue cs).Holds cs := by
  simp only [ofValue]
  split
  · trivial
  split
  · next h =>
    simp only [Bool.and_eq_true, Bool.not_eq_true', List.any_eq_false, beq_iff_eq,
      List.contains_eq_mem, decide_eq_false_iff_not] at h
    obtain ⟨⟨hcontrol, hruns⟩, hnewline⟩ := h
    intro c hc
    refine ⟨isPlain_of_not_isControl (by simpa using hcontrol c hc) ?_, ?_⟩
    · rintro rfl
      exact hnewline hc
    · rintro rfl
      exact notMem_of_longestRun_eq_zero hruns hc
  split
  · trivial
  split
  · next h =>
    simp only [Bool.and_eq_true, Bool.not_eq_true', List.any_eq_false, decide_eq_true_eq] at h
    exact ⟨fun c hc => by simpa using h.1 c hc, h.2⟩
  split <;> trivial

theorem holds_ofKey (cs : List Char) : (ofKey cs).Holds cs := by
  simp only [ofKey]
  split
  · trivial
  split
  · next h =>
    simp only [Bool.and_eq_true, Bool.not_eq_true', List.any_eq_false, Bool.or_eq_true, beq_iff_eq,
      not_or, List.contains_eq_mem, decide_eq_false_iff_not] at h
    obtain ⟨hcontrol, hquote⟩ := h
    intro c hc
    refine ⟨isPlain_of_not_isControl (by simpa using (hcontrol c hc).1) (hcontrol c hc).2, ?_⟩
    rintro rfl
    exact hquote hc
  · trivial

end Quoting

section Reading

theorem exists_escapeText_eq_cons (c : Char) (cs : List Char) :
    ∃ x t, escapeText false 0 0 (c :: cs) = x :: t ∧ x ≠ '"' := by
  rw [escapeText]
  by_cases hc : c = '"'
  · exact ⟨'\\', '"' :: escapeText false 0 0 cs, by simp [hc], by decide⟩
  · obtain ⟨x, e, he, hx⟩ := exists_escapeChar_eq_cons false hc
    exact ⟨x, e ++ escapeText false 0 0 cs, by simp [hc, he], hx⟩

theorem newline?_escapeText (h : '\n' ∉ cs) (rest : List Char) :
    newline? (escapeText true 2 0 cs ++ '"' :: rest) = none := by
  cases cs with
  | nil => rfl
  | cons c cs =>
    rw [escapeText]
    by_cases hc : c = '"'
    · simp [hc, newline?]
    · rw [if_neg hc, List.append_assoc]
      obtain ⟨e, he, -⟩ | ⟨rfl, -⟩ | ⟨he, hplain, -⟩ := escapeChar_cases true hc
      · rw [he]
        rfl
      · simp at h
      · rw [he]
        exact newline?_of_isPlain hplain _

theorem string?_basic (h : rest.head? ≠ some '"') (cs : List Char) :
    string? ('"' :: (escapeText false 0 0 cs ++ '"' :: rest)) = some (String.ofList cs, rest) := by
  have hlength := length_le_length_escapeText false 0 0 cs
  rw [string?, basicTail_escapeText (by simp; omega)]
  · rfl
  · intro t ht
    cases cs with
    | nil =>
      rw [escapeText, List.nil_append, List.cons.injEq] at ht
      simp [ht.2] at h
    | cons c cs =>
      obtain ⟨x, e, he, hx⟩ := exists_escapeText_eq_cons c cs
      rw [he, List.cons_append, List.cons.injEq] at ht
      exact hx ht.1

theorem string?_literal (hcs : ∀ c ∈ cs, isPlain c = true ∧ c ≠ '\'')
    (h : rest.head? ≠ some '\'') :
    string? ('\'' :: (cs ++ '\'' :: rest)) = some (String.ofList cs, rest) := by
  rw [string?, literal?_append hcs]
  intro t ht
  cases cs with
  | nil =>
    rw [List.nil_append, List.cons.injEq] at ht
    simp [ht.2] at h
  | cons c cs =>
    rw [List.cons_append, List.cons.injEq] at ht
    exact (hcs c List.mem_cons_self).2 ht.1

/-- The line end that a text of several lines starts with is skipped. -/
theorem skipFirstNewline_lead {body : List Char}
    (h : '\n' ∉ cs → newline? (body ++ rest) = none) :
    skipFirstNewline ((if cs.contains '\n' then ['\n'] else []) ++ body ++ rest) = body ++ rest := by
  by_cases hn : '\n' ∈ cs
  · simp [hn, skipFirstNewline, newline?]
  · simp [hn, skipFirstNewline, h hn]

theorem string?_multilineBasic (h : rest.head? ≠ some '"') (cs : List Char) :
    string? ('"' :: '"' :: '"' :: ((if cs.contains '\n' then ['\n'] else []) ++
      escapeText true 2 0 cs ++ '"' :: '"' :: '"' :: rest)) = some (String.ofList cs, rest) := by
  have hlength := length_le_length_escapeText true 2 0 cs
  rw [string?, skipFirstNewline_lead fun hn => newline?_escapeText hn _,
    multilineTail_escapeText (by simp; omega) (by omega) h]
  rfl

theorem string?_multilineLiteral (hcontrol : ∀ c ∈ cs, isControl c = false)
    (hruns : longestRun '\'' 0 cs ≤ 2) (h : rest.head? ≠ some '\'') :
    string? ('\'' :: '\'' :: '\'' :: ((if cs.contains '\n' then ['\n'] else []) ++ cs ++
      '\'' :: '\'' :: '\'' :: rest)) = some (String.ofList cs, rest) := by
  have hfirst : '\n' ∉ cs → newline? (cs ++ '\'' :: '\'' :: '\'' :: rest) = none := by
    intro hn
    cases cs with
    | nil => rfl
    | cons c cs =>
      have hne : c ≠ '\n' := fun heq => hn (heq ▸ List.mem_cons_self)
      exact newline?_of_isPlain (isPlain_of_not_isControl (hcontrol c List.mem_cons_self) hne) _
  rw [string?, skipFirstNewline_lead hfirst,
    multilineLiteralTail_append (by simp; omega) hcontrol hruns h]
  rfl

theorem string?_write {q : Quoting} (hq : q.Holds cs) (hdouble : rest.head? ≠ some '"')
    (hsingle : rest.head? ≠ some '\'') :
    string? (q.write cs ++ rest) = some (String.ofList cs, rest) := by
  cases q with
  | basic =>
    simpa [Quoting.write, Quoting.delimiter, Quoting.isMultiline] using string?_basic hdouble cs
  | literal =>
    simpa [Quoting.write, Quoting.delimiter, Quoting.isMultiline] using string?_literal hq hsingle
  | multilineBasic =>
    simpa [Quoting.write, Quoting.delimiter, Quoting.isMultiline]
      using string?_multilineBasic hdouble cs
  | multilineLiteral =>
    simpa [Quoting.write, Quoting.delimiter, Quoting.isMultiline]
      using string?_multilineLiteral hq.1 hq.2 hsingle

theorem string?_renderString (s : String) (hdouble : rest.head? ≠ some '"')
    (hsingle : rest.head? ≠ some '\'') :
    string? ((renderString s).toList ++ rest) = some (s, rest) := by
  rw [renderString, String.toList_ofList, string?_write (Quoting.holds_ofValue _) hdouble hsingle,
    String.ofList_toList]

theorem isMultiline_ofKey (cs : List Char) : (Quoting.ofKey cs).isMultiline = false := by
  simp only [Quoting.ofKey]
  split
  · rfl
  split <;> rfl

theorem simpleKey?_write {q : Quoting} (hline : q.isMultiline = false) (hq : q.Holds cs)
    (rest : List Char) : simpleKey? (q.write cs ++ rest) = some (String.ofList cs, rest) := by
  cases q with
  | basic =>
    have hlength := length_le_length_escapeText false 0 0 cs
    have hread := basicTail_escapeText
      (show cs.length < (escapeText false 0 0 cs ++ '"' :: rest).length + 1 by simp; omega) [] rest
    simpa [Quoting.write, Quoting.delimiter, Quoting.isMultiline, simpleKey?] using hread
  | literal =>
    simpa [Quoting.write, Quoting.delimiter, Quoting.isMultiline, simpleKey?]
      using literal?_append hq rest
  | multilineBasic => cases hline
  | multilineLiteral => cases hline

theorem simpleKey?_bare (hne : cs ≠ []) (hcs : ∀ c ∈ cs, isBareChar c = true)
    (hrest : ∀ c ∈ rest.head?, isBareChar c = false) :
    simpleKey? (cs ++ rest) = some (String.ofList cs, rest) := by
  have htake := Text.takeWhile_append_of_stop hcs hrest
  have hdrop := Text.dropWhile_append_of_stop hcs hrest
  obtain ⟨c, tail, rfl⟩ := List.exists_cons_of_ne_nil hne
  have hbare := hcs c List.mem_cons_self
  rw [List.cons_append] at htake hdrop ⊢
  rw [simpleKey?]
  · simp [htake, hdrop]
  · intro t ht
    rw [List.cons.injEq] at ht
    rw [ht.1] at hbare
    cases hbare
  · intro t ht
    rw [List.cons.injEq] at ht
    rw [ht.1] at hbare
    cases hbare

theorem simpleKey?_renderKey (s : String) (hrest : ∀ c ∈ rest.head?, isBareChar c = false) :
    simpleKey? ((renderKey s).toList ++ rest) = some (s, rest) := by
  rw [renderKey]
  split
  · next h =>
    simp only [Bool.and_eq_true, Bool.not_eq_true', List.all_eq_true] at h
    rw [simpleKey?_bare (by simpa using h.1) h.2 hrest, String.ofList_toList]
  · rw [String.toList_ofList, simpleKey?_write (isMultiline_ofKey _) (Quoting.holds_ofKey _),
      String.ofList_toList]

end Reading

end InjectionScan.Toml
