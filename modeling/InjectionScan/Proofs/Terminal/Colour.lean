import InjectionScan.Output.Terminal
import InjectionScan.Proofs.Text.Runs

/-! Colours add escape sequences and nothing else. -/
namespace InjectionScan.Terminal

/-- What may stand between the bracket and the last letter of an escape sequence. -/
def isParameter (c : Char) : Bool := ('0' ≤ c && c ≤ '9') || c == ';'

/-- What follows an escape sequence for a style at the front of a text. -/
def afterSequence? : List Char → Option (List Char)
  | e :: '[' :: cs =>
    if e = escape then
      match cs.dropWhile isParameter with
      | 'm' :: rest => some rest
      | _ => none
    else none
  | _ => none

theorem length_of_afterSequence? {cs rest : List Char} (h : afterSequence? cs = some rest) :
    rest.length < cs.length := by
  rw [afterSequence?.eq_def] at h
  split at h
  · next e tail =>
    split at h
    · split at h
      · next found hfound =>
        cases h
        have hlength := (List.dropWhile_sublist (l := tail) isParameter).length_le
        rw [hfound] at hlength
        simp only [List.length_cons] at hlength ⊢
        omega
      · cases h
    · cases h
  · cases h

/-- A text without its escape sequences for styles. -/
def withoutSequences (cs : List Char) : List Char :=
  match h : afterSequence? cs with
  | some rest =>
    have := length_of_afterSequence? h
    withoutSequences rest
  | none =>
    match cs with
    | [] => []
    | c :: cs => c :: withoutSequences cs
termination_by cs.length

/-- Nothing is left of a text but the plain one, whatever follows it. -/
def Strips (text plain : List Char) : Prop :=
  ∀ rest, withoutSequences (text ++ rest) = plain ++ withoutSequences rest

theorem Strips.append {text plain more moreplain : List Char} (h : Strips text plain)
    (hmore : Strips more moreplain) : Strips (text ++ more) (plain ++ moreplain) := by
  intro rest
  rw [List.append_assoc, h, hmore, List.append_assoc]

/-- The text has no character that starts an escape sequence. -/
def Unescaped (s : String) : Prop := escape ∉ s.toList

instance (s : String) : Decidable (Unescaped s) := inferInstanceAs (Decidable (escape ∉ s.toList))

theorem withoutSequences_cons {c : Char} (h : c ≠ escape) (cs : List Char) :
    withoutSequences (c :: cs) = c :: withoutSequences cs := by
  have hnone : afterSequence? (c :: cs) = none := by
    rw [afterSequence?.eq_def]
    split
    · next heq =>
      cases heq
      exact if_neg h
    · rfl
  rw [withoutSequences]
  split
  · next hsome =>
    rw [hnone] at hsome
    cases hsome
  · rfl

/-- A text without the character keeps all it has. -/
theorem strips_of_notMem {cs : List Char} (h : escape ∉ cs) : Strips cs cs := by
  intro rest
  induction cs with
  | nil => rfl
  | cons c cs ih =>
    simp only [List.mem_cons, not_or] at h
    rw [List.cons_append, withoutSequences_cons (Ne.symm h.1), ih h.2, List.cons_append]

theorem Unescaped.strips {s : String} (h : Unescaped s) : Strips s.toList s.toList :=
  strips_of_notMem h

/-- A whole sequence goes away. -/
theorem strips_sequence {codes : List Char} (h : codes.all isParameter = true) :
    Strips (escape :: '[' :: codes ++ ['m']) [] := by
  intro rest
  have hdrop : (codes ++ 'm' :: rest).dropWhile isParameter = 'm' :: rest :=
    Text.dropWhile_append_of_stop (List.all_eq_true.1 h) (by simp [isParameter])
  have hafter : afterSequence? (escape :: '[' :: codes ++ ['m'] ++ rest) = some rest := by
    simp [afterSequence?, hdrop]
  rw [withoutSequences]
  split
  · next hsome =>
    rw [hafter] at hsome
    cases hsome
    rfl
  · next hnone =>
    rw [hafter] at hnone
    cases hnone

theorem strips_opening (s : Style) : Strips (opening s) [] := by
  apply strips_sequence
  cases s <;> decide

theorem strips_closing : Strips closing [] := by
  have hcodes : ['0'].all isParameter = true := by decide
  exact strips_sequence hcodes

/-- No style has to be started again in a text that ends none. -/
theorem resume_eq_self (s : Style) {cs : List Char} (h : escape ∉ cs) : resume s cs = cs := by
  fun_induction resume s cs with
  | case1 => rfl
  | case2 cs ih => exact absurd List.mem_cons_self h
  | case3 e cs he ih =>
    simp only [List.mem_cons, not_or] at h
    rw [ih h.2.2.2.2]
  | case4 c cs _ ih =>
    simp only [List.mem_cons, not_or] at h
    rw [ih h.2]

/-- What a style adds to a text goes away, and the text stays. -/
theorem strips_paint (color : Bool) (s : Style) {text : String} (h : Unescaped text) :
    Strips (paint color s text).toList text.toList := by
  cases color with
  | false => exact h.strips
  | true =>
    have hstrips := ((strips_opening s).append h.strips).append strips_closing
    rw [List.nil_append, List.append_nil] at hstrips
    simpa only [paint, if_true, String.toList_ofList, resume_eq_self s h] using hstrips

theorem unescaped_toString (n : Nat) : Unescaped (toString n) := by
  intro h
  have hdigits : (toString n).toList = Nat.toDigits 10 n := Nat.toList_repr
  rw [hdigits] at h
  exact Text.ne_of_isDigit (Text.isDigit_of_mem_toDigits h) (x := escape) (by decide) rfl

theorem unescaped_padded_name (s : Severity) : Unescaped (padEnd 8 s.name) := by
  cases s <;> decide

theorem paint_false (s : Style) (text : String) : paint false s text = text := rfl

section Lines

variable {f : Finding} {path : Path} {reason : String}

theorem strips_findingLine (color : Bool) (hid : Unescaped f.id) (hmessage : Unescaped f.message)
    (hsuggestion : ∀ s ∈ f.suggestion, Unescaped s) (hpath : Unescaped path.text) :
    Strips (findingLine color f path).toList (findingLine false f path).toList := by
  have hblank : Unescaped " " := by decide
  have hcolon : Unescaped ":" := by decide
  have hindent : Unescaped "  " := by decide
  have hbreak : Unescaped "\n           " := by decide
  have hlabel : Unescaped "fix:" := by decide
  have hstart := hindent.strips.append
    (strips_paint color (severityStyle f.severity) (unescaped_padded_name f.severity))
  have hstart := (hstart.append hblank.strips).append (strips_paint color .bold hid)
  have hplace := (hstart.append hblank.strips).append hpath.strips
  have hplace := (hplace.append hcolon.strips).append (unescaped_toString f.line).strips
  have hplace := (hplace.append hcolon.strips).append (unescaped_toString f.column).strips
  have hline := (hplace.append hblank.strips).append hmessage.strips
  unfold findingLine severityLabel
  simp only [paint_false]
  simp only [String.toList_append]
  cases hs : f.suggestion with
  | none => exact hline.append (strips_of_notMem List.not_mem_nil)
  | some s =>
    have hfix := hbreak.strips.append (strips_paint color .dimmed hlabel)
    have hfix := (hfix.append hblank.strips).append
      (strips_paint color .dimmed (hsuggestion s hs))
    simp only [String.toList_append]
    exact hline.append hfix

theorem strips_suppressedLine (color : Bool) (hid : Unescaped f.id) (hpath : Unescaped path.text)
    (hreason : Unescaped reason) :
    Strips (suppressedLine color f path reason).toList
      (suppressedLine false f path reason).toList := by
  have hindent : Unescaped "    " := by decide
  have hblank : Unescaped " " := by decide
  have hcolon : Unescaped ":" := by decide
  have hopen : Unescaped " (" := by decide
  have hclose : Unescaped ")" := by decide
  have hstart := hindent.strips.append (strips_paint color .dimmed hid)
  have hplace := (hstart.append hblank.strips).append hpath.strips
  have hplace := (hplace.append hcolon.strips).append (unescaped_toString f.line).strips
  have hline := (hplace.append hopen.strips).append hreason.strips
  unfold suppressedLine
  simp only [paint_false]
  simp only [String.toList_append]
  exact hline.append hclose.strips

theorem Strips.withoutSequences_eq {text plain : List Char} (h : Strips text plain) :
    withoutSequences text = plain := by
  have hnil : withoutSequences [] = [] := by
    rw [withoutSequences]
    rfl
  simpa [hnil] using h []

end Lines

/-- The lines for a finding with colours are the lines without colours, but for escape sequences. -/
theorem colour_only_adds_sequences (f : Finding) (path : Path) (reason : String)
    (hid : Unescaped f.id) (hmessage : Unescaped f.message)
    (hsuggestion : ∀ s ∈ f.suggestion, Unescaped s) (hpath : Unescaped path.text)
    (hreason : Unescaped reason) :
    withoutSequences (findingLine true f path).toList = (findingLine false f path).toList ∧
    withoutSequences (suppressedLine true f path reason).toList =
      (suppressedLine false f path reason).toList :=
  ⟨(strips_findingLine true hid hmessage hsuggestion hpath).withoutSequences_eq,
    (strips_suppressedLine true hid hpath hreason).withoutSequences_eq⟩

/-- A finding with texts that look like the rest of an escape sequence, and a suggestion of two
lines. -/
def twoLines : Finding where
  id := "SQL-001[0m"
  rule := "sql-injection"
  severity := .info
  category := .security
  message := "[1;31m é ;m"
  file := ⟨"a.js"⟩
  line := 12
  column := 7
  suggestion := some "first\n  second[0m"

theorem colour_only_adds_sequences_twoLines :
    (Unescaped twoLines.id ∧ Unescaped twoLines.message ∧
      (∀ s ∈ twoLines.suggestion, Unescaped s) ∧ Unescaped "src/a.js" ∧ Unescaped "inline") ∧
    findingLine true twoLines ⟨"src/a.js"⟩ ≠ findingLine false twoLines ⟨"src/a.js"⟩ ∧
    withoutSequences (findingLine true twoLines ⟨"src/a.js"⟩).toList =
      ("  info     SQL-001[0m src/a.js:12:7 [1;31m é ;m\n" ++
        "           fix: first\n  second[0m").toList ∧
    withoutSequences (suppressedLine true twoLines ⟨"src/a.js"⟩ "inline").toList =
      "    SQL-001[0m src/a.js:12 (inline)".toList := by
  have hsuggestion : ∀ s ∈ twoLines.suggestion, Unescaped s := by
    rintro s ⟨⟩
    decide
  have h := colour_only_adds_sequences twoLines ⟨"src/a.js"⟩ "inline" (by decide) (by decide)
    hsuggestion (by decide) (by decide)
  refine ⟨⟨by decide, by decide, hsuggestion, by decide, by decide⟩, by decide +kernel, ?_, ?_⟩
  · rw [h.1]
    decide +kernel
  · rw [h.2]
    decide +kernel

end InjectionScan.Terminal
