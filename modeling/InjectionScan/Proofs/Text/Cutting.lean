import InjectionScan.Proofs.Text.Runs
import InjectionScan.Text.Cut
import Mathlib.Data.List.DropRight

/-! Where a text is cut. -/
namespace InjectionScan.Text

variable {α : Type} {p : Char → Bool} {word cs rest front : List Char}

theorem after?_eq_some_iff : after? word cs = some rest ↔ cs = word ++ rest := by
  induction word generalizing cs with
  | nil => simp [after?]
  | cons w ws ih =>
    cases cs with
    | nil => simp [after?]
    | cons c cs =>
      by_cases hw : w = c
      · simp [after?, hw, ih]
      · simp [after?, hw, Ne.symm hw]

theorem after?_eq_none_iff : after? word cs = none ↔ ∀ rest, cs ≠ word ++ rest := by
  rw [Option.eq_none_iff_forall_ne_some]
  exact forall_congr' fun rest => not_congr after?_eq_some_iff

theorem notMem_of_after? {c : Char} (h : c ∉ cs) (hafter : after? word cs = some rest) : c ∉ rest := by
  rw [after?_eq_some_iff.1 hafter] at h
  exact fun hmem => h (List.mem_append_right word hmem)

/-- A blank does not start the close of a comment. -/
theorem after?_close_of_isBlank {c : Char} (h : isBlank c = true) (rest : List Char) :
    after? ['*', '/'] (c :: rest) = none := by
  refine after?_eq_none_iff.2 fun tail heq => ?_
  rw [(List.cons.inj heq).1] at h
  exact absurd h (by decide)

theorem forall_ne_newline (h : '\n' ∉ cs) : ∀ c ∈ cs, (c != '\n') = true := by
  intro c hc
  rw [bne_iff_ne]
  rintro rfl
  exact h hc

/-- Whether a text starts with a word is seen from as many characters as the word has. -/
theorem after?_append_of_length_le (h : word.length ≤ cs.length) (ds : List Char) :
    after? word (cs ++ ds) = (after? word cs).map (· ++ ds) := by
  induction word generalizing cs with
  | nil => rfl
  | cons w ws ih =>
    cases cs with
    | nil => exact absurd h (by simp)
    | cons c cs =>
      by_cases hw : w = c
      · simp [after?, hw, ih (by simpa using h)]
      · simp [after?, hw]

section FirstPlace

variable {f g : List Char → Option α} {a : α}

/-- What a reader finds at the first place where it finds something. -/
def firstPlace? (f : List Char → Option α) : List Char → Option α
  | [] => f []
  | c :: cs => (f (c :: cs)).or (firstPlace? f cs)

/-- A place is a cut of the text into what comes before it and what follows. -/
theorem firstPlace?_eq_none_iff :
    firstPlace? f cs = none ↔ ∀ front rest, cs = front ++ rest → f rest = none := by
  induction cs with
  | nil => simp [firstPlace?]
  | cons c cs ih =>
    rw [firstPlace?, Option.or_eq_none_iff, ih]
    constructor
    · rintro ⟨hhere, hlater⟩ front rest heq
      cases front with
      | nil =>
        rw [List.nil_append] at heq
        exact heq ▸ hhere
      | cons d front => exact hlater front rest (List.cons.inj heq).2
    · intro h
      exact ⟨h [] _ rfl, fun front rest heq => h (c :: front) rest (by rw [heq, List.cons_append])⟩

theorem firstPlace?_eq_some_iff :
    firstPlace? f cs = some a ↔
      ∃ front rest, cs = front ++ rest ∧ f rest = some a ∧
        ∀ front' rest', cs = front' ++ rest' → front'.length < front.length → f rest' = none := by
  induction cs with
  | nil =>
    constructor
    · intro h
      exact ⟨[], [], rfl, h, fun _ _ _ hlt => absurd hlt (Nat.not_lt_zero _)⟩
    · rintro ⟨front, rest, heq, h, -⟩
      obtain ⟨-, rfl⟩ := List.append_eq_nil_iff.1 heq.symm
      exact h
  | cons c cs ih =>
    rw [firstPlace?]
    cases hhere : f (c :: cs) with
    | some b =>
      simp only [Option.some_or, Option.some.injEq]
      constructor
      · rintro rfl
        exact ⟨[], c :: cs, rfl, hhere, fun _ _ _ hlt => absurd hlt (Nat.not_lt_zero _)⟩
      · rintro ⟨front, rest, heq, h, hfirst⟩
        cases front with
        | nil =>
          rw [List.nil_append] at heq
          rw [← heq, hhere] at h
          exact Option.some.inj h
        | cons d front =>
          have hnone := hfirst [] (c :: cs) rfl (Nat.zero_lt_succ _)
          rw [hhere] at hnone
          cases hnone
    | none =>
      rw [Option.none_or, ih]
      constructor
      · rintro ⟨front, rest, heq, h, hfirst⟩
        refine ⟨c :: front, rest, by rw [heq, List.cons_append], h, ?_⟩
        intro front' rest' heq' hlt
        cases front' with
        | nil =>
          rw [List.nil_append] at heq'
          exact heq' ▸ hhere
        | cons d front' =>
          exact hfirst front' rest' (List.cons.inj heq').2 (Nat.lt_of_succ_lt_succ hlt)
      · rintro ⟨front, rest, heq, h, hfirst⟩
        cases front with
        | nil =>
          rw [List.nil_append] at heq
          rw [← heq, hhere] at h
          cases h
        | cons d front =>
          refine ⟨front, rest, (List.cons.inj heq).2, h, fun front' rest' heq' hlt => ?_⟩
          exact hfirst (c :: front') rest' (by rw [heq', List.cons_append]) (Nat.succ_lt_succ hlt)

/-- Readers that agree at every place of a text find the same first. -/
theorem firstPlace?_congr (h : ∀ rest, rest <:+ cs → f rest = g rest) :
    firstPlace? f cs = firstPlace? g cs := by
  induction cs with
  | nil => exact h [] List.suffix_rfl
  | cons c cs ih =>
    rw [firstPlace?, firstPlace?, h (c :: cs) List.suffix_rfl]
    congr 1
    exact ih fun rest hrest => h rest (hrest.trans (List.suffix_cons c cs))

theorem firstPlace?_map {β : Type} (m : α → β) (cs : List Char) :
    firstPlace? (fun rest => (f rest).map m) cs = (firstPlace? f cs).map m := by
  induction cs with
  | nil => rfl
  | cons c cs ih => rw [firstPlace?, firstPlace?, ih, Option.map_or]

end FirstPlace

section Before

/-- The text up to the first occurrence of a word, or all of it if the word does not occur. -/
def CutBefore (word text front : List Char) : Prop :=
  (∃ tail, text = front ++ word ++ tail ∧
    ∀ front' tail', text = front' ++ word ++ tail' → front.length ≤ front'.length) ∨
  ¬ word <:+: text ∧ front = text

theorem cutBefore_before (h : word ≠ []) (cs : List Char) : CutBefore word cs (before word cs) := by
  induction cs with
  | nil => exact .inr ⟨by simpa using h, rfl⟩
  | cons c cs ih =>
    rw [before]
    cases hafter : after? word (c :: cs) with
    | some tail =>
      refine .inl ⟨tail, by simpa using after?_eq_some_iff.1 hafter, fun _ _ _ => ?_⟩
      exact Nat.zero_le _
    | none =>
      have hhere : ∀ tail, c :: cs ≠ word ++ tail := after?_eq_none_iff.1 hafter
      simp only [Option.isSome_none, Bool.false_eq_true, if_false]
      rcases ih with ⟨tail, heq, hfirst⟩ | ⟨hnot, heq⟩
      · refine .inl ⟨tail, by simpa using heq, fun front' tail' heq' => ?_⟩
        cases front' with
        | nil => exact absurd (by simpa using heq') (hhere tail')
        | cons d front' =>
          exact Nat.succ_le_succ (hfirst front' tail' (List.cons.inj heq').2)
      · refine .inr ⟨?_, by rw [heq]⟩
        rintro ⟨front', tail', heq'⟩
        cases front' with
        | nil => exact hhere tail' (by simpa using heq'.symm)
        | cons d front' => exact hnot ⟨front', tail', (List.cons.inj heq').2⟩

theorem CutBefore.unique {front' : List Char} (h : CutBefore word cs front)
    (h' : CutBefore word cs front') : front = front' := by
  rcases h with ⟨tail, heq, hfirst⟩ | ⟨hnot, heq⟩
  · rcases h' with ⟨tail', heq', hfirst'⟩ | ⟨hnot, -⟩
    · have hlength : front.length = front'.length :=
        Nat.le_antisymm (hfirst front' tail' heq') (hfirst' front tail heq)
      rw [heq, List.append_assoc, List.append_assoc] at heq'
      exact (List.append_inj heq' hlength).1
    · exact absurd ⟨front, tail, heq.symm⟩ hnot
  · rcases h' with ⟨tail', heq', -⟩ | ⟨-, heq'⟩
    · exact absurd ⟨front', tail', heq'.symm⟩ hnot
    · rw [heq, heq']

theorem cutBefore_iff (h : word ≠ []) : CutBefore word cs front ↔ before word cs = front := by
  constructor
  · exact (cutBefore_before h cs).unique
  · rintro rfl
    exact cutBefore_before h cs

theorem before_eq_self (h : ¬ word <:+: cs) (hne : word ≠ []) : before word cs = cs :=
  (cutBefore_iff hne).1 (.inr ⟨h, rfl⟩)

/-- What stands after the first occurrence of a word does not matter to what stands before it. -/
theorem before_append_eq_before (h : word <:+: cs) (ds : List Char) (hne : word ≠ []) :
    before word (cs ++ ds) = before word cs := by
  induction cs with
  | nil => exact absurd (List.infix_nil.1 h) hne
  | cons c cs ih =>
    rw [List.cons_append, before, before, ← List.cons_append,
      after?_append_of_length_le h.length_le, Option.isSome_map]
    split
    · rfl
    · next hnone =>
      rcases List.infix_cons_iff.1 h with ⟨rest, hrest⟩ | hlater
      · rw [after?_eq_some_iff.2 hrest.symm] at hnone
        exact absurd rfl hnone
      · rw [ih hlater]

end Before

section DropEnd

theorem dropEnd_eq_rdropWhile (p : Char → Bool) (cs : List Char) : dropEnd p cs = cs.rdropWhile p :=
  rfl

/-- What is left ends in no character of the class, and what is dropped has no other. -/
theorem dropEnd_eq_iff :
    dropEnd p cs = front ↔
      ∃ back, cs = front ++ back ∧ (∀ c ∈ back, p c = true) ∧ ∀ c ∈ front.getLast?, p c = false := by
  rw [dropEnd_eq_rdropWhile]
  constructor
  · rintro rfl
    refine ⟨cs.rtakeWhile p, List.rdropWhile_append_rtakeWhile.symm, fun c hc => ?_, fun c hc => ?_⟩
    · exact List.mem_rtakeWhile_imp hc
    · obtain ⟨hne, rfl⟩ := List.mem_getLast?_eq_getLast hc
      simpa using List.rdropWhile_last_not p cs hne
  · rintro ⟨back, rfl, hback, hfront⟩
    rw [List.rdropWhile, List.reverse_append, dropWhile_append_of_stop, List.reverse_reverse]
    · exact fun c hc => hback c (List.mem_reverse.1 hc)
    · exact fun c hc => hfront c (List.head?_reverse ▸ hc)

theorem dropEnd_cons (c : Char) (cs : List Char) :
    dropEnd p (c :: cs) = if p c = true ∧ dropEnd p cs = [] then [] else c :: dropEnd p cs := by
  rw [dropEnd, dropEnd, List.reverse_cons, List.dropWhile_append]
  cases hd : cs.reverse.dropWhile p with
  | nil => by_cases hc : p c = true <;> simp [hc]
  | cons d ds => simp

end DropEnd

end InjectionScan.Text
