import InjectionScan.Proofs.Suppression.Directive
import InjectionScan.Proofs.Text.Pattern
import Mathlib.Data.List.Forall2

/-! The grammar of directives, and the pattern that captures their text. -/
namespace InjectionScan.Suppression

open Text

variable {line text rest cs front word stem : List Char} {ws : List (List Char)}
  {tokens : List String} {content : String} {n : Nat}

section Words

/-- Words with blanks between them. -/
inductive WordsIn : List Char → List (List Char) → Prop
  | blank {blanks : List Char} (hblanks : ∀ c ∈ blanks, isBlank c = true) : WordsIn blanks []
  | word {blanks word rest : List Char} {words : List (List Char)}
      (hblanks : ∀ c ∈ blanks, isBlank c = true) (hne : word ≠ [])
      (hword : ∀ c ∈ word, isBlank c = false) (hend : ∀ c ∈ rest.head?, isBlank c = true)
      (hrest : WordsIn rest words) : WordsIn (blanks ++ word ++ rest) (word :: words)

theorem wordsFrom_append_cons {b : Char} (hb : isBlank b = true) (x y : List Char) :
    wordsFrom (x ++ b :: y) = wordsFrom x ++ wordsFrom y := by
  induction x with
  | nil => simp [wordsFrom, hb]
  | cons c x ih =>
    rw [List.cons_append, wordsFrom, wordsFrom, ih]
    split
    · rfl
    · cases hw : wordsFrom x with
      | nil => exact absurd hw (wordsFrom_ne_nil x)
      | cons w ws => rfl

/-- A blank parts the words before it from those after it. -/
theorem words_append_cons {b : Char} (hb : isBlank b = true) (x y : List Char) :
    words (x ++ b :: y) = words x ++ words y := by
  rw [words, wordsFrom_append_cons hb, List.filter_append]
  rfl

theorem words_cons_blank {b : Char} (hb : isBlank b = true) (cs : List Char) :
    words (b :: cs) = words cs :=
  words_append_cons hb [] cs

theorem words_blanks_append {blanks : List Char} (h : ∀ c ∈ blanks, isBlank c = true)
    (cs : List Char) : words (blanks ++ cs) = words cs := by
  induction blanks with
  | nil => rfl
  | cons b blanks ih =>
    obtain ⟨hb, hrest⟩ := List.forall_mem_cons.1 h
    rw [List.cons_append, words_cons_blank hb, ih hrest]

theorem words_append_blanks {blanks : List Char} (h : ∀ c ∈ blanks, isBlank c = true)
    (cs : List Char) : words (cs ++ blanks) = words cs := by
  cases blanks with
  | nil => rw [List.append_nil]
  | cons b blanks =>
    obtain ⟨hb, hrest⟩ := List.forall_mem_cons.1 h
    have hnone := words_blanks_append hrest []
    rw [List.append_nil] at hnone
    rw [words_append_cons hb, hnone, show words [] = [] from rfl, List.append_nil]

theorem wordsFrom_of_noBlank (h : ∀ c ∈ word, isBlank c = false) : wordsFrom word = [word] := by
  induction word with
  | nil => rfl
  | cons c word ih =>
    obtain ⟨hc, hrest⟩ := List.forall_mem_cons.1 h
    simp [wordsFrom, hc, ih hrest, extendWord]

theorem words_of_noBlank (hne : word ≠ []) (h : ∀ c ∈ word, isBlank c = false) :
    words word = [word] := by
  rw [words, wordsFrom_of_noBlank h]
  simp [hne]

theorem words_append_of_noBlank (hne : word ≠ []) (h : ∀ c ∈ word, isBlank c = false)
    (hend : ∀ c ∈ rest.head?, isBlank c = true) : words (word ++ rest) = word :: words rest := by
  cases rest with
  | nil => rw [List.append_nil, words_of_noBlank hne h, show words [] = [] from rfl]
  | cons b rest =>
    have hb : isBlank b = true := hend b rfl
    rw [words_append_cons hb, words_cons_blank hb, words_of_noBlank hne h, List.singleton_append]

theorem WordsIn.cons_blank {b : Char} (h : WordsIn cs ws) (hb : isBlank b = true) :
    WordsIn (b :: cs) ws := by
  cases h with
  | blank hblanks => exact .blank (List.forall_mem_cons.2 ⟨hb, hblanks⟩)
  | word hblanks hne hword hend hrest =>
    exact .word (List.forall_mem_cons.2 ⟨hb, hblanks⟩) hne hword hend hrest

theorem wordsIn_words (cs : List Char) : WordsIn cs (words cs) := by
  induction cs with
  | nil => exact .blank (by simp)
  | cons c cs ih =>
    by_cases hc : isBlank c = true
    · rw [words_cons_blank hc]
      exact ih.cons_blank hc
    · have hc : isBlank c = false := by simpa using hc
      have hone : ∀ d ∈ [c], isBlank d = false := by simpa using hc
      -- The character starts a word of its own, or it goes in front of the word that follows.
      by_cases hend : ∀ d ∈ cs.head?, isBlank d = true
      · have hwords : words (c :: cs) = [c] :: words cs :=
          words_append_of_noBlank (List.cons_ne_nil c []) hone hend
        rw [hwords]
        exact .word (List.forall_mem_nil _) (List.cons_ne_nil c []) hone hend ih
      · generalize hws : words cs = ws at ih
        cases ih with
        | blank hblanks => exact absurd (fun d hd => hblanks d (List.mem_of_mem_head? hd)) hend
        | @word blanks word rest ws hblanks hne hword hrestEnd hrest =>
          cases blanks with
          | cons b blanks =>
            refine absurd (fun d hd => ?_) hend
            cases hd
            exact hblanks _ List.mem_cons_self
          | nil =>
            have hlong : ∀ d ∈ c :: word, isBlank d = false := List.forall_mem_cons.2 ⟨hc, hword⟩
            rw [List.nil_append] at hws ⊢
            rw [words_append_of_noBlank hne hword hrestEnd] at hws
            have hwords : words (c :: (word ++ rest)) = (c :: word) :: ws := by
              rw [← List.cons_append, words_append_of_noBlank (List.cons_ne_nil c word) hlong hrestEnd,
                (List.cons.inj hws).2]
            rw [hwords]
            exact .word (List.forall_mem_nil _) (List.cons_ne_nil c word) hlong hrestEnd hrest

theorem wordsIn_iff : WordsIn cs ws ↔ words cs = ws := by
  constructor
  · intro h
    induction h with
    | blank hblanks =>
      have hnone := words_blanks_append hblanks []
      rw [List.append_nil] at hnone
      exact hnone
    | word hblanks hne hword hend _ ih =>
      rw [List.append_assoc, words_blanks_append hblanks, words_append_of_noBlank hne hword hend, ih]
  · rintro rfl
    exact wordsIn_words cs

theorem words_trimEnd (cs : List Char) : words (trimEnd cs) = words cs := by
  obtain ⟨back, hcs, hback, -⟩ := dropEnd_eq_iff.1 (rfl : dropEnd isBlank cs = trimEnd cs)
  conv_rhs => rw [hcs]
  exact (words_append_blanks hback _).symm

end Words

section Tokens

/-- A mark that ends a list of tokens. -/
def IsStopMark (c : Char) : Prop := c = ':' ∨ c = ',' ∨ c = ';'

/-- The word without the marks at its end. -/
def IsStem (word stem : List Char) : Prop :=
  ∃ marks, word = stem ++ marks ∧ (∀ c ∈ marks, IsStopMark c) ∧ ∀ c ∈ stem.getLast?, ¬ IsStopMark c

/-- A star, or letters, digits, `_` and `-`. -/
def IsToken (text : List Char) : Prop :=
  text = ['*'] ∨ text ≠ [] ∧ ∀ c ∈ text, isAlphanumeric c = true ∨ c = '_' ∨ c = '-'

/-- The tokens are the stems of a first part of the words. Only its last word may have marks, and it
ends there, before a word that is no token or with all words. -/
def Listed (words : List (List Char)) (tokens : List String) : Prop :=
  ∃ taken left, words = taken ++ left ∧
    List.Forall₂ (fun word token => IsStem word token.toList ∧ IsToken token.toList) taken tokens ∧
    (∀ word ∈ taken.dropLast, IsStem word word) ∧
    (left = [] ∨ (∃ word ∈ taken.getLast?, ¬ IsStem word word) ∨
      ∃ word ∈ left.head?, ∀ stem, IsStem word stem → ¬ IsToken stem)

theorem isStop_iff {c : Char} : isStop c = true ↔ IsStopMark c := by
  simp [isStop, IsStopMark, or_assoc]

theorem isStem_iff : IsStem word stem ↔ dropEnd isStop word = stem := by
  rw [dropEnd_eq_iff]
  simp only [IsStem, isStop_iff, ← Bool.not_eq_true]

theorem isToken_iff : isToken text = true ↔ IsToken text := by
  simp [isToken, IsToken, or_assoc]

theorem isStem_dropEnd (word : List Char) : IsStem word (dropEnd isStop word) := isStem_iff.2 rfl

theorem length_dropEnd_eq_iff :
    (dropEnd isStop word).length = word.length ↔ IsStem word word := by
  rw [isStem_iff]
  constructor
  · intro h
    obtain ⟨marks, hword, -⟩ := isStem_dropEnd word
    have hnil : marks = [] := by
      have hlength := congrArg List.length hword
      rw [List.length_append, h] at hlength
      exact List.length_eq_zero_iff.1 (by omega)
    rw [hnil, List.append_nil] at hword
    exact hword.symm
  · intro h
    rw [h]

theorem not_token_of_not_isToken (h : ¬ isToken (dropEnd isStop word) = true) :
    ∀ stem, IsStem word stem → ¬ IsToken stem := by
  intro stem hstem htoken
  rw [← isStem_iff.1 hstem] at htoken
  exact h (isToken_iff.2 htoken)

theorem listed_tokensOf (ws : List (List Char)) : Listed ws (tokensOf ws) := by
  induction ws with
  | nil => exact ⟨[], [], rfl, .nil, by simp, .inl rfl⟩
  | cons word ws ih =>
    rw [tokensOf]
    by_cases htoken : isToken (dropEnd isStop word) = true
    · have hfirst : IsStem word (String.ofList (dropEnd isStop word)).toList ∧
          IsToken (String.ofList (dropEnd isStop word)).toList := by
        rw [String.toList_ofList]
        exact ⟨isStem_dropEnd word, isToken_iff.1 htoken⟩
      by_cases hwhole : IsStem word word
      · obtain ⟨taken, left, heq, htokens, hwholes, hend⟩ := ih
        rw [if_pos htoken, if_pos (length_dropEnd_eq_iff.2 hwhole)]
        refine ⟨word :: taken, left, by rw [heq, List.cons_append], .cons hfirst htokens, ?_, ?_⟩
        · intro other hother
          cases taken with
          | nil => cases hother
          | cons next taken =>
            rcases List.mem_cons.1 hother with rfl | hother
            · exact hwhole
            · exact hwholes other hother
        · rcases hend with hnil | ⟨last, hlast, hmarks⟩ | hstop
          · exact .inl hnil
          · refine .inr (.inl ⟨last, ?_, hmarks⟩)
            rw [List.getLast?_cons, Option.mem_def.1 hlast]
            rfl
          · exact .inr (.inr hstop)
      · rw [if_pos htoken, if_neg (mt length_dropEnd_eq_iff.1 hwhole)]
        refine ⟨[word], ws, rfl, .cons hfirst .nil, by simp, .inr (.inl ?_)⟩
        exact ⟨word, rfl, hwhole⟩
    · rw [if_neg htoken]
      refine ⟨[], word :: ws, rfl, .nil, by simp, .inr (.inr ?_)⟩
      exact ⟨word, rfl, not_token_of_not_isToken htoken⟩

/-- There is one such list: a shorter part stops where it may not, and a longer one goes on after
marks or takes what is no token. -/
theorem Listed.tokensOf_eq (h : Listed ws tokens) : tokensOf ws = tokens := by
  obtain ⟨taken, left, rfl, htokens, hwholes, hend⟩ := h
  induction htokens with
  | nil =>
    rcases hend with rfl | ⟨word, hword, -⟩ | ⟨word, hword, hnone⟩
    · rfl
    · cases hword
    · cases left with
      | nil => cases hword
      | cons other left =>
        cases hword
        have hno : ¬ isToken (dropEnd isStop word) = true := fun htoken =>
          hnone _ (isStem_dropEnd word) (isToken_iff.1 htoken)
        rw [List.nil_append, tokensOf, if_neg hno]
  | @cons word token taken tokens hfirst hrest ih =>
    obtain ⟨hstem, htoken⟩ := hfirst
    have hdrop : dropEnd isStop word = token.toList := isStem_iff.1 hstem
    have hyes : isToken (dropEnd isStop word) = true := by
      rw [hdrop]
      exact isToken_iff.2 htoken
    have hhead : String.ofList (dropEnd isStop word) = token := by
      rw [hdrop, String.ofList_toList]
    rw [List.cons_append, tokensOf, if_pos hyes, hhead]
    by_cases hwhole : IsStem word word
    · rw [if_pos (length_dropEnd_eq_iff.2 hwhole), List.cons.injEq]
      refine ⟨rfl, ih ?_ ?_⟩
      · intro other hother
        refine hwholes other ?_
        cases taken with
        | nil => cases hother
        | cons next taken => exact List.mem_cons_of_mem word hother
      · rcases hend with hnil | ⟨last, hlast, hmarks⟩ | hstop
        · exact .inl hnil
        · refine .inr (.inl ⟨last, ?_, hmarks⟩)
          cases taken with
          | nil =>
            cases hlast
            exact absurd hwhole hmarks
          | cons next taken => exact hlast
        · exact .inr (.inr hstop)
    · -- marks are allowed in the last word only
      rw [if_neg (mt length_dropEnd_eq_iff.1 hwhole)]
      cases taken with
      | nil =>
        cases hrest
        rfl
      | cons next taken => exact absurd (hwholes word List.mem_cons_self) hwhole

theorem listed_iff : Listed ws tokens ↔ tokensOf ws = tokens := by
  constructor
  · exact Listed.tokensOf_eq
  · rintro rfl
    exact listed_tokensOf ws

end Tokens

section Text

/-- The text of the first directive on a line: what follows the first marker with a blank after it
and all its blanks, up to the close of a comment if there is one. -/
def DirectiveText (line text : List Char) : Prop :=
  ∃ front blanks rest, line = front ++ "sqlscan-ignore".toList ++ blanks ++ rest ∧
    blanks ≠ [] ∧ (∀ c ∈ blanks, isBlank c = true) ∧ (∀ c ∈ rest.head?, isBlank c = false) ∧
    (∀ front' b rest', line = front' ++ "sqlscan-ignore".toList ++ b :: rest' → isBlank b = true →
      front.length ≤ front'.length) ∧
    CutBefore "*/".toList rest text

/-- The tokens that a text names. -/
def Names (text : List Char) (tokens : List String) : Prop :=
  ∃ words, WordsIn text words ∧ Listed words tokens

theorem names_iff : Names text tokens ↔ tokensOf (words text) = tokens := by
  simp only [Names, wordsIn_iff, listed_iff, exists_eq_left']

/-- What follows a marker and one blank. -/
def directiveAt? (cs : List Char) : Option (List Char) :=
  match after? marker cs with
  | some (b :: rest) => if isBlank b then some rest else none
  | _ => none

theorem directiveAt?_eq_some_iff :
    directiveAt? cs = some rest ↔ ∃ b, isBlank b = true ∧ cs = marker ++ b :: rest := by
  rw [directiveAt?]
  cases hafter : after? marker cs with
  | none =>
    have hnone := after?_eq_none_iff.1 hafter
    simp [hnone]
  | some left =>
    rw [after?_eq_some_iff] at hafter
    subst hafter
    cases left with
    | nil => simp
    | cons b left => by_cases hb : isBlank b = true <;> simp [hb]

theorem afterMarker?_eq (cs : List Char) : afterMarker? cs = firstPlace? directiveAt? cs := by
  induction cs with
  | nil => rfl
  | cons c cs ih =>
    rw [afterMarker?, firstPlace?, directiveAt?, ih]
    rcases after? marker (c :: cs) with _ | _ | ⟨b, rest⟩
    · rfl
    · rfl
    · by_cases hb : isBlank b = true <;> simp [hb]

/-- The marker with the least text before it. -/
theorem afterMarker?_eq_some_iff :
    afterMarker? line = some rest ↔
      ∃ front b, line = front ++ marker ++ b :: rest ∧ isBlank b = true ∧
        ∀ front' b' rest', line = front' ++ marker ++ b' :: rest' → isBlank b' = true →
          front.length ≤ front'.length := by
  rw [afterMarker?_eq, firstPlace?_eq_some_iff]
  constructor
  · rintro ⟨front, here, heq, hhere, hfirst⟩
    obtain ⟨b, hb, rfl⟩ := directiveAt?_eq_some_iff.1 hhere
    refine ⟨front, b, by rw [heq, List.append_assoc], hb, fun front' b' rest' heq' hb' => ?_⟩
    by_contra hlt
    have hnone := hfirst front' (marker ++ b' :: rest') (by rw [heq', List.append_assoc]) (by omega)
    rw [directiveAt?_eq_some_iff.2 ⟨b', hb', rfl⟩] at hnone
    cases hnone
  · rintro ⟨front, b, heq, hb, hfirst⟩
    refine ⟨front, marker ++ b :: rest, by rw [heq, List.append_assoc],
      directiveAt?_eq_some_iff.2 ⟨b, hb, rfl⟩, fun front' here heq' hlt => ?_⟩
    rw [Option.eq_none_iff_forall_ne_some]
    intro rest' hhere
    obtain ⟨b', hb', rfl⟩ := directiveAt?_eq_some_iff.1 hhere
    have hle := hfirst front' b' rest' (by rw [heq', List.append_assoc]) hb'
    omega

theorem directiveText_iff :
    DirectiveText line text ↔
      ∃ rest, afterMarker? line = some rest ∧ before ['*', '/'] (rest.dropWhile isBlank) = text := by
  constructor
  · rintro ⟨front, blanks, rest, heq, hne, hblanks, hstop, hfirst, hcut⟩
    obtain ⟨b, blanks, rfl⟩ := List.exists_cons_of_ne_nil hne
    obtain ⟨hb, hblanks⟩ := List.forall_mem_cons.1 hblanks
    refine ⟨blanks ++ rest, afterMarker?_eq_some_iff.2 ⟨front, b, ?_, hb, hfirst⟩, ?_⟩
    · rw [heq, List.append_assoc _ (b :: blanks), List.cons_append]
      rfl
    · rw [dropWhile_append_of_stop hblanks hstop]
      exact (cutBefore_iff (by decide)).1 hcut
  · rintro ⟨rest, hafter, hcut⟩
    obtain ⟨front, b, heq, hb, hfirst⟩ := afterMarker?_eq_some_iff.1 hafter
    refine ⟨front, b :: rest.takeWhile isBlank, rest.dropWhile isBlank, ?_, by simp, ?_, ?_, hfirst,
      (cutBefore_iff (by decide)).2 hcut⟩
    · rw [heq, List.append_assoc _ (b :: _), List.cons_append, List.takeWhile_append_dropWhile]
      rfl
    · refine List.forall_mem_cons.2 ⟨hb, fun c hc => List.mem_takeWhile_imp hc⟩
    · exact not_of_mem_head?_dropWhile isBlank rest

/-- Blanks in front of a text bring no words, whether it is cut before them or after. -/
theorem words_before_dropWhile (cs : List Char) :
    words (before ['*', '/'] (cs.dropWhile isBlank)) = words (before ['*', '/'] cs) := by
  induction cs with
  | nil => rfl
  | cons c cs ih =>
    by_cases hc : isBlank c = true
    · rw [List.dropWhile_cons_of_pos hc, ih, before, after?_close_of_isBlank hc]
      exact (words_cons_blank hc _).symm
    · rw [List.dropWhile_cons_of_neg hc]

theorem lineTokens_eq_iff (hne : tokens ≠ []) :
    lineTokens line = tokens ↔ ∃ text, DirectiveText line text ∧ Names text tokens := by
  simp only [directiveText_iff, names_iff]
  rw [lineTokens]
  cases afterMarker? line with
  | none =>
    simp [hne.symm]
  | some rest =>
    simp [words_before_dropWhile]

end Text

section Capture

/-- Blanks and the end of the line, or the close of a comment and all after it. -/
def closing : Pattern :=
  .seq (.many isBlank)
    (.seq (.optional (.seq (.literal "*/".toList) (.many fun c => c != '\n'))) .atEnd)

/-- The pattern `sqlscan-ignore\s+(.*?)\s*(?:\*/.*)?$`. -/
def directivePattern : Pattern :=
  .seq (.literal "sqlscan-ignore".toList)
    (.seq (.several isBlank) (.seq (.group 1 (.few fun c => c != '\n')) closing))

/-- No text is left before the close of a comment or the end of the line. -/
def closesHere (cs : List Char) : Bool := (trimEnd (before ['*', '/'] cs)).isEmpty

theorem trimEnd_before_eq_nil_iff (cs : List Char) :
    trimEnd (before ['*', '/'] cs) = [] ↔
      cs.dropWhile isBlank = [] ∨ (after? ['*', '/'] (cs.dropWhile isBlank)).isSome = true := by
  induction cs with
  | nil => simp [before, trimEnd, dropEnd]
  | cons c cs ih =>
    by_cases hc : isBlank c = true
    · rw [List.dropWhile_cons_of_pos hc, ← ih, before, after?_close_of_isBlank hc]
      simp [trimEnd, dropEnd_cons, hc]
    · rw [List.dropWhile_cons_of_neg hc, before]
      cases after? ['*', '/'] (c :: cs) with
      | none => simp [trimEnd, dropEnd_cons, hc]
      | some rest => simp [trimEnd, dropEnd]

theorem captures_manyOther_atEnd (h : '\n' ∉ cs) :
    (Pattern.seq (.many fun c => c != '\n') .atEnd).captures cs = some [] := by
  have hdrop : cs.dropWhile (fun c => c != '\n') = [] :=
    List.dropWhile_eq_nil_iff.2 (forall_ne_newline h)
  have hall : Pattern.atEnd.captures (cs.dropWhile fun c => c != '\n') = some [] := by
    rw [hdrop, Pattern.captures_atEnd]
    rfl
  rw [Pattern.captures_many_seq (by simp [hall]), hall]

theorem captures_closing (h : '\n' ∉ cs) :
    closing.captures cs = if closesHere cs then some [] else none := by
  have hclose (cs : List Char) (h : '\n' ∉ cs) :
      (Pattern.seq (.optional (.seq (.literal "*/".toList) (.many fun c => c != '\n')))
        .atEnd).captures cs =
        if cs = [] ∨ (after? ['*', '/'] cs).isSome = true then some [] else none := by
    rw [Pattern.captures_optional_seq, Pattern.captures_seq_assoc, Pattern.captures_literal_seq,
      Pattern.captures_atEnd, show "*/".toList = ['*', '/'] from rfl]
    cases hafter : after? ['*', '/'] cs with
    | none => simp
    | some rest => simp [captures_manyOther_atEnd (notMem_of_after? h hafter)]
  have hsub : '\n' ∉ cs.dropWhile isBlank := mt (List.dropWhile_suffix _).mem h
  rw [closing, Pattern.captures_many_seq]
  · rw [hclose _ hsub]
    simp [closesHere, trimEnd_before_eq_nil_iff]
  · -- a blank is neither the end nor the start of a close
    intro _ front c rest heq _ hc
    rw [hclose _ fun hmem => h (heq ▸ List.mem_append_right front hmem), if_neg]
    simp [after?_close_of_isBlank hc]

theorem upTo_closing (cs : List Char) :
    upTo closesHere cs = trimEnd (before ['*', '/'] cs) := by
  refine upTo_isEmpty rfl (fun c cs => ?_) cs
  rw [before]
  split
  · exact .inl rfl
  · rw [trimEnd, dropEnd_cons]
    split
    · exact .inl rfl
    · exact .inr rfl

theorem captures_group_closing (h : '\n' ∉ cs) :
    (Pattern.seq (.group 1 (.few fun c => c != '\n')) closing).captures cs =
      some [(1, trimEnd (before ['*', '/'] cs))] := by
  have hend : closesHere [] = true := rfl
  rw [Pattern.captures_group_few_seq (forall_ne_newline h) hend,
    captures_closing fun hmem => h (List.mem_of_mem_drop hmem), if_pos (drop_upTo hend cs),
    upTo_closing]
  · rfl
  · intro front rest heq
    rw [captures_closing fun hmem => h (heq ▸ List.mem_append_right front hmem)]
    cases closesHere rest <;> rfl

theorem captures_directivePattern (h : '\n' ∉ cs) :
    directivePattern.captures cs =
      (directiveAt? cs).map fun rest =>
        [(1, trimEnd (before ['*', '/'] (rest.dropWhile isBlank)))] := by
  rw [directivePattern, Pattern.captures_literal_seq, directiveAt?,
    show "sqlscan-ignore".toList = marker from rfl]
  cases hafter : after? marker cs with
  | none => simp
  | some left =>
    have hleft : '\n' ∉ left := notMem_of_after? h hafter
    rw [Option.bind_some, Pattern.captures_several_seq]
    cases left with
    | nil => simp
    | cons b rest =>
      have hrest : '\n' ∉ rest.dropWhile isBlank := fun hmem =>
        hleft (List.mem_cons_of_mem b ((List.dropWhile_suffix _).mem hmem))
      by_cases hb : isBlank b = true
      · simp only [hb, if_true, Option.map_some]
        rw [Pattern.captures_many_seq, captures_group_closing hrest]
        simp [captures_group_closing hrest]
      · simp [hb]

theorem find?_directivePattern (h : '\n' ∉ line) :
    directivePattern.find? line =
      (afterMarker? line).map fun rest =>
        [(1, trimEnd (before ['*', '/'] (rest.dropWhile isBlank)))] := by
  rw [Pattern.find?, afterMarker?_eq, ← firstPlace?_map]
  exact firstPlace?_congr fun rest hrest => captures_directivePattern (mt hrest.mem h)

end Capture

section Entries

theorem mem_directivesFrom_iff {k : Nat} {ls : List (List Char)} :
    (k, tokens) ∈ directivesFrom n ls ↔
      tokens ≠ [] ∧ ∃ i line, k = n + i ∧ ls[i]? = some line ∧ lineTokens line = tokens := by
  induction ls generalizing n with
  | nil => simp [directivesFrom]
  | cons line ls ih =>
    have hlater : (k, tokens) ∈ directivesFrom (n + 1) ls ↔
        tokens ≠ [] ∧ ∃ i line', k = n + (i + 1) ∧ (line :: ls)[i + 1]? = some line' ∧
          lineTokens line' = tokens := by
      simp only [ih, List.getElem?_cons_succ, Nat.add_assoc, Nat.add_comm 1]
    rw [directivesFrom]
    constructor
    · intro hmem
      split at hmem
      · obtain ⟨hne, i, line', h⟩ := hlater.1 hmem
        exact ⟨hne, i + 1, line', h⟩
      · next hne =>
        rcases List.mem_cons.1 hmem with heq | hmem
        · cases heq
          exact ⟨by simpa using hne, 0, line, rfl, rfl, rfl⟩
        · obtain ⟨hne, i, line', h⟩ := hlater.1 hmem
          exact ⟨hne, i + 1, line', h⟩
    · rintro ⟨hne, i, line', hk, hline, htokens⟩
      cases i with
      | zero =>
        cases hline
        rw [Nat.add_zero] at hk
        rw [if_neg (by simpa [htokens] using hne), hk, htokens]
        exact List.mem_cons_self
      | succ i =>
        have hmem := hlater.2 ⟨hne, i, line', hk, hline, htokens⟩
        split
        · exact hmem
        · exact List.mem_cons_of_mem _ hmem

theorem increasing_directivesFrom (n : Nat) (ls : List (List Char)) :
    (directivesFrom n ls).Pairwise fun a b => a.1 < b.1 := by
  induction ls generalizing n with
  | nil => exact .nil
  | cons line ls ih =>
    rw [directivesFrom]
    split
    · exact ih (n + 1)
    · refine .cons (fun entry hentry => ?_) (ih (n + 1))
      obtain ⟨-, i, -, hk, -⟩ := mem_directivesFrom_iff.1 hentry
      omega

theorem mem_directives_iff :
    (n, tokens) ∈ directives content ↔
      tokens ≠ [] ∧ ∃ line, LineAt content n line ∧ lineTokens line = tokens := by
  rw [directives, mem_directivesFrom_iff]
  refine and_congr_right fun _ => ⟨?_, ?_⟩
  · rintro ⟨i, line, rfl, hline, htokens⟩
    exact ⟨line, ⟨by omega, by rwa [Nat.add_sub_cancel_left]⟩, htokens⟩
  · rintro ⟨line, ⟨hpos, hline⟩, htokens⟩
    exact ⟨n - 1, line, by omega, hline, htokens⟩

/-- The entry of a line is made from that line. -/
theorem lookup_directives_congr {content' : String} {n' : Nat} (hn : 0 < n) (hn' : 0 < n')
    (h : (lines content)[n - 1]? = (lines content')[n' - 1]?) :
    (directives content).lookup n = (directives content').lookup n' := by
  rw [directives, directives, lookup_directivesFrom, lookup_directivesFrom, h,
    if_neg (by omega), if_neg (by omega)]

theorem isToken_of_listed (h : Listed ws tokens) : ∀ token ∈ tokens, IsToken token.toList := by
  obtain ⟨taken, left, -, htokens, -⟩ := h
  induction htokens with
  | nil => simp
  | cons hfirst _ ih => exact List.forall_mem_cons.2 ⟨hfirst.2, ih⟩

/-- What the pattern captures names the same tokens as the text of the directive. -/
theorem exists_captured_iff (h : '\n' ∉ line) :
    (∃ groups text, directivePattern.find? line = some groups ∧ groups.lookup 1 = some text ∧
      Names text tokens) ↔ ∃ text, DirectiveText line text ∧ Names text tokens := by
  rw [find?_directivePattern h]
  simp only [directiveText_iff, names_iff]
  cases afterMarker? line with
  | none => simp
  | some rest => simp [words_trimEnd]

/-- A directive is what the grammar says. The numbers of entries increase, and a line has an entry
exactly if the first directive on it names tokens, which are then the entry; the text of that
directive may be taken from the grammar or from the pattern. No entry is empty, all its members are
tokens, and it depends on its line only. -/
theorem directives_exact (content : String) :
    (directives content).Pairwise (fun a b => a.1 < b.1) ∧
    (∀ n tokens, (n, tokens) ∈ directives content ↔
      tokens ≠ [] ∧ ∃ line text, LineAt content n line ∧ DirectiveText line text ∧
        Names text tokens) ∧
    (∀ n tokens, (n, tokens) ∈ directives content ↔
      tokens ≠ [] ∧ ∃ line groups text, LineAt content n line ∧
        directivePattern.find? line = some groups ∧ groups.lookup 1 = some text ∧
        Names text tokens) ∧
    (∀ entry ∈ directives content, entry.2 ≠ [] ∧ ∀ token ∈ entry.2, IsToken token.toList) ∧
    (∀ content' n n', 0 < n → 0 < n' → (lines content)[n - 1]? = (lines content')[n' - 1]? →
      (directives content).lookup n = (directives content').lookup n') ∧
    ∀ line text text', DirectiveText line text → DirectiveText line text' → text = text' := by
  have hgrammar : ∀ n tokens, (n, tokens) ∈ directives content ↔
      tokens ≠ [] ∧ ∃ line text, LineAt content n line ∧ DirectiveText line text ∧
        Names text tokens := by
    intro n tokens
    rw [mem_directives_iff]
    refine and_congr_right fun hne => ?_
    simp only [lineTokens_eq_iff hne, exists_and_left]
  refine ⟨increasing_directivesFrom 1 _, hgrammar, fun n tokens => ?_, ?_, ?_, ?_⟩
  · rw [hgrammar]
    refine and_congr_right fun _ => exists_congr fun line => ?_
    simp only [exists_and_left]
    exact and_congr_right fun hline =>
      (exists_captured_iff (newline_notMem_of_lineAt hline)).symm.trans (by simp)
  · rintro ⟨n, tokens⟩ hentry
    obtain ⟨hne, line, text, -, -, ws, -, hlisted⟩ := (hgrammar n tokens).1 hentry
    exact ⟨hne, isToken_of_listed hlisted⟩
  · intro content' n n' hn hn' h
    exact lookup_directives_congr hn hn' h
  · intro line text text' h h'
    obtain ⟨rest, hrest, rfl⟩ := directiveText_iff.1 h
    obtain ⟨rest', hrest', rfl⟩ := directiveText_iff.1 h'
    rw [Option.some.inj (hrest.symm.trans hrest')]

/-- A directive in a comment with another one after it, one after a word that only starts like the
marker, and one that names nothing. -/
def mixedDirectives : String :=
  "a(); /* sqlscan-ignore \tSQL xss-1, why */ // sqlscan-ignore *\n" ++
    "// sqlscan-ignored SQL sqlscan-ignore\u00a0* ok?\n/* sqlscan-ignore */"

theorem directives_exact_mixed :
    directives mixedDirectives = [(1, ["SQL", "xss-1"]), (2, ["*"])] ∧
    (∃ line text, LineAt mixedDirectives 1 line ∧ DirectiveText line text ∧
      Names text ["SQL", "xss-1"]) ∧
    (∃ line groups text, LineAt mixedDirectives 2 line ∧
      directivePattern.find? line = some groups ∧ groups.lookup 1 = some text ∧
      Names text ["*"]) ∧
    (directives mixedDirectives).lookup 3 = (directives "/* sqlscan-ignore */").lookup 1 := by
  have hdirectives : directives mixedDirectives = [(1, ["SQL", "xss-1"]), (2, ["*"])] := by
    decide +kernel
  obtain ⟨-, hgrammar, hpattern, -, hlocal, -⟩ := directives_exact mixedDirectives
  refine ⟨hdirectives, ?_, ?_, hlocal _ 3 1 (by decide) (by decide) (by decide +kernel)⟩
  · exact ((hgrammar 1 ["SQL", "xss-1"]).1 (by simp [hdirectives])).2
  · exact ((hpattern 2 ["*"]).1 (by simp [hdirectives])).2

end Entries

end InjectionScan.Suppression
