import InjectionScan.Proofs.Text.PhysicalLine
import InjectionScan.Suppression.Directive

/-! The directive of a line is that of the physical line with its number. -/
namespace InjectionScan.Suppression

open Text

section TrailingBlank

variable {b : Char}

theorem after?_append_of_notMem {word : List Char} (hb : b ∉ word) (cs : List Char) :
    after? word (cs ++ [b]) = (after? word cs).map (· ++ [b]) := by
  induction word generalizing cs with
  | nil => rfl
  | cons w ws ih =>
    obtain ⟨hw, hws⟩ : b ≠ w ∧ b ∉ ws := by simpa using hb
    cases cs with
    | nil => simp [after?, Ne.symm hw]
    | cons c cs =>
      by_cases hc : w = c
      · simp [after?, hc, ih hws]
      · simp [after?, hc]

theorem eq_of_after?_eq_nil {word cs : List Char} (h : after? word cs = some []) : cs = word := by
  induction word generalizing cs with
  | nil => simpa [after?] using h
  | cons w ws ih =>
    cases cs with
    | nil => simp [after?] at h
    | cons c cs =>
      simp only [after?] at h
      split at h
      · next hw => rw [hw, ih h]
      · cases h

/-- A blank after the line moves to the end of what follows the marker, or it makes a directive with
nothing after it. -/
theorem afterMarker?_append_blank (hb : isBlank b) (hm : b ∉ marker) (cs : List Char) :
    afterMarker? (cs ++ [b]) = (afterMarker? cs).map (· ++ [b]) ∨
      (afterMarker? cs = none ∧ afterMarker? (cs ++ [b]) = some []) := by
  induction cs with
  | nil =>
    left
    have hnone : after? marker [b] = none := after?_append_of_notMem hm []
    simp [afterMarker?, hnone]
  | cons c cs ih =>
    have hafter := after?_append_of_notMem hm (c :: cs)
    rw [List.cons_append] at hafter ⊢
    rw [afterMarker?, afterMarker?, hafter]
    rcases ha : after? marker (c :: cs) with _ | _ | ⟨x, rest⟩
    · simpa using ih
    · -- the marker stands right at the end, and no other one fits after its first character
      have hcs : cs = marker.tail := by rw [← eq_of_after?_eq_nil ha, List.tail_cons]
      have hnone : afterMarker? marker.tail = none := by decide
      right
      simp [hcs, hnone, hb]
    · by_cases hx : isBlank x
      · simp [hx]
      · simpa [hx] using ih

theorem before_append_of_notMem {word : List Char} (hw : word ≠ []) (hb : b ∉ word)
    (cs : List Char) :
    before word (cs ++ [b]) = before word cs ∨
      before word (cs ++ [b]) = before word cs ++ [b] := by
  induction cs with
  | nil =>
    right
    cases word with
    | nil => exact absurd rfl hw
    | cons w ws =>
      have hnone : after? (w :: ws) [b] = none := after?_append_of_notMem hb []
      simp [before, hnone]
  | cons c cs ih =>
    have hafter := after?_append_of_notMem hb (c :: cs)
    rw [List.cons_append] at hafter ⊢
    rw [before, before, hafter, Option.isSome_map]
    split
    · exact .inl rfl
    · rcases ih with ih | ih
      · exact .inl (by rw [ih])
      · exact .inr (by rw [ih, List.cons_append])

theorem wordsFrom_ne_nil (cs : List Char) : wordsFrom cs ≠ [] := by
  cases cs with
  | nil => simp [wordsFrom]
  | cons c cs =>
    rw [wordsFrom]
    split
    · simp
    · cases wordsFrom cs <;> simp [extendWord]

theorem wordsFrom_append_blank (hb : isBlank b) (cs : List Char) :
    wordsFrom (cs ++ [b]) = wordsFrom cs ++ [[]] := by
  induction cs with
  | nil => simp [wordsFrom, hb]
  | cons c cs ih =>
    rw [List.cons_append, wordsFrom, wordsFrom, ih]
    split
    · rfl
    · cases hw : wordsFrom cs with
      | nil => exact absurd hw (wordsFrom_ne_nil cs)
      | cons w ws => rfl

theorem words_append_blank (hb : isBlank b) (cs : List Char) : words (cs ++ [b]) = words cs := by
  simp [words, wordsFrom_append_blank hb]

theorem lineTokens_append_blank (hb : isBlank b) (hm : b ∉ marker) (hs : b ∉ ['*', '/'])
    (line : List Char) : lineTokens (line ++ [b]) = lineTokens line := by
  rw [lineTokens, lineTokens]
  rcases afterMarker?_append_blank hb hm line with h | ⟨hnone, h⟩
  · rw [h]
    cases afterMarker? line with
    | none => rfl
    | some rest =>
      simp only [Option.map_some]
      rcases before_append_of_notMem (by simp) hs rest with hr | hr
      · rw [hr]
      · rw [hr, words_append_blank hb]
  · rw [h, hnone]
    rfl

theorem lineTokens_dropReturn (line : List Char) :
    lineTokens (dropReturn line) = lineTokens line := by
  rcases eq_dropReturn_or line with h | h
  · rw [← h]
  · have hr := lineTokens_append_blank (b := '\r') (by decide) (by decide) (by decide)
      (dropReturn line)
    rw [← h] at hr
    exact hr.symm

end TrailingBlank

/-- The tokens on the physical line with a number; none if there is no such line. -/
def tokensOn (content : String) (k : Nat) : List String :=
  ((physicalLine? content k).map lineTokens).getD []

theorem lookup_directivesFrom (n : Nat) (lines : List (List Char)) (k : Nat) :
    (directivesFrom n lines).lookup k =
      if k < n then none
      else (lines[k - n]?.map lineTokens).filter fun tokens => !tokens.isEmpty := by
  induction lines generalizing n with
  | nil => simp [directivesFrom]
  | cons line lines ih =>
    rw [directivesFrom]
    by_cases hk : k = n
    · subst hk
      by_cases ht : (lineTokens line).isEmpty
      · simp [ht, ih, Option.filter]
      · simp [ht, Option.filter]
    · have hb : (k == n) = false := by simpa using hk
      have hstep : (if (lineTokens line).isEmpty then directivesFrom (n + 1) lines
          else (n, lineTokens line) :: directivesFrom (n + 1) lines).lookup k =
            (directivesFrom (n + 1) lines).lookup k := by
        split <;> simp [List.lookup_cons, hb]
      rw [hstep, ih]
      by_cases hlt : k < n
      · rw [if_pos (by omega), if_pos hlt]
      · have hsub : k - n = k - (n + 1) + 1 := by omega
        rw [if_neg (by omega), if_neg hlt, hsub, List.getElem?_cons_succ]

/-- Carriage returns at the ends of lines and an empty last line bring no tokens. -/
theorem tokens_linesOf (pieces : List (List Char)) (i : Nat) :
    ((linesOf pieces)[i]?.map lineTokens).getD [] = (pieces[i]?.map lineTokens).getD [] := by
  rcases Nat.lt_trichotomy (i + 1) pieces.length with h | h | h
  · rw [getElem?_linesOf_of_lt h]
    cases pieces[i]? <;> simp [lineTokens_dropReturn]
  · rw [getElem?_linesOf_of_eq h]
    rcases pieces[i]? with _ | _ | ⟨c, cs⟩ <;> rfl
  · have hle := length_linesOf_le pieces
    rw [List.getElem?_eq_none (by omega), List.getElem?_eq_none (by omega)]

/-- Looking a line up among the directives gives the tokens of the physical line. -/
theorem any_lookup_directives (content : String) (k : Nat) (f : Finding) :
    (((directives content).lookup k).any fun tokens => covers tokens f) =
      covers (tokensOn content k) f := by
  have hany (tokens? : Option (List String)) :
      ((tokens?.filter fun tokens => !tokens.isEmpty).any fun tokens => covers tokens f) =
        covers (tokens?.getD []) f := by
    rcases tokens? with _ | _ | ⟨t, ts⟩ <;> rfl
  rw [directives, lookup_directivesFrom, lines_eq, tokensOn]
  cases k with
  | zero => rfl
  | succ i =>
    rw [if_neg (by omega), hany, Nat.add_sub_cancel, tokens_linesOf]
    rfl

end InjectionScan.Suppression
