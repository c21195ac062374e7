/-! Runs of characters at the front of a text, and runs of decimal digits as numbers are written. -/
namespace InjectionScan.Text

variable {p : Char → Bool} {cs rest : List Char}

/-- A run ends where a character is not of its kind. -/
theorem takeWhile_append_of_stop (h : ∀ c ∈ cs, p c = true) (hrest : ∀ c ∈ rest.head?, p c = false) :
    (cs ++ rest).takeWhile p = cs := by
  rw [List.takeWhile_append_of_pos h]
  cases rest with
  | nil => simp
  | cons c rest => rw [List.takeWhile_cons_of_neg (by simp [hrest c rfl]), List.append_nil]

theorem dropWhile_append_of_stop (h : ∀ c ∈ cs, p c = true) (hrest : ∀ c ∈ rest.head?, p c = false) :
    (cs ++ rest).dropWhile p = rest := by
  rw [List.dropWhile_append_of_pos h]
  cases rest with
  | nil => rfl
  | cons c rest => rw [List.dropWhile_cons_of_neg (by simp [hrest c rfl])]

theorem not_of_mem_head?_dropWhile {α : Type} (p : α → Bool) (l : List α) :
    ∀ a ∈ (l.dropWhile p).head?, p a = false := by
  intro a ha
  have hstop := List.head?_dropWhile_not p l
  rw [Option.mem_def.1 ha] at hstop
  exact hstop

theorem digitChar_ne_zero {n : Nat} (h : 0 < n) (hn : n < 10) : n.digitChar ≠ '0' := by
  have hall : ∀ k < 10, 0 < k → k.digitChar ≠ '0' := by decide
  exact hall n hn h

/-- A number other than zero is written without a zero in front. -/
theorem exists_toDigits_eq_cons {n : Nat} (h : 0 < n) :
    ∃ d ds, Nat.toDigits 10 n = d :: ds ∧ d ≠ '0' := by
  induction n using Nat.strongRecOn with
  | ind n ih =>
    by_cases hn : n < 10
    · exact ⟨_, _, Nat.toDigits_of_lt_base hn, digitChar_ne_zero h hn⟩
    · obtain ⟨d, ds, hd, hne⟩ := ih (n / 10) (by omega) (by omega)
      refine ⟨d, ds ++ [(n % 10).digitChar], ?_, hne⟩
      rw [Nat.toDigits_of_base_le (by decide) (by omega), hd, List.cons_append]

theorem isDigit_of_mem_toDigits {n : Nat} {c : Char} (h : c ∈ Nat.toDigits 10 n) :
    ('0' ≤ c && c ≤ '9') = true :=
  Nat.isDigit_of_mem_toDigits (by decide) (by decide) h

theorem ne_of_isDigit {c x : Char} (h : ('0' ≤ c && c ≤ '9') = true)
    (hx : ('0' ≤ x && x ≤ '9') = false) : c ≠ x := by
  rintro rfl
  rw [h] at hx
  cases hx

end InjectionScan.Text
