import InjectionScan.Path

/-! The order of paths is total, and sorting by it is stable. -/
namespace InjectionScan

namespace Path

namespace Component

theorem before_trans {a b c : Component} (hab : a.before b = true) (hbc : b.before c = true) :
    a.before c = true := by
  cases a <;> cases b <;> cases c <;>
    simp_all only [before, before.rank, decide_eq_true_eq, Nat.reduceLT, Nat.lt_irrefl]
  exact String.lt_trans hab hbc

theorem before_asymm {a b : Component} (hab : a.before b = true) : b.before a = false := by
  cases a <;> cases b <;>
    simp_all only [before, before.rank, decide_eq_true_eq, decide_eq_false_iff_not, Nat.reduceLT,
      Nat.lt_irrefl, not_false_eq_true]
  exact String.lt_asymm hab

theorem before_or_before {a b : Component} (h : a ≠ b) :
    a.before b = true ∨ b.before a = true := by
  cases a <;> cases b <;>
    simp_all only [before, before.rank, decide_eq_true_eq, ne_eq, Component.name.injEq,
      Nat.reduceLT, not_true_eq_false, or_true, true_or]
  next s t =>
    by_cases hst : s < t
    · exact .inl hst
    · exact .inr (Std.lt_of_le_of_ne (String.not_lt.1 hst) (Ne.symm h))

end Component

theorem componentsLe_cons (a b : Component) (as bs : List Component) :
    componentsLe (a :: as) (b :: bs) = true ↔
      (a = b ∧ componentsLe as bs = true) ∨ (a ≠ b ∧ a.before b = true) := by
  rw [componentsLe]
  by_cases h : a = b <;> simp [h]

theorem componentsLe_trans {as bs cs : List Component} (hab : componentsLe as bs = true)
    (hbc : componentsLe bs cs = true) : componentsLe as cs = true := by
  induction as generalizing bs cs with
  | nil => rfl
  | cons a as ih =>
    cases bs with
    | nil => cases hab
    | cons b bs =>
      cases cs with
      | nil => cases hbc
      | cons c cs =>
        rw [componentsLe_cons] at hab hbc ⊢
        obtain ⟨rfl, hab⟩ | ⟨hne, hab⟩ := hab
        · obtain ⟨rfl, hbc⟩ | hbc := hbc
          · exact .inl ⟨rfl, ih hab hbc⟩
          · exact .inr hbc
        · obtain ⟨rfl, -⟩ | ⟨-, hbc⟩ := hbc
          · exact .inr ⟨hne, hab⟩
          · refine .inr ⟨?_, Component.before_trans hab hbc⟩
            rintro rfl
            rw [Component.before_asymm hab] at hbc
            cases hbc

theorem componentsLe_total (as bs : List Component) :
    componentsLe as bs = true ∨ componentsLe bs as = true := by
  induction as generalizing bs with
  | nil => exact .inl rfl
  | cons a as ih =>
    cases bs with
    | nil => exact .inr rfl
    | cons b bs =>
      rw [componentsLe_cons, componentsLe_cons]
      by_cases h : a = b
      · subst h
        obtain hle | hle := ih bs
        · exact .inl (.inl ⟨rfl, hle⟩)
        · exact .inr (.inl ⟨rfl, hle⟩)
      · obtain hbefore | hbefore := Component.before_or_before h
        · exact .inl (.inr ⟨h, hbefore⟩)
        · exact .inr (.inr ⟨Ne.symm h, hbefore⟩)

theorem componentsLe_antisymm {as bs : List Component} (hab : componentsLe as bs = true)
    (hba : componentsLe bs as = true) : as = bs := by
  induction as generalizing bs with
  | nil =>
    cases bs with
    | nil => rfl
    | cons b bs => cases hba
  | cons a as ih =>
    cases bs with
    | nil => cases hab
    | cons b bs =>
      rw [componentsLe_cons] at hab hba
      obtain ⟨rfl, hab⟩ | ⟨hne, hab⟩ := hab
      · obtain ⟨-, hba⟩ | ⟨hne, -⟩ := hba
        · rw [ih hab hba]
        · exact absurd rfl hne
      · obtain ⟨rfl, -⟩ | ⟨-, hba⟩ := hba
        · exact absurd rfl hne
        · rw [Component.before_asymm hab] at hba
          cases hba

/-- The strict order of paths. -/
def Precedes (p q : Path) : Prop := p.le q = true ∧ q.le p = false

theorem precedes_of_le {p q : Path} (h : p.le q = true) (hne : p.components ≠ q.components) :
    p.Precedes q := by
  refine ⟨h, ?_⟩
  cases hle : q.le p with
  | false => rfl
  | true => exact absurd (componentsLe_antisymm h hle) hne

theorem le_trans (p q r : Path) (hpq : p.le q = true) (hqr : q.le r = true) : p.le r = true :=
  componentsLe_trans hpq hqr

theorem le_total (p q : Path) : (p.le q || q.le p) = true := by
  simpa [le] using componentsLe_total p.components q.components

end Path

section Sorting

variable {α : Type} {le : α → α → Bool}

theorem takeWhile_append_of_split {a : α} {xs ys : List α} (hxs : ∀ x ∈ xs, le a x = false)
    (hys : ∀ y ∈ ys, le a y = true) : (xs ++ ys).takeWhile (fun x => !le a x) = xs := by
  rw [List.takeWhile_append_of_pos fun x hx => by simp [hxs x hx]]
  cases ys with
  | nil => simp
  | cons y ys => simp [hys y List.mem_cons_self]

theorem le_of_mem_of_mergeSort_eq
    (htrans : ∀ a b c, le a b = true → le b c = true → le a c = true)
    (htotal : ∀ a b, (le a b || le b a) = true) {a : α} {l first last : List α}
    (h : l.mergeSort le = first ++ a :: last) : ∀ y ∈ last, le a y = true := by
  have hsorted := List.pairwise_mergeSort htrans htotal l
  rw [h] at hsorted
  exact (List.pairwise_cons.1 (List.pairwise_append.1 hsorted).2.1).1

/-- Sorting and leaving out elements can change places. -/
theorem filter_mergeSort (htrans : ∀ a b c, le a b = true → le b c = true → le a c = true)
    (htotal : ∀ a b, (le a b || le b a) = true) (p : α → Bool) (l : List α) :
    (l.mergeSort le).filter p = (l.filter p).mergeSort le := by
  induction l with
  | nil => simp
  | cons a l ih =>
    obtain ⟨first, last, hall, hrest, hfirst⟩ := List.mergeSort_cons htrans htotal a l
    have hlast := le_of_mem_of_mergeSort_eq htrans htotal hall
    rw [hrest, List.filter_append] at ih
    by_cases ha : p a = true
    · obtain ⟨first', last', hall', hrest', hfirst'⟩ :=
        List.mergeSort_cons htrans htotal a (l.filter p)
      have hlast' := le_of_mem_of_mergeSort_eq htrans htotal hall'
      rw [hrest'] at ih
      -- The element stands at the same place in both, right after all that comes before it.
      have hbefore : ∀ x ∈ first.filter p, le a x = false := by
        intro x hx
        simpa using hfirst x (List.mem_filter.1 hx).1
      have hafter : ∀ y ∈ last.filter p, le a y = true := by
        intro y hy
        exact hlast y (List.mem_filter.1 hy).1
      have hsplit : first.filter p = first' := by
        rw [← takeWhile_append_of_split hbefore hafter, ih]
        exact takeWhile_append_of_split (fun x hx => by simpa using hfirst' x hx) hlast'
      rw [hsplit, List.append_cancel_left_eq] at ih
      rw [hall, List.filter_append, List.filter_cons_of_pos ha, List.filter_cons_of_pos ha, hall',
        hsplit, ih]
    · rw [hall, List.filter_append, List.filter_cons_of_neg ha, List.filter_cons_of_neg ha, ih]

end Sorting

end InjectionScan
