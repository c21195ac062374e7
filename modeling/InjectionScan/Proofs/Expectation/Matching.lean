import InjectionScan.Expectation
import Mathlib.Data.Fintype.EquivFin
import Mathlib.Data.Fintype.Fin
import Mathlib.Data.Fintype.Prod
import Mathlib.Order.Bounds.Basic

/-! Giving each expectation the first finding left that meets it is best. -/
namespace InjectionScan.Expectation

variable {es : List Expectation} {fs : List Finding} {e e' : Expectation} {f : Finding}
  {file : Path}

/-- Each expectation speaks of a line after those of the expectations before it. -/
def LinesIncrease (es : List Expectation) : Prop := es.Pairwise fun a b => a.line < b.line

/-- Some finding is what is expected. -/
def IsMet (fs : List Finding) (e : Expectation) : Prop := ∃ f ∈ fs, e.isMetBy f = true

instance : DecidablePred (IsMet fs) := fun e =>
  inferInstanceAs (Decidable (∃ f ∈ fs, e.isMetBy f = true))

section Lines

theorem line_eq_of_isMetBy (h : e.isMetBy f = true) : f.line = e.line := by
  simp only [isMetBy, Bool.and_eq_true, beq_iff_eq] at h
  exact h.1.1

theorem lt_line_of_mem_parseFrom {n : Nat} {lines : List (List Char)}
    (h : e ∈ parseFrom n lines) : n < e.line := by
  induction lines generalizing n with
  | nil => cases h
  | cons line lines ih =>
    rw [parseFrom] at h
    split at h
    · rcases List.mem_cons.1 h with rfl | h
      · exact Nat.lt_succ_self n
      · exact Nat.lt_of_succ_lt (ih h)
    · exact Nat.lt_of_succ_lt (ih h)

theorem linesIncrease_parseFrom (n : Nat) (lines : List (List Char)) :
    LinesIncrease (parseFrom n lines) := by
  induction lines generalizing n with
  | nil => exact .nil
  | cons line lines ih =>
    rw [parseFrom]
    split
    · exact List.pairwise_cons.2 ⟨fun e he => lt_line_of_mem_parseFrom he, ih (n + 1)⟩
    · exact ih (n + 1)

theorem linesIncrease_parse (source : String) : LinesIncrease (parse source) :=
  linesIncrease_parseFrom 1 _

/-- A finding meets at most one expectation, as it stands on one line. -/
theorem LinesIncrease.eq_of_isMetBy (h : LinesIncrease es) {i j : Fin es.length}
    (hi : (es.get i).isMetBy f = true) (hj : (es.get j).isMetBy f = true) : i = j := by
  have hline : (es.get i).line = (es.get j).line :=
    (line_eq_of_isMetBy hi).symm.trans (line_eq_of_isMetBy hj)
  have hlt := List.pairwise_iff_getElem.1 h
  rcases lt_trichotomy i.val j.val with hij | hij | hij
  · exact absurd hline (Nat.ne_of_lt (hlt i j i.isLt j.isLt hij))
  · exact Fin.ext hij
  · exact absurd hline (Nat.ne_of_gt (hlt j i j.isLt i.isLt hij))

end Lines

section Compare

theorem compare_cons_of_isMet (h : IsMet fs e) :
    compare file (e :: es) fs =
      { compare file es (fs.eraseP e.isMetBy) with
        matched := (compare file es (fs.eraseP e.isMetBy)).matched + 1 } := by
  obtain ⟨f, hf⟩ := Option.isSome_iff_exists.1 (List.find?_isSome.2 h)
  rw [compare, hf]

theorem compare_cons_of_not_isMet (h : ¬ IsMet fs e) :
    compare file (e :: es) fs =
      { compare file es fs with missing := e :: (compare file es fs).missing } := by
  have hnone : fs.find? e.isMetBy = none := by
    simpa [IsMet] using h
  rw [compare, hnone]

variable (file)

theorem matched_add_length_missing (es : List Expectation) (fs : List Finding) :
    (compare file es fs).matched + (compare file es fs).missing.length = es.length := by
  induction es generalizing fs with
  | nil => rfl
  | cons e es ih =>
    by_cases h : IsMet fs e
    · have := ih (fs.eraseP e.isMetBy)
      simp only [compare_cons_of_isMet h, List.length_cons]
      omega
    · have := ih fs
      simp only [compare_cons_of_not_isMet h, List.length_cons]
      omega

theorem matched_add_length_unexpected (es : List Expectation) (fs : List Finding) :
    (compare file es fs).matched + (compare file es fs).unexpected.length = fs.length := by
  induction es generalizing fs with
  | nil => simp [compare]
  | cons e es ih =>
    by_cases h : IsMet fs e
    · obtain ⟨f, hf, hmet⟩ := h
      have herase := List.length_eraseP_of_mem hf hmet
      have hpos := List.length_pos_of_mem hf
      have := ih (fs.eraseP e.isMetBy)
      simp only [compare_cons_of_isMet ⟨f, hf, hmet⟩]
      omega
    · simp only [compare_cons_of_not_isMet h]
      exact ih fs

theorem unexpected_sublist (es : List Expectation) (fs : List Finding) :
    (compare file es fs).unexpected.Sublist fs := by
  induction es generalizing fs with
  | nil => exact List.Sublist.refl fs
  | cons e es ih =>
    by_cases h : IsMet fs e
    · simp only [compare_cons_of_isMet h]
      exact (ih _).trans List.eraseP_sublist
    · simp only [compare_cons_of_not_isMet h]
      exact ih fs

/-- Taking away a finding for one line leaves what meets expectations about other lines. -/
theorem isMet_eraseP_iff (h : e.line ≠ e'.line) : IsMet (fs.eraseP e.isMetBy) e' ↔ IsMet fs e' := by
  refine exists_congr fun f => and_congr_left fun hf => ?_
  refine List.mem_eraseP_of_neg fun he => h ?_
  exact (line_eq_of_isMetBy he).symm.trans (line_eq_of_isMetBy hf)

theorem missing_compare (h : LinesIncrease es) (fs : List Finding) :
    (compare file es fs).missing = es.filter fun e => ¬ IsMet fs e := by
  induction es generalizing fs with
  | nil => rfl
  | cons e es ih =>
    obtain ⟨hfirst, hrest⟩ := List.pairwise_cons.1 h
    by_cases he : IsMet fs e
    · simp only [compare_cons_of_isMet he, ih hrest]
      rw [List.filter_cons_of_neg (by simpa using he)]
      refine List.filter_congr fun e' he' => ?_
      simp only [isMet_eraseP_iff (Nat.ne_of_lt (hfirst e' he'))]
    · simp only [compare_cons_of_not_isMet he, ih hrest]
      rw [List.filter_cons_of_pos (by simpa using he)]

theorem matched_compare (h : LinesIncrease es) (fs : List Finding) :
    (compare file es fs).matched = es.countP fun e => IsMet fs e := by
  have hsum := matched_add_length_missing file es fs
  rw [missing_compare file h] at hsum
  have hcount := List.length_eq_countP_add_countP (fun e => decide (IsMet fs e)) (l := es)
  rw [List.countP_eq_length_filter (p := fun e => ¬ decide (IsMet fs e) = true)] at hcount
  simp only [decide_eq_true_eq] at hcount
  omega

end Compare

/-- A one-to-one pairing of expectations with findings that meet them, by their places. -/
structure Pairing (es : List Expectation) (fs : List Finding) where
  pairs : Finset (Fin es.length × Fin fs.length)
  isMetBy : ∀ p ∈ pairs, (es.get p.1).isMetBy (fs.get p.2) = true
  injOn_fst : Set.InjOn Prod.fst (pairs : Set (Fin es.length × Fin fs.length))
  injOn_snd : Set.InjOn Prod.snd (pairs : Set (Fin es.length × Fin fs.length))

def Pairing.size (p : Pairing es fs) : Nat := p.pairs.card

/-- All expectations and all findings can be paired. -/
def Corresponds (es : List Expectation) (fs : List Finding) : Prop :=
  ∃ σ : Fin es.length ≃ Fin fs.length, ∀ i, (es.get i).isMetBy (fs.get (σ i)) = true

section Pairing

theorem card_filter_isMet (es : List Expectation) (fs : List Finding) :
    (Finset.univ.filter fun i : Fin es.length => IsMet fs (es.get i)).card =
      es.countP fun e => IsMet fs e := by
  induction es with
  | nil => rfl
  | cons e es ih =>
    rw [List.countP_cons, ← ih, add_comm]
    refine (Fin.card_filter_univ_succ' _).trans ?_
    by_cases he : IsMet fs e <;> simp [he]

/-- A pairing uses no expectation that is not met. -/
theorem Pairing.size_le (p : Pairing es fs) : p.size ≤ es.countP fun e => IsMet fs e := by
  rw [← card_filter_isMet, size, ← Finset.card_image_of_injOn p.injOn_fst]
  refine Finset.card_le_card fun i hi => ?_
  obtain ⟨q, hq, rfl⟩ := Finset.mem_image.1 hi
  exact Finset.mem_filter.2 ⟨Finset.mem_univ _, fs.get q.2, List.get_mem _ _, p.isMetBy q hq⟩

/-- The pairs of an expectation and the first finding that meets it. -/
def firstPairs (es : List Expectation) (fs : List Finding) :
    Finset (Fin es.length × Fin fs.length) :=
  Finset.univ.filter fun p => fs.findIdx? (es.get p.1).isMetBy = some p.2.val

theorem mem_firstPairs_iff {p : Fin es.length × Fin fs.length} :
    p ∈ firstPairs es fs ↔ fs.findIdx? (es.get p.1).isMetBy = some p.2.val := by
  simp [firstPairs]

theorem isMetBy_of_mem_firstPairs {p : Fin es.length × Fin fs.length} (h : p ∈ firstPairs es fs) :
    (es.get p.1).isMetBy (fs.get p.2) = true :=
  (List.findIdx?_eq_some_iff_getElem.1 (mem_firstPairs_iff.1 h)).2.1

theorem exists_mem_firstPairs_iff {i : Fin es.length} :
    (∃ j, (i, j) ∈ firstPairs es fs) ↔ IsMet fs (es.get i) := by
  constructor
  · rintro ⟨j, hj⟩
    exact ⟨fs.get j, List.get_mem _ _, isMetBy_of_mem_firstPairs hj⟩
  · intro hmet
    have hlt := List.findIdx_lt_length.2 hmet
    exact ⟨⟨_, hlt⟩, mem_firstPairs_iff.2 (List.findIdx?_eq_some_of_exists hmet)⟩

/-- As no finding meets two expectations, the first findings differ. -/
def firstFit (h : LinesIncrease es) (fs : List Finding) : Pairing es fs where
  pairs := firstPairs es fs
  isMetBy _ := isMetBy_of_mem_firstPairs
  injOn_fst p hp q hq he := by
    have hp := mem_firstPairs_iff.1 hp
    rw [he, mem_firstPairs_iff.1 hq] at hp
    exact Prod.ext he (Fin.ext (Option.some.inj hp).symm)
  injOn_snd p hp q hq he := by
    have hp := isMetBy_of_mem_firstPairs hp
    rw [he] at hp
    exact Prod.ext (h.eq_of_isMetBy hp (isMetBy_of_mem_firstPairs hq)) he

theorem size_firstFit (h : LinesIncrease es) (fs : List Finding) :
    (firstFit h fs).size = es.countP fun e => IsMet fs e := by
  rw [← card_filter_isMet, Pairing.size, ← Finset.card_image_of_injOn (firstFit h fs).injOn_fst]
  refine congrArg Finset.card (Finset.ext fun i => ?_)
  rw [Finset.mem_filter, ← exists_mem_firstPairs_iff]
  simp [firstFit]

/-- No pairing is larger than what is matched, and one is as large. -/
theorem isGreatest_matched (h : LinesIncrease es) (fs : List Finding) (file : Path) :
    IsGreatest {n | ∃ p : Pairing es fs, p.size = n} (compare file es fs).matched := by
  rw [matched_compare file h]
  refine ⟨⟨firstFit h fs, size_firstFit h fs⟩, ?_⟩
  rintro n ⟨p, rfl⟩
  exact p.size_le

/-- Where all expectations are met, they correspond to the findings if there are as many of both. -/
theorem corresponds_iff (h : LinesIncrease es) :
    Corresponds es fs ↔ (∀ e ∈ es, IsMet fs e) ∧ es.length = fs.length := by
  constructor
  · rintro ⟨σ, hσ⟩
    refine ⟨fun e he => ?_, by simpa using Fintype.card_congr σ⟩
    obtain ⟨i, rfl⟩ := List.mem_iff_get.1 he
    exact ⟨fs.get (σ i), List.get_mem _ _, hσ i⟩
  · rintro ⟨hmet, hlength⟩
    have htaken : ∀ i, ∃ j, (es.get i).isMetBy (fs.get j) = true := by
      intro i
      obtain ⟨f, hf, hi⟩ := hmet _ (List.get_mem es i)
      obtain ⟨j, rfl⟩ := List.mem_iff_get.1 hf
      exact ⟨j, hi⟩
    choose taken htaken using htaken
    have hinj : Function.Injective taken := fun i j hij =>
      h.eq_of_isMetBy (htaken i) (hij ▸ htaken j)
    have hbij := (Fintype.bijective_iff_injective_and_card taken).2 ⟨hinj, by simpa using hlength⟩
    exact ⟨Equiv.ofBijective taken hbij, htaken⟩

theorem passed_compare_iff (h : LinesIncrease es) (fs : List Finding) (file : Path) :
    (compare file es fs).passed = true ↔ Corresponds es fs := by
  have hmissing : (compare file es fs).missing = [] ↔ ∀ e ∈ es, IsMet fs e := by
    rw [missing_compare file h]
    simp
  have hes := matched_add_length_missing file es fs
  have hfs := matched_add_length_unexpected file es fs
  rw [Outcome.passed, Bool.and_eq_true, List.isEmpty_iff, List.isEmpty_iff, corresponds_iff h,
    ← hmissing]
  refine and_congr_right fun hnone => ?_
  rw [hnone, List.length_nil] at hes
  rw [← List.length_eq_zero_iff]
  omega

end Pairing

end InjectionScan.Expectation
