import InjectionScan.Proofs.Text.Cutting

/-! Patterns with an order of preference, of which the first way to match counts. -/
namespace InjectionScan.Text

/-- What was taken from the front of a text, with the groups in it, and the rest of the text. -/
structure Way where
  groups : List (Nat × List Char)
  taken : List Char
  rest : List Char

namespace Way

/-- The way that takes nothing. -/
def stay (cs : List Char) : Way := ⟨[], [], cs⟩

def push (c : Char) (w : Way) : Way := { w with taken := c :: w.taken }

def append (w next : Way) : Way := ⟨w.groups ++ next.groups, w.taken ++ next.taken, next.rest⟩

def grouped (n : Nat) (w : Way) : Way := { w with groups := (n, w.taken) :: w.groups }

end Way

inductive Pattern where
  | literal (word : List Char)
  | one (p : Char → Bool)
  | many (p : Char → Bool)
  | few (p : Char → Bool)
  | optional (inner : Pattern)
  | seq (first next : Pattern)
  | group (n : Nat) (inner : Pattern)
  | atEnd

/-- The runs of a class at the front of a text, short ones first. -/
def runs (p : Char → Bool) : List Char → List Way
  | [] => [.stay []]
  | c :: cs => .stay (c :: cs) :: if p c then (runs p cs).map (.push c) else []

namespace Pattern

/-- One character of a class or more, as many as possible. -/
def several (p : Char → Bool) : Pattern := .seq (.one p) (.many p)

/-- The ways to match the front of a text, in the order in which they are tried. -/
def ways : Pattern → List Char → List Way
  | literal word, cs => ((after? word cs).map fun rest => ⟨[], word, rest⟩).toList
  | one _, [] => []
  | one p, c :: cs => if p c then [⟨[], [c], cs⟩] else []
  | many p, cs => (runs p cs).reverse
  | few p, cs => runs p cs
  | optional inner, cs => inner.ways cs ++ [.stay cs]
  | seq first next, cs => (first.ways cs).flatMap fun w => (next.ways w.rest).map w.append
  | group n inner, cs => (inner.ways cs).map (Way.grouped n)
  | atEnd, cs => if cs.isEmpty then [.stay cs] else []

/-- The groups of the preferred way. -/
def captures (a : Pattern) (cs : List Char) : Option (List (Nat × List Char)) :=
  (a.ways cs).head?.map Way.groups

/-- The groups of the match in a text: of the preferred way at the first place where there is one. -/
def find? (a : Pattern) (cs : List Char) : Option (List (Nat × List Char)) :=
  firstPlace? a.captures cs

end Pattern

section Runs

variable {β : Type} {p : Char → Bool} {cs : List Char} {w : Way} {k : Way → Option β}

theorem mem_runs_iff :
    w ∈ runs p cs ↔ w.groups = [] ∧ cs = w.taken ++ w.rest ∧ ∀ c ∈ w.taken, p c = true := by
  obtain ⟨groups, taken, rest⟩ := w
  induction cs generalizing taken with
  | nil =>
    simp only [runs, Way.stay, List.mem_singleton, Way.mk.injEq, List.nil_eq_append_iff]
    constructor
    · rintro ⟨rfl, rfl, rfl⟩
      exact ⟨rfl, ⟨rfl, rfl⟩, by simp⟩
    · rintro ⟨rfl, ⟨rfl, rfl⟩, -⟩
      exact ⟨rfl, rfl, rfl⟩
  | cons c cs ih =>
    rw [runs, List.mem_cons]
    constructor
    · rintro (heq | hmem)
      · cases heq
        simp
      · split at hmem
        · next hc =>
          obtain ⟨w, hw, heq⟩ := List.mem_map.1 hmem
          obtain ⟨wgroups, wtaken, wrest⟩ := w
          cases heq
          obtain ⟨hgroups, hcut, hall⟩ := (ih _).1 hw
          refine ⟨hgroups, by simpa using hcut, ?_⟩
          intro d hd
          rcases List.mem_cons.1 hd with rfl | hd
          · exact hc
          · exact hall d hd
        · cases hmem
    · rintro ⟨hgroups, hcut, hall⟩
      cases taken with
      | nil =>
        left
        simp only [List.nil_append] at hcut hgroups
        rw [Way.stay, hgroups, hcut]
      | cons d taken =>
        right
        obtain ⟨rfl, hcut⟩ := List.cons.inj hcut
        rw [if_pos (hall c List.mem_cons_self)]
        refine List.mem_map.2 ⟨⟨groups, taken, rest⟩, ?_, rfl⟩
        exact (ih _).2 ⟨hgroups, hcut, fun e he => hall e (List.mem_cons_of_mem c he)⟩

/-- The longest run is the last one. -/
theorem exists_runs_eq (p : Char → Bool) (cs : List Char) :
    ∃ shorter, runs p cs = shorter ++ [⟨[], cs.takeWhile p, cs.dropWhile p⟩] := by
  induction cs with
  | nil => exact ⟨[], rfl⟩
  | cons c cs ih =>
    obtain ⟨shorter, hruns⟩ := ih
    rw [runs]
    by_cases hc : p c = true
    · refine ⟨.stay (c :: cs) :: shorter.map (.push c), ?_⟩
      simp [hc, hruns, Way.push]
    · exact ⟨[], by simp [hc, Way.stay]⟩

/-- A run that is not the longest stops before a character of the class. -/
theorem rest_of_mem_runs (h : w ∈ runs p cs) :
    w = ⟨[], cs.takeWhile p, cs.dropWhile p⟩ ∨ ∃ c rest, w.rest = c :: rest ∧ p c = true := by
  obtain ⟨hgroups, hcut, hall⟩ := mem_runs_iff.1 h
  obtain ⟨groups, taken, rest⟩ := w
  cases rest with
  | nil =>
    left
    simp only [List.append_nil] at hcut hgroups hall
    rw [hgroups, hcut, List.takeWhile_eq_self_iff.2 hall, List.dropWhile_eq_nil_iff.2 hall]
  | cons c rest =>
    by_cases hc : p c = true
    · exact .inr ⟨c, rest, rfl, hc⟩
    · left
      have hstop : ∀ d ∈ (c :: rest).head?, p d = false := by
        rintro d ⟨⟩
        simpa using hc
      simp only at hcut hgroups hall
      rw [hgroups, hcut, takeWhile_append_of_stop hall hstop, dropWhile_append_of_stop hall hstop]

/-- If going on fails after the longest run only where it fails after all of them, then the longest
run decides. -/
theorem findSome?_runs_reverse
    (h : k ⟨[], cs.takeWhile p, cs.dropWhile p⟩ = none → ∀ w ∈ runs p cs, k w = none) :
    (runs p cs).reverse.findSome? k = k ⟨[], cs.takeWhile p, cs.dropWhile p⟩ := by
  obtain ⟨shorter, hruns⟩ := exists_runs_eq p cs
  rw [hruns, List.reverse_append, List.reverse_singleton, List.singleton_append,
    List.findSome?_cons]
  cases hk : k ⟨[], cs.takeWhile p, cs.dropWhile p⟩ with
  | some b => rfl
  | none =>
    refine List.findSome?_eq_none_iff.2 fun w hw => h hk w ?_
    rw [hruns]
    exact List.mem_append_left _ (List.mem_reverse.1 hw)

/-- The text up to the first place with a property. -/
def upTo (q : List Char → Bool) : List Char → List Char
  | [] => []
  | c :: cs => if q (c :: cs) then [] else c :: upTo q cs

theorem drop_upTo {q : List Char → Bool} (hend : q [] = true) (cs : List Char) :
    q (cs.drop (upTo q cs).length) = true := by
  induction cs with
  | nil => exact hend
  | cons c cs ih =>
    rw [upTo]
    split
    · next hq => exact hq
    · exact ih

/-- A reader that takes a character at a time, or nothing, takes the text up to the first place where
it takes nothing. -/
theorem upTo_isEmpty {f : List Char → List Char} (hnil : f [] = [])
    (hcons : ∀ c cs, f (c :: cs) = [] ∨ f (c :: cs) = c :: f cs) (cs : List Char) :
    upTo (fun cs => (f cs).isEmpty) cs = f cs := by
  induction cs with
  | nil => exact hnil.symm
  | cons c cs ih =>
    rw [upTo]
    rcases hcons c cs with h | h
    · simp [h]
    · simp [h, ih]

/-- The shortest run after which going on succeeds is the text up to the first such place. -/
theorem findSome?_runs {q : List Char → Bool} (hall : ∀ c ∈ cs, p c = true) (hend : q [] = true)
    (hk : ∀ taken front rest, cs = front ++ rest → (k ⟨[], taken, rest⟩).isSome = q rest) :
    (runs p cs).findSome? k = k ⟨[], upTo q cs, cs.drop (upTo q cs).length⟩ := by
  induction cs generalizing k with
  | nil =>
    have hsome : (k ⟨[], [], []⟩).isSome = true := (hk [] [] [] rfl).trans hend
    obtain ⟨b, hb⟩ := Option.isSome_iff_exists.1 hsome
    simp [runs, Way.stay, upTo, hb]
  | cons c cs ih =>
    have hhere := hk [] [] (c :: cs) rfl
    rw [runs, List.findSome?_cons, Way.stay, upTo]
    by_cases hq : q (c :: cs) = true
    · rw [hq] at hhere
      obtain ⟨b, hb⟩ := Option.isSome_iff_exists.1 hhere
      simp [hq, hb]
    · have hnone : k ⟨[], [], c :: cs⟩ = none := by simpa [hq] using hhere
      obtain ⟨hc, hrest⟩ := List.forall_mem_cons.1 hall
      have hlater := ih (k := fun w => k (w.push c)) hrest fun taken front rest heq =>
        hk (c :: taken) (c :: front) rest (by rw [heq, List.cons_append])
      simp only [hnone, hc, if_true, hq, Bool.false_eq_true, if_false, List.findSome?_map,
        Function.comp_def, List.length_cons, List.drop_succ_cons]
      exact hlater

end Runs

namespace Pattern

variable {a b c : Pattern} {p : Char → Bool} {cs : List Char} {n : Nat}

section Ways

variable (a b : Pattern) (p : Char → Bool) (n : Nat) (cs : List Char)

theorem ways_literal (word : List Char) :
    (literal word).ways cs = ((after? word cs).map fun rest => ⟨[], word, rest⟩).toList := rfl

theorem ways_one_cons (c : Char) : (one p).ways (c :: cs) = if p c then [⟨[], [c], cs⟩] else [] := rfl

theorem ways_many : (many p).ways cs = (runs p cs).reverse := rfl

theorem ways_few : (few p).ways cs = runs p cs := rfl

theorem ways_optional : a.optional.ways cs = a.ways cs ++ [.stay cs] := rfl

theorem ways_seq :
    (a.seq b).ways cs = (a.ways cs).flatMap fun w => (b.ways w.rest).map w.append := rfl

theorem ways_group : (group n a).ways cs = (a.ways cs).map (Way.grouped n) := rfl

theorem ways_atEnd : atEnd.ways cs = if cs.isEmpty then [.stay cs] else [] := rfl

end Ways

theorem captures_seq (a b : Pattern) (cs : List Char) :
    (a.seq b).captures cs =
      (a.ways cs).findSome? fun w => (b.captures w.rest).map (w.groups ++ ·) := by
  rw [captures, ways_seq, List.head?_flatMap, List.map_findSome?]
  congr 1
  funext w
  simp only [Function.comp_apply, captures, List.head?_map, Option.map_map]
  rfl

theorem captures_seq_assoc (a b c : Pattern) (cs : List Char) :
    ((a.seq b).seq c).captures cs = (a.seq (b.seq c)).captures cs := by
  have hways : ((a.seq b).seq c).ways cs = (a.seq (b.seq c)).ways cs := by
    simp only [ways_seq, List.flatMap_assoc, List.flatMap_map, List.map_flatMap, List.map_map]
    congr 1
    funext w
    congr 1
    funext v
    congr 1
    funext u
    simp [Way.append]
  rw [captures, captures, hways]

theorem captures_literal_seq (word : List Char) (b : Pattern) (cs : List Char) :
    ((literal word).seq b).captures cs = (after? word cs).bind b.captures := by
  rw [captures_seq, ways_literal]
  cases after? word cs with
  | none => rfl
  | some rest => simp

theorem captures_optional_seq (a b : Pattern) (cs : List Char) :
    (a.optional.seq b).captures cs = ((a.seq b).captures cs).or (b.captures cs) := by
  rw [captures_seq, captures_seq, ways_optional, List.findSome?_append]
  simp [Way.stay]

theorem captures_atEnd (cs : List Char) :
    atEnd.captures cs = if cs.isEmpty then some [] else none := by
  rw [captures, ways_atEnd]
  split <;> rfl

/-- The longest run of a class, if what follows fails after a shorter one where it fails after it. -/
theorem captures_many_seq
    (h : b.captures (cs.dropWhile p) = none → ∀ front c rest, cs = front ++ c :: rest →
      (∀ d ∈ front, p d = true) → p c = true → b.captures (c :: rest) = none) :
    ((many p).seq b).captures cs = b.captures (cs.dropWhile p) := by
  rw [captures_seq, ways_many, findSome?_runs_reverse]
  · simp
  · intro hlongest w hw
    rw [Option.map_eq_none_iff] at hlongest ⊢
    rcases rest_of_mem_runs hw with rfl | ⟨c, rest, hrest, hc⟩
    · exact hlongest
    · obtain ⟨-, hcut, hall⟩ := mem_runs_iff.1 hw
      rw [hrest] at hcut ⊢
      exact h hlongest w.taken c rest hcut hall hc

theorem captures_several_seq (b : Pattern) (cs : List Char) :
    ((several p).seq b).captures cs =
      match cs with
      | [] => none
      | c :: cs => if p c then ((many p).seq b).captures cs else none := by
  rw [several, captures_seq_assoc, captures_seq]
  cases cs with
  | nil => rfl
  | cons c cs => by_cases hc : p c = true <;> simp [ways_one_cons, hc]

/-- A group of several characters of a class, if what follows cannot start with one of them. -/
theorem captures_group_several_seq
    (h : ∀ c rest, p c = true → b.captures (c :: rest) = none) (cs : List Char) :
    ((group n (several p)).seq b).captures cs =
      if (cs.takeWhile p).isEmpty then none
      else (b.captures (cs.dropWhile p)).map ((n, cs.takeWhile p) :: ·) := by
  rw [captures_seq, ways_group, List.findSome?_map]
  cases cs with
  | nil => rfl
  | cons c cs =>
    by_cases hc : p c = true
    · simp only [several, ways_seq, ways_one_cons, ways_many, hc, if_true, List.flatMap_singleton, List.findSome?_map,
        List.takeWhile_cons_of_pos, List.dropWhile_cons_of_pos, List.isEmpty_cons,
        Bool.false_eq_true, if_false]
      rw [findSome?_runs_reverse]
      · simp [Way.append, Way.grouped]
      · intro hlongest w hw
        simp only [Function.comp_apply, Way.append, Way.grouped, Option.map_eq_none_iff] at hlongest ⊢
        rcases rest_of_mem_runs hw with rfl | ⟨d, rest, hrest, hd⟩
        · exact hlongest
        · rw [hrest]
          exact h d rest hd
    · simp [several, ways_seq, ways_one_cons, hc]

/-- A group of few characters of a class that all of the text belongs to. -/
theorem captures_group_few_seq {q : List Char → Bool} (hall : ∀ c ∈ cs, p c = true)
    (hend : q [] = true)
    (hq : ∀ front rest, cs = front ++ rest → (b.captures rest).isSome = q rest) :
    ((group n (few p)).seq b).captures cs =
      (b.captures (cs.drop (upTo q cs).length)).map ((n, upTo q cs) :: ·) := by
  rw [captures_seq, ways_group, List.findSome?_map, ways_few, findSome?_runs hall hend]
  · simp [Way.grouped]
  · intro taken front rest heq
    simp [Way.grouped, hq front rest heq]

end Pattern

end InjectionScan.Text
