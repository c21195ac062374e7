import InjectionScan.Proofs.Path.Relative
import Mathlib.Logic.Relation

/-! The pieces of a path between its slashes, and which of them are redundant. -/
namespace InjectionScan.Path

open Text

variable {p q base child : Path} {piece next front rest : List Char} {xs ys zs : List (List Char)}

section Pieces

def pieces (p : Path) : List (List Char) := splitOn '/' p.text.toList

/-- What the first piece contributes. An empty one stands for the root if others follow it. -/
def leading : List (List Char) → List Component
  | [] => []
  | [] :: _ :: _ => [.root]
  | piece :: _ => (component? false (piece, 0)).toList

theorem pieces_ne_nil (p : Path) : p.pieces ≠ [] := splitOn_ne_nil '/' _

theorem slash_notMem_of_mem_pieces (h : piece ∈ p.pieces) : '/' ∉ piece :=
  separator_notMem_of_mem_splitOn h

theorem joinWith_pieces (p : Path) : joinWith '/' p.pieces = p.text.toList :=
  joinWith_splitOn '/' _

theorem pieces_of_slash (h : p.text.toList = front ++ '/' :: rest) :
    p.pieces = splitOn '/' front ++ splitOn '/' rest := by
  rw [pieces, h, splitOn_append]

/-- Only the empty path has nothing but an empty piece. -/
theorem pieces_eq_singleton_nil_iff : p.pieces = [[]] ↔ p.text = "" := by
  constructor
  · intro h
    have htext := joinWith_pieces p
    rw [h] at htext
    exact String.toList_eq_nil_iff.1 htext.symm
  · intro h
    rw [pieces, h]
    rfl

theorem isAbsolute_iff : p.isAbsolute = true ↔ ∃ cs, p.text.toList = '/' :: cs := by
  rw [isAbsolute, beq_iff_eq, List.head?_eq_some_iff]

theorem exists_pieces_of_absolute (h : p.isAbsolute = true) :
    ∃ next rest, p.pieces = [] :: next :: rest := by
  obtain ⟨cs, hcs⟩ := isAbsolute_iff.1 h
  obtain ⟨next, rest, hrest⟩ := List.exists_cons_of_ne_nil (splitOn_ne_nil '/' cs)
  exact ⟨next, rest, by rw [pieces, hcs, splitOn_cons_self, hrest]⟩

theorem leading_of_relative (h : p.isAbsolute = false) (hpieces : p.pieces = piece :: xs) :
    leading p.pieces = (component? false (piece, 0)).toList := by
  have htext := joinWith_pieces p
  rw [hpieces] at htext ⊢
  cases piece with
  | cons c cs => rfl
  | nil =>
    cases xs with
    | nil => rfl
    | cons next xs =>
      rw [isAbsolute_iff.2 ⟨_, htext.symm⟩] at h
      cases h

theorem components_eq_leading_append (p : Path) :
    p.components = leading p.pieces ++ p.pieces.tail.filterMap inner? := by
  cases habsolute : p.isAbsolute with
  | true =>
    obtain ⟨next, rest, hpieces⟩ := exists_pieces_of_absolute habsolute
    have hsegments : p.segments = (next :: rest).zipIdx := by
      rw [segments, habsolute, if_pos rfl]
      exact congrArg (fun l => l.tail.zipIdx) hpieces
    rw [components, habsolute, if_pos rfl, hsegments, filterMap_zipIdx (.inl rfl), hpieces]
    rfl
  | false =>
    obtain ⟨piece, rest, hpieces⟩ := List.exists_cons_of_ne_nil p.pieces_ne_nil
    have hsegments : p.segments = (piece, 0) :: rest.zipIdx 1 := by
      rw [segments, habsolute]
      exact congrArg List.zipIdx hpieces
    have hrest : rest.filterMap inner? = (rest.zipIdx 1).filterMap (component? false) := by
      rw [← map_fst_filterMap_inner?, List.zipIdx_map_fst]
      intro s hs
      have hle := List.le_snd_of_mem_zipIdx hs
      exact .inr (by omega)
    rw [leading_of_relative habsolute hpieces, components, habsolute, hsegments, hpieces,
      List.tail_cons, hrest, List.filterMap_cons]
    cases component? false (piece, 0) <;> rfl

/-- A path other than the empty one has a first component, and the pieces after the first one give
the others. -/
theorem exists_components_eq_cons (h : p.text ≠ "") :
    ∃ c, leading p.pieces = [c] ∧ p.components = c :: p.pieces.tail.filterMap inner? := by
  obtain ⟨c, hc⟩ : ∃ c, leading p.pieces = [c] := by
    obtain ⟨piece, rest, hpieces⟩ := List.exists_cons_of_ne_nil p.pieces_ne_nil
    rw [hpieces]
    cases piece with
    | nil =>
      cases rest with
      | nil => exact absurd (pieces_eq_singleton_nil_iff.1 hpieces) h
      | cons next rest => exact ⟨.root, rfl⟩
    | cons d ds =>
      show ∃ c, (component? false (d :: ds, 0)).toList = [c]
      rw [component?.eq_def]
      split <;> simp_all
  exact ⟨c, hc, by rw [components_eq_leading_append, hc]; rfl⟩

theorem components_eq_nil_iff : p.components = [] ↔ p.text = "" := by
  constructor
  · intro h
    by_contra hne
    obtain ⟨c, -, hc⟩ := exists_components_eq_cons hne
    rw [hc] at h
    cases h
  · intro h
    rw [components_eq_leading_append, pieces_eq_singleton_nil_iff.2 h]
    rfl

theorem mem_tail_components_iff {c : Component} :
    c ∈ p.components.tail ↔ ∃ piece ∈ p.pieces.tail, inner? piece = some c := by
  by_cases h : p.text = ""
  · rw [components_eq_nil_iff.2 h, pieces_eq_singleton_nil_iff.2 h]
    simp
  · obtain ⟨first, -, hcomponents⟩ := exists_components_eq_cons h
    rw [hcomponents, List.tail_cons, List.mem_filterMap]

/-- What follows the first piece does not matter to it as long as something does. -/
theorem leading_append_cons (h : xs ≠ []) :
    leading (xs ++ piece :: ys) = leading (xs ++ next :: zs) := by
  obtain ⟨first, rest, rfl⟩ := List.exists_cons_of_ne_nil h
  cases first <;> cases rest <;> rfl

theorem leading_append (h : xs ≠ []) (hxs : xs ≠ [[]]) : leading (xs ++ ys) = leading xs := by
  obtain ⟨first, rest, rfl⟩ := List.exists_cons_of_ne_nil h
  cases first with
  | cons c cs => cases rest <;> rfl
  | nil =>
    cases rest with
    | nil => exact absurd rfl hxs
    | cons next rest => rfl

end Pieces

section Redundancy

/-- The second text is the first one with a redundant separator or with a redundant `.`, which does
not stand at its start. -/
inductive Redundant : List Char → List Char → Prop where
  | separator (front rest : List Char) :
      Redundant (front ++ '/' :: rest) (front ++ '/' :: '/' :: rest)
  | dot (front rest : List Char) :
      Redundant (front ++ '/' :: rest) (front ++ '/' :: '.' :: '/' :: rest)
  | lastSeparator {front : List Char} (h : front ≠ []) : Redundant front (front ++ ['/'])
  | lastDot (front : List Char) : Redundant (front ++ ['/']) (front ++ ['/', '.'])

/-- The texts differ in redundant separators and dots only. -/
def SameButRedundant (p q : Path) : Prop :=
  Relation.EqvGen Redundant p.text.toList q.text.toList

/-- Nothing in the text is redundant. -/
def IsPlain (p : Path) : Prop := ∀ text, ¬ Redundant text p.text.toList

theorem components_eq_of_pieces (hxs : xs ≠ []) (hp : p.pieces = xs ++ piece :: ys)
    (hq : q.pieces = xs ++ next :: zs)
    (h : (piece :: ys).filterMap inner? = (next :: zs).filterMap inner?) :
    p.components = q.components := by
  rw [components_eq_leading_append, components_eq_leading_append, hp, hq, leading_append_cons hxs,
    List.tail_append_of_ne_nil hxs, List.tail_append_of_ne_nil hxs, List.filterMap_append,
    List.filterMap_append, h]

/-- A piece after a slash that contributes nothing can be left out. -/
theorem components_eq_of_skipped (hslash : '/' ∉ piece) (hpiece : inner? piece = none)
    (hp : p.text.toList = front ++ '/' :: rest)
    (hq : q.text.toList = front ++ '/' :: (piece ++ '/' :: rest)) :
    p.components = q.components := by
  obtain ⟨next, ys, hrest⟩ := List.exists_cons_of_ne_nil (splitOn_ne_nil '/' rest)
  have hppieces := pieces_of_slash hp
  have hqpieces := pieces_of_slash hq
  rw [hrest] at hppieces
  rw [splitOn_append_cons hslash, hrest] at hqpieces
  refine components_eq_of_pieces (splitOn_ne_nil '/' front) hppieces hqpieces ?_
  rw [List.filterMap_cons_none hpiece]

/-- A slash at the end makes no difference unless nothing stands before it. -/
theorem components_eq_of_lastSlash (hne : p.text ≠ "")
    (hq : q.text.toList = p.text.toList ++ ['/']) : p.components = q.components := by
  have hfirst : p.pieces ≠ [[]] := fun h => hne (pieces_eq_singleton_nil_iff.1 h)
  have hpieces : q.pieces = p.pieces ++ [[]] := pieces_of_slash hq
  rw [components_eq_leading_append, components_eq_leading_append, hpieces,
    leading_append p.pieces_ne_nil hfirst, List.tail_append_of_ne_nil p.pieces_ne_nil,
    List.filterMap_append]
  exact congrArg _ (List.append_nil _).symm

theorem components_eq_of_redundant (h : Redundant p.text.toList q.text.toList) :
    p.components = q.components := by
  generalize hp : p.text.toList = cs, hq : q.text.toList = ds at h
  cases h with
  | separator front rest => exact components_eq_of_skipped List.not_mem_nil rfl hp hq
  | dot front rest => exact components_eq_of_skipped (show '/' ∉ ['.'] by decide) rfl hp hq
  | lastSeparator hne =>
    refine components_eq_of_lastSlash (fun hempty => hne ?_) (hp ▸ hq)
    rw [← hp, hempty]
    rfl
  | lastDot front =>
    exact components_eq_of_pieces (splitOn_ne_nil '/' front) (pieces_of_slash hp)
      (pieces_of_slash hq) rfl

theorem SameButRedundant.components_eq (h : p.SameButRedundant q) :
    p.components = q.components := by
  have hall {cs ds : List Char} (h : Relation.EqvGen Redundant cs ds) :
      (Path.mk (String.ofList cs)).components = (Path.mk (String.ofList ds)).components := by
    induction h with
    | rel cs ds h => exact components_eq_of_redundant (by simpa only [String.toList_ofList] using h)
    | refl cs => rfl
    | symm cs ds _ ih => exact ih.symm
    | trans cs ds es _ _ ih ih' => exact ih.trans ih'
  simpa only [String.ofList_toList] using hall h

/-- Where something is redundant: a slash, and an empty piece or a dot right after it. -/
theorem exists_piece_of_redundant {cs ds : List Char} (h : Redundant cs ds) :
    ∃ front rest piece, ds = front ++ '/' :: rest ∧ (front = [] → rest ≠ []) ∧
      piece ∈ splitOn '/' rest ∧ (piece = [] ∨ piece = ['.']) := by
  cases h with
  | separator front rest =>
    refine ⟨front, '/' :: rest, [], rfl, fun _ => List.cons_ne_nil _ _, ?_, .inl rfl⟩
    rw [splitOn_cons_self]
    exact List.mem_cons_self
  | dot front rest =>
    refine ⟨front, '.' :: '/' :: rest, ['.'], rfl, fun _ => List.cons_ne_nil _ _, ?_, .inr rfl⟩
    rw [show '.' :: '/' :: rest = ['.'] ++ '/' :: rest from rfl, splitOn_append_cons (by decide)]
    exact List.mem_cons_self
  | lastSeparator hne =>
    exact ⟨cs, [], [], rfl, fun hnil => absurd hnil hne, List.mem_cons_self, .inl rfl⟩
  | lastDot front =>
    exact ⟨front, ['.'], ['.'], rfl, fun _ => List.cons_ne_nil _ _, List.mem_cons_self, .inr rfl⟩

theorem exists_redundant_of_mem_tail (hpiece : piece ∈ p.pieces.tail)
    (h : piece = [] ∨ piece = ['.']) (hroot : p.text ≠ "/") :
    ∃ text, Redundant text p.text.toList := by
  obtain ⟨first, rest, hpieces⟩ := List.exists_cons_of_ne_nil p.pieces_ne_nil
  rw [hpieces, List.tail_cons] at hpiece
  obtain ⟨xs, ys, rfl⟩ := List.append_of_mem hpiece
  have htext : p.text.toList = joinWith '/' (first :: xs) ++ '/' :: joinWith '/' (piece :: ys) := by
    rw [← joinWith_pieces, hpieces, ← List.cons_append, joinWith_append (by simp) (by simp)]
  rw [htext]
  by_cases hys : ys = []
  · subst hys
    rcases h with rfl | rfl
    · by_cases hfront : joinWith '/' (first :: xs) = []
      · rw [hfront] at htext
        exact absurd (String.toList_inj.1 htext) hroot
      · exact ⟨_, .lastSeparator hfront⟩
    · exact ⟨_, .lastDot _⟩
  · rw [joinWith_cons _ hys]
    rcases h with rfl | rfl
    · exact ⟨_, .separator _ _⟩
    · exact ⟨_, .dot _ _⟩

theorem isPlain_iff :
    p.IsPlain ↔ p.text = "/" ∨ ∀ piece ∈ p.pieces.tail, piece ≠ [] ∧ piece ≠ ['.'] := by
  constructor
  · intro h
    by_cases hroot : p.text = "/"
    · exact .inl hroot
    · refine .inr fun piece hpiece => not_or.1 fun hredundant => ?_
      obtain ⟨text, htext⟩ := exists_redundant_of_mem_tail hpiece hredundant hroot
      exact h text htext
  · intro h text hredundant
    obtain ⟨front, rest, piece, htext, hne, hpiece, hpieces⟩ := exists_piece_of_redundant hredundant
    rcases h with hroot | hall
    · rw [hroot] at htext
      cases front with
      | nil => exact hne rfl (List.cons.inj htext).2.symm
      | cons c front => simpa using congrArg List.length htext
    · refine not_or.2 (hall piece ?_) hpieces
      rw [pieces_of_slash htext, List.tail_append_of_ne_nil (splitOn_ne_nil '/' front)]
      exact List.mem_append_right _ hpiece

instance (p : Path) : Decidable p.IsPlain := decidable_of_iff _ isPlain_iff.symm

end Redundancy

section Join

theorem filterMap_pieces (hchild : child.isAbsolute = false) (hhere : .here ∉ child.components) :
    child.pieces.filterMap inner? = child.components := by
  obtain ⟨piece, rest, hpieces⟩ := List.exists_cons_of_ne_nil child.pieces_ne_nil
  have hcomponents := components_eq_leading_append child
  rw [leading_of_relative hchild hpieces, hpieces, List.tail_cons] at hcomponents
  have hpiece : piece ≠ ['.'] := by
    rintro rfl
    rw [hcomponents] at hhere
    exact hhere List.mem_cons_self
  rw [hcomponents, hpieces, component?_eq_inner? (.inr (.inr hpiece)), List.filterMap_cons]
  cases inner? piece <;> rfl

/-- More pieces after those of a path add their components to it. An empty piece at its end, from a
slash there, gives way to them. -/
theorem components_append_pieces (hxs : xs ≠ []) (hys : ys ≠ []) (hq : q.pieces = xs ++ ys)
    (h : base.pieces = xs ∧ xs ≠ [[]] ∨ base.pieces = xs ++ [[]]) :
    q.components = base.components ++ ys.filterMap inner? := by
  obtain ⟨next, rest, rfl⟩ := List.exists_cons_of_ne_nil hys
  have hbase : base.components = leading (xs ++ next :: rest) ++ xs.tail.filterMap inner? := by
    rw [components_eq_leading_append]
    rcases h with ⟨h, hfirst⟩ | h
    · rw [h, leading_append hxs hfirst]
    · rw [h, leading_append_cons hxs, List.tail_append_of_ne_nil hxs, List.filterMap_append]
      exact congrArg _ (List.append_nil _)
  rw [components_eq_leading_append, hq, List.tail_append_of_ne_nil hxs, List.filterMap_append,
    hbase, List.append_assoc]

/-- The components of a path and of one below it come one after the other. -/
theorem components_join (base : Path) (hchild : child.isAbsolute = false)
    (hhere : .here ∉ child.components) :
    (base.join child).components = base.components ++ child.components := by
  by_cases hempty : base.text = ""
  · have hjoin : base.join child = child := by simp [join, hchild, hempty]
    rw [hjoin, components_eq_nil_iff.2 hempty, List.nil_append]
  rw [← filterMap_pieces hchild hhere]
  by_cases hslash : base.text.toList.getLast? = some '/'
  · obtain ⟨front, hfront⟩ := List.getLast?_eq_some_iff.1 hslash
    have hjoin : (base.join child).text.toList = front ++ '/' :: child.text.toList := by
      simp [join, hchild, hfront]
    exact components_append_pieces (splitOn_ne_nil '/' front) child.pieces_ne_nil
      (pieces_of_slash hjoin) (.inr (pieces_of_slash hfront))
  · have hjoin : (base.join child).text.toList = base.text.toList ++ '/' :: child.text.toList := by
      simp [join, hchild, hempty, hslash]
    refine components_append_pieces base.pieces_ne_nil child.pieces_ne_nil (pieces_of_slash hjoin)
      (.inl ⟨rfl, fun hnil => hempty (pieces_eq_singleton_nil_iff.1 hnil)⟩)

end Join

end InjectionScan.Path
