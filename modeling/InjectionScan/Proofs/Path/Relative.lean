import InjectionScan.Path
import InjectionScan.Proofs.Text.PhysicalLine
import InjectionScan.Proofs.Text.Runs
import Mathlib.Data.List.Basic

/-! A path is below a base exactly if its components start with those of the base. -/
namespace InjectionScan

namespace Text

variable {separator : Char} {xs ys : List (List Char)}

theorem joinWith_cons (piece : List Char) (h : xs ≠ []) :
    joinWith separator (piece :: xs) = piece ++ separator :: joinWith separator xs := by
  cases xs with
  | nil => exact absurd rfl h
  | cons _ _ => rfl

theorem joinWith_splitOn (separator : Char) (cs : List Char) :
    joinWith separator (splitOn separator cs) = cs := by
  induction cs with
  | nil => rfl
  | cons c cs ih =>
    by_cases hc : c = separator
    · subst hc
      rw [splitOn_cons_self, joinWith_cons _ (splitOn_ne_nil c cs), ih]
      rfl
    · rw [splitOn_cons_of_ne hc]
      cases hs : splitOn separator cs with
      | nil => exact absurd hs (splitOn_ne_nil separator cs)
      | cons piece pieces =>
        rw [hs] at ih
        rw [List.modifyHead_cons]
        cases pieces with
        | nil => exact congrArg (c :: ·) ih
        | cons _ _ => exact congrArg (c :: ·) ih

theorem joinWith_append (hx : xs ≠ []) (hy : ys ≠ []) :
    joinWith separator (xs ++ ys) = joinWith separator xs ++ separator :: joinWith separator ys := by
  induction xs with
  | nil => exact absurd rfl hx
  | cons piece xs ih =>
    cases xs with
    | nil => exact joinWith_cons piece hy
    | cons next xs =>
      rw [List.cons_append, joinWith_cons piece (by simp), ih (by simp),
        joinWith_cons piece (List.cons_ne_nil next xs), List.append_assoc, List.cons_append]

theorem joinWith_prefix_joinWith (h : xs <+: ys) :
    joinWith separator xs <+: joinWith separator ys := by
  obtain ⟨rest, rfl⟩ := h
  by_cases hx : xs = []
  · subst hx
    exact List.nil_prefix
  · by_cases hrest : rest = []
    · subst hrest
      exact ⟨[], by rw [List.append_nil, List.append_nil]⟩
    · rw [joinWith_append hx hrest]
      exact List.prefix_append _ _

theorem joinWith_suffix_joinWith (h : xs <:+ ys) :
    joinWith separator xs <:+ joinWith separator ys := by
  obtain ⟨front, rfl⟩ := h
  by_cases hx : xs = []
  · subst hx
    exact List.nil_suffix
  · by_cases hfront : front = []
    · subst hfront
      exact List.suffix_refl _
    · rw [joinWith_append hfront hx]
      exact (List.suffix_cons _ _).trans (List.suffix_append _ _)

end Text

namespace Path

open Text

variable {p base q : Path} {segments : List (List Char × Nat)} {pieces : List (List Char)}

/-- What a segment contributes wherever a single dot contributes nothing. -/
def inner? (cs : List Char) : Option Component := component? true (cs, 0)

theorem component?_eq_name {cs : List Char} (hnil : cs ≠ []) (hdot : cs ≠ ['.'])
    (hup : cs ≠ ['.', '.']) (absolute : Bool) (i : Nat) :
    component? absolute (cs, i) = some (.name (String.ofList cs)) := by
  rw [component?.eq_def]
  split <;> simp_all

theorem component?_eq_inner? {absolute : Bool} {segment : List Char × Nat}
    (h : absolute = true ∨ segment.2 ≠ 0 ∨ segment.1 ≠ ['.']) :
    component? absolute segment = inner? segment.1 := by
  obtain ⟨cs, i⟩ := segment
  by_cases hdot : cs = ['.']
  · subst hdot
    have hcount : (i = 0 && !absolute) = false := by
      rcases h with rfl | hi | hcs
      · simp
      · simpa using fun hzero => absurd hzero hi
      · exact absurd rfl hcs
    simp [inner?, component?, hcount]
  · by_cases hnil : cs = []
    · subst hnil
      rfl
    · by_cases hup : cs = ['.', '.']
      · subst hup
        rfl
      · rw [inner?, component?_eq_name hnil hdot hup, component?_eq_name hnil hdot hup]

theorem filterMap_zipIdx {absolute : Bool}
    (h : absolute = true ∨ ∀ piece ∈ pieces.head?, piece ≠ ['.']) :
    pieces.zipIdx.filterMap (component? absolute) = pieces.filterMap inner? := by
  have hpieces : pieces.filterMap inner? = pieces.zipIdx.filterMap (inner? ∘ Prod.fst) := by
    rw [← List.filterMap_map, List.zipIdx_map_fst]
  rw [hpieces]
  refine List.filterMap_congr fun segment hsegment => component?_eq_inner? ?_
  refine h.imp id fun hfirst => ?_
  by_cases hzero : segment.2 = 0
  · right
    refine hfirst _ ?_
    have hget := List.mem_zipIdx_iff_getElem?.1 hsegment
    rwa [hzero, ← List.head?_eq_getElem?] at hget
  · exact .inl hzero

theorem isAbsolute_ofList (cs : List Char) :
    (Path.mk (String.ofList cs)).isAbsolute = (cs.head? == some '/') := by
  rw [isAbsolute, String.toList_ofList]

/-- A relative path that does not start with a dot. -/
theorem components_joinWith (h : ∀ piece ∈ pieces, '/' ∉ piece)
    (hfirst : ∀ piece ∈ pieces.head?, piece ≠ [] ∧ piece ≠ ['.']) :
    (Path.mk (String.ofList (joinWith '/' pieces))).components = pieces.filterMap inner? := by
  cases pieces with
  | nil => rfl
  | cons piece rest =>
    obtain ⟨hne, hdot⟩ := hfirst piece rfl
    obtain ⟨c, cs, rfl⟩ := List.exists_cons_of_ne_nil hne
    have hrelative : (Path.mk (String.ofList (joinWith '/' ((c :: cs) :: rest)))).isAbsolute =
        false := by
      have hc : c ≠ '/' := by
        rintro rfl
        exact h _ List.mem_cons_self List.mem_cons_self
      rw [isAbsolute_ofList]
      cases rest <;> simpa [joinWith] using hc
    rw [components, segments, hrelative, String.toList_ofList, splitOn_joinWith (by simp) h]
    exact filterMap_zipIdx (.inr (by rintro _ ⟨⟩; exact hdot))

theorem components_rooted (h : ∀ piece ∈ pieces, '/' ∉ piece) :
    (Path.mk (String.ofList ('/' :: joinWith '/' pieces))).components =
      .root :: pieces.filterMap inner? := by
  have habsolute : (Path.mk (String.ofList ('/' :: joinWith '/' pieces))).isAbsolute = true := by
    rw [isAbsolute_ofList]
    rfl
  have hcontribute : (splitOn '/' (joinWith '/' pieces)).filterMap inner? =
      pieces.filterMap inner? := by
    by_cases hnil : pieces = []
    · subst hnil
      rfl
    · rw [splitOn_joinWith hnil h]
  rw [components, segments, habsolute, String.toList_ofList, splitOn_cons_self, List.tail_cons,
    ← hcontribute]
  exact congrArg (.root :: ·) (filterMap_zipIdx (.inl rfl))

section Segments

theorem filterMap_dropWhile_counts (p : Path) (segments : List (List Char × Nat)) :
    (segments.dropWhile fun s => !p.counts s).filterMap (component? p.isAbsolute) =
      segments.filterMap (component? p.isAbsolute) := by
  induction segments with
  | nil => rfl
  | cons s segments ih =>
    cases hs : component? p.isAbsolute s with
    | none =>
      rw [List.dropWhile_cons_of_pos (by simp [counts, hs]), ih, List.filterMap_cons_none hs]
    | some c => rw [List.dropWhile_cons_of_neg (by simp [counts, hs])]

theorem filterMap_trimEnd (p : Path) (segments : List (List Char × Nat)) :
    (p.trimEnd segments).filterMap (component? p.isAbsolute) =
      segments.filterMap (component? p.isAbsolute) := by
  rw [trimEnd, List.filterMap_reverse, filterMap_dropWhile_counts, ← List.filterMap_reverse,
    List.reverse_reverse]

theorem filterMap_dropCounted (p : Path) (n : Nat) (segments : List (List Char × Nat)) :
    (p.dropCounted n segments).filterMap (component? p.isAbsolute) =
      (segments.filterMap (component? p.isAbsolute)).drop n := by
  fun_induction dropCounted p n segments with
  | case1 => rfl
  | case2 => rfl
  | case3 n s segments hs ih =>
    obtain ⟨c, hc⟩ := Option.isSome_iff_exists.1 hs
    rw [ih, List.filterMap_cons_some hc, List.drop_succ_cons]
  | case4 n s segments hs ih =>
    rw [ih, List.filterMap_cons_none (by simpa [counts] using hs)]

theorem dropCounted_suffix (p : Path) (n : Nat) (segments : List (List Char × Nat)) :
    p.dropCounted n segments <:+ segments := by
  fun_induction dropCounted p n segments with
  | case1 => exact List.suffix_refl _
  | case2 => exact List.suffix_refl _
  | case3 n s segments hs ih => exact ih.trans (List.suffix_cons s segments)
  | case4 n s segments hs ih => exact ih.trans (List.suffix_cons s segments)

theorem dropCounted_succ_suffix (p : Path) (n : Nat) (segments : List (List Char × Nat)) :
    p.dropCounted (n + 1) segments <:+ segments.tail := by
  cases segments with
  | nil => exact List.suffix_refl _
  | cons s segments =>
    rw [dropCounted]
    split
    · exact dropCounted_suffix p n segments
    · exact dropCounted_suffix p (n + 1) segments

theorem trimEnd_prefix_self (p : Path) (segments : List (List Char × Nat)) :
    p.trimEnd segments <+: segments := by
  rw [trimEnd, ← List.reverse_suffix, List.reverse_reverse]
  exact List.dropWhile_suffix _

theorem slash_notMem_of_mem_segments {s : List Char × Nat} (h : s ∈ p.segments) : '/' ∉ s.1 := by
  have hpiece : s.1 ∈ splitOn '/' p.text.toList := by
    have hmem := List.fst_mem_of_mem_zipIdx h
    split at hmem
    · exact List.mem_of_mem_tail hmem
    · exact hmem
  exact separator_notMem_of_mem_splitOn hpiece

/-- The text of a path is made of its segments. -/
theorem toList_text (p : Path) :
    p.text.toList =
      (if p.isAbsolute then ['/'] else []) ++ joinWith '/' (p.segments.map Prod.fst) := by
  rw [segments, List.zipIdx_map_fst]
  cases habsolute : p.isAbsolute with
  | false => exact (joinWith_splitOn '/' _).symm
  | true =>
    rw [isAbsolute, beq_iff_eq] at habsolute
    obtain ⟨cs, hcs⟩ := List.head?_eq_some_iff.1 habsolute
    rw [hcs, splitOn_cons_self, if_pos rfl, if_pos rfl, List.tail_cons, joinWith_splitOn]
    rfl

end Segments

section Below

theorem toList_ofSegments (segments : List (List Char × Nat)) :
    (ofSegments segments).toList = joinWith '/' (segments.map Prod.fst) := by
  rw [ofSegments, String.toList_ofList]

theorem toList_text_rebuild (p : Path) (segments : List (List Char × Nat)) :
    (p.rebuild segments).text.toList =
      (if p.isAbsolute then ['/'] else []) ++ joinWith '/' (segments.map Prod.fst) := by
  rw [rebuild, String.toList_append, toList_ofSegments]
  split <;> rfl

theorem rebuild_text_prefix_text (h : segments <+: p.segments) :
    (p.rebuild segments).text.toList <+: p.text.toList := by
  rw [toList_text_rebuild, toList_text p]
  exact (List.prefix_append_right_inj _).2 (joinWith_prefix_joinWith (h.map Prod.fst))

theorem isAbsolute_rebuild (h : segments <+: p.segments) :
    (p.rebuild segments).isAbsolute = p.isAbsolute := by
  cases habsolute : p.isAbsolute with
  | true =>
    rw [isAbsolute, toList_text_rebuild, habsolute]
    rfl
  | false =>
    obtain ⟨rest, hrest⟩ := rebuild_text_prefix_text h
    rw [isAbsolute, ← hrest] at habsolute
    rw [isAbsolute]
    cases htext : (p.rebuild segments).text.toList with
    | nil => rfl
    | cons c cs =>
      rw [htext] at habsolute
      exact habsolute

theorem zipIdx_map_fst_eq (h : segments <+: pieces.zipIdx) :
    (segments.map Prod.fst).zipIdx = segments := by
  obtain ⟨rest, hrest⟩ := h
  obtain ⟨front, -, -, rfl, -⟩ := List.zipIdx_eq_append_iff.1 hrest.symm
  rw [List.zipIdx_map_fst]

theorem map_fst_filterMap_inner? {absolute : Bool}
    (h : ∀ s ∈ segments, absolute = true ∨ s.2 ≠ 0) :
    (segments.map Prod.fst).filterMap inner? = segments.filterMap (component? absolute) := by
  rw [List.filterMap_map]
  exact List.filterMap_congr fun s hs =>
    (component?_eq_inner? ((h s hs).imp id .inl)).symm

/-- The path up to the end of one of its segments. -/
theorem components_rebuild (h : segments <+: p.segments) :
    (p.rebuild segments).components =
      (if p.isAbsolute then [.root] else []) ++ segments.filterMap (component? p.isAbsolute) := by
  have hslash : ∀ piece ∈ segments.map Prod.fst, '/' ∉ piece := by
    intro piece hpiece
    obtain ⟨s, hs, rfl⟩ := List.mem_map.1 hpiece
    exact slash_notMem_of_mem_segments (h.mem hs)
  have htext : p.rebuild segments = ⟨String.ofList
      ((if p.isAbsolute then ['/'] else []) ++ joinWith '/' (segments.map Prod.fst))⟩ := by
    rw [← toList_text_rebuild, String.ofList_toList]
  cases habsolute : p.isAbsolute with
  | true =>
    have hinner : (segments.map Prod.fst).filterMap inner? =
        segments.filterMap (component? true) :=
      map_fst_filterMap_inner? fun s _ => .inl rfl
    rw [htext, habsolute, ← hinner]
    exact components_rooted hslash
  | false =>
    rw [components, isAbsolute_rebuild h, habsolute]
    refine congrArg ([] ++ ·) ?_
    rw [Path.segments.eq_def (p.rebuild _), isAbsolute_rebuild h, habsolute, toList_text_rebuild,
      habsolute]
    by_cases hnil : segments = []
    · rw [hnil]
      rfl
    · refine congrArg (List.filterMap _) ?_
      refine (congrArg List.zipIdx (splitOn_joinWith (by simpa using hnil) hslash)).trans ?_
      exact zipIdx_map_fst_eq h

theorem components_rebuild_trimEnd (p : Path) :
    (p.rebuild (p.trimEnd p.segments)).components = p.components := by
  rw [components_rebuild (trimEnd_prefix_self p _), filterMap_trimEnd]
  rfl

/-- The path from a segment on that counts. -/
theorem components_ofSegments (h : segments <:+: p.segments)
    (hinner : ∀ s ∈ segments, p.isAbsolute = true ∨ s.2 ≠ 0)
    (hfirst : ∀ s ∈ segments.head?, p.counts s = true) :
    (Path.mk (ofSegments segments)).components = segments.filterMap (component? p.isAbsolute) := by
  rw [← map_fst_filterMap_inner? hinner]
  refine components_joinWith ?_ ?_
  · intro piece hpiece
    obtain ⟨s, hs, rfl⟩ := List.mem_map.1 hpiece
    exact slash_notMem_of_mem_segments (h.mem hs)
  · intro piece hpiece
    rw [List.head?_map] at hpiece
    obtain ⟨s, hs, rfl⟩ := Option.map_eq_some_iff.1 hpiece
    have hcounts := hfirst s hs
    rw [counts, component?_eq_inner? ((hinner s (List.mem_of_mem_head? hs)).imp id .inl)] at hcounts
    refine ⟨fun hnil => ?_, fun hdot => ?_⟩
    · rw [hnil] at hcounts
      cases hcounts
    · rw [hdot] at hcounts
      cases hcounts

/-- Where the path below a base comes from. -/
theorem eq_of_relativeTo?_eq_some (h : p.relativeTo? base = some q) :
    base.components <+: p.components ∧
    (base.components = [] ∧ q = p.rebuild (p.trimEnd p.segments) ∨
      ∃ n, base.components.length = n + 1 ∧
        q = ⟨ofSegments (p.trimEnd ((p.dropCounted (if p.isAbsolute then n else n + 1)
          p.segments).dropWhile fun s => !p.counts s))⟩) := by
  simp only [relativeTo?] at h
  split at h
  · next hstart =>
    refine ⟨List.isPrefixOf_iff_prefix.1 hstart, ?_⟩
    split at h
    · next hnil => exact .inl ⟨List.isEmpty_iff.1 hnil, (Option.some.inj h).symm⟩
    · next hne =>
      obtain ⟨c, cs, hcons⟩ := List.exists_cons_of_ne_nil (fun hnil => hne (List.isEmpty_iff.2 hnil))
      refine .inr ⟨cs.length, by simp [hcons], ?_⟩
      rw [← Option.some.inj h, hcons]
      rfl
  · cases h

theorem relativeTo?_eq_none_iff : p.relativeTo? base = none ↔ ¬ base.components <+: p.components := by
  rw [← List.isPrefixOf_iff_prefix, relativeTo?]
  split
  · next h => split <;> simp [h]
  · next h => simp [h]

theorem snd_ne_zero_of_mem_tail_segments {s : List Char × Nat} (h : s ∈ p.segments.tail) :
    s.2 ≠ 0 := by
  rw [segments, List.tail_zipIdx] at h
  have hle := List.le_snd_of_mem_zipIdx h
  omega

/-- A path is its base with what is below it. -/
theorem components_eq_of_relativeTo? (h : p.relativeTo? base = some q) :
    p.components = base.components ++ q.components := by
  obtain ⟨hstart, ⟨hnil, rfl⟩ | ⟨n, hn, rfl⟩⟩ := eq_of_relativeTo?_eq_some h
  · rw [hnil, components_rebuild_trimEnd]
    rfl
  · rw [components_ofSegments, filterMap_trimEnd, filterMap_dropWhile_counts, filterMap_dropCounted]
    · have hdrop : p.components.drop (n + 1) = (p.segments.filterMap (component? p.isAbsolute)).drop
          (if p.isAbsolute then n else n + 1) := by
        rw [components]
        cases p.isAbsolute <;> rfl
      rw [← hdrop, ← hn]
      exact (List.prefix_iff_eq_append.1 hstart).symm
    · exact (trimEnd_prefix_self p _).isInfix.trans
        ((List.dropWhile_suffix _).trans (dropCounted_suffix p _ _)).isInfix
    · intro s hs
      cases habsolute : p.isAbsolute with
      | true => exact .inl rfl
      | false =>
        rw [habsolute] at hs
        have hmem := (List.dropWhile_suffix _).mem ((trimEnd_prefix_self p _).mem hs)
        exact .inr (snd_ne_zero_of_mem_tail_segments ((dropCounted_succ_suffix p n _).mem hmem))
    · intro s hs
      obtain ⟨rest, hrest⟩ := trimEnd_prefix_self p
        ((p.dropCounted (if p.isAbsolute then n else n + 1) p.segments).dropWhile
          fun s => !p.counts s)
      have hhead := not_of_mem_head?_dropWhile (fun s => !p.counts s)
        (p.dropCounted (if p.isAbsolute then n else n + 1) p.segments) s
      rw [← hrest, List.head?_append, Option.mem_def.1 hs] at hhead
      simpa using hhead rfl

/-- What is below a base is a stretch of the path's text. -/
theorem text_infix_of_relativeTo? (h : p.relativeTo? base = some q) :
    q.text.toList <:+: p.text.toList := by
  obtain ⟨-, ⟨-, rfl⟩ | ⟨n, -, rfl⟩⟩ := eq_of_relativeTo?_eq_some h
  · exact (rebuild_text_prefix_text (trimEnd_prefix_self p _)).isInfix
  · rw [toList_text p, toList_ofSegments]
    refine List.IsInfix.trans ?_ (List.suffix_append _ _).isInfix
    refine (joinWith_prefix_joinWith ((trimEnd_prefix_self p _).map Prod.fst)).isInfix.trans
      (joinWith_suffix_joinWith (List.IsSuffix.map Prod.fst ?_)).isInfix
    exact (List.dropWhile_suffix _).trans (dropCounted_suffix p _ _)

end Below

end Path

end InjectionScan
