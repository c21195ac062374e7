import InjectionScan.Proofs.Discovery.Walk
import InjectionScan.Proofs.FileSystem.Replacement
import InjectionScan.Proofs.Ignore.DirectoryRule
import InjectionScan.Proofs.Path.Order
import Mathlib.Control.Monad.Basic

/-! A pattern with a slash at its end leaves out one directory at the place of the search. -/
namespace InjectionScan

/-- Whether a path leads through a directory, by its text. -/
def Path.isBelow (p directory : Path) : Bool :=
  (directory.text.toList ++ ['/']).isPrefixOf p.text.toList

namespace Discovery

open Ignore

section Rules

variable {pattern : String} {rule : Rule}

/-- A pattern that is one can be taken out: the same fault is found first, or there is none and the
other rules are the same. -/
theorem patternRules_filter (hrule : Rule.ofLine false (patternLine pattern) = .ok (some rule))
    (ps : List String) :
    (∃ e, patternRules ps = .error e ∧ patternRules (ps.filter (· != pattern)) = .error e) ∨
    ∃ rules others, patternRules ps = .ok rules ∧
      patternRules (ps.filter (· != pattern)) = .ok others ∧
      ∀ r, r ∈ rules ↔ r ∈ others ∨ (pattern ∈ ps ∧ r = rule) := by
  induction ps with
  | nil => exact .inr ⟨[], [], rfl, rfl, by simp⟩
  | cons p ps ih =>
    by_cases hp : p = pattern
    · subst hp
      rw [patternRules_cons, hrule, List.filter_cons_of_neg (by simp)]
      obtain ⟨e, hall, hothers⟩ | ⟨rules, others, hall, hothers, hmem⟩ := ih
      · exact .inl ⟨e, by rw [hall]; rfl, hothers⟩
      · refine .inr ⟨rule :: rules, others, by rw [hall]; rfl, hothers, ?_⟩
        intro r
        have hr := hmem r
        simp only [List.mem_cons, true_or, true_and, hr]
        grind
    · rw [List.filter_cons_of_pos (by simpa using hp), patternRules_cons, patternRules_cons]
      cases Rule.ofLine false (patternLine p) with
      | error e => exact .inl ⟨e, rfl, rfl⟩
      | ok first =>
        obtain ⟨e, hall, hothers⟩ | ⟨rules, others, hall, hothers, hmem⟩ := ih
        · exact .inl ⟨e, by rw [hall]; rfl, by rw [hothers]; rfl⟩
        · refine .inr ⟨first.toList ++ rules, first.toList ++ others, by rw [hall]; rfl,
            by rw [hothers]; rfl, ?_⟩
          intro r
          have hr := hmem r
          simp only [List.mem_append, List.mem_cons, Ne.symm hp, false_or, hr, or_assoc]

end Rules

section Texts

variable {d : String} {place names rest : List String}

theorem toList_intercalate_append (hnames : names ≠ []) (hrest : rest ≠ []) :
    (String.intercalate "/" (names ++ rest)).toList =
      (String.intercalate "/" names).toList ++ '/' :: (String.intercalate "/" rest).toList := by
  rw [String.intercalate_append_of_ne_nil hnames hrest]
  simp

/-- Whether the names lead through a directory right at the start. -/
def startsIn (d : String) (names : List String) : Bool :=
  (d.toList ++ ['/']).isPrefixOf (String.intercalate "/" names).toList

theorem startsIn_nil (d : String) : startsIn d [] = false := by
  cases hd : d.toList <;> simp [startsIn, hd]

theorem startsIn_append (h : startsIn d names = true) (rest : List String) :
    startsIn d (names ++ rest) = true := by
  by_cases hrest : rest = []
  · simpa [hrest] using h
  · have hnames : names ≠ [] := by
      rintro rfl
      rw [startsIn_nil] at h
      cases h
    rw [startsIn, List.isPrefixOf_iff_prefix] at h ⊢
    rw [toList_intercalate_append hnames hrest]
    exact h.trans (List.prefix_append _ _)

theorem toList_pathOf (names : List String) :
    (pathOf names).text.toList = '/' :: (String.intercalate "/" names).toList := by
  simp [pathOf]

theorem isBelow_pathOf (d : String) (place rest : List String) :
    (pathOf (place ++ rest)).isBelow (pathOf (place ++ [d])) = startsIn d rest := by
  rw [Bool.eq_iff_iff, Path.isBelow, startsIn, List.isPrefixOf_iff_prefix,
    List.isPrefixOf_iff_prefix, toList_pathOf, toList_pathOf, List.cons_append,
    List.cons_prefix_cons]
  by_cases hplace : place = []
  · simp [hplace]
  · rw [toList_intercalate_append hplace (List.cons_ne_nil d []), String.intercalate_singleton]
    by_cases hrest : rest = []
    · -- The place itself is shorter than anything that is below the directory.
      have hshort : ¬ (String.intercalate "/" place).toList ++ '/' :: d.toList ++ ['/'] <+:
          (String.intercalate "/" place).toList := by
        intro h
        have hlength := h.length_le
        rw [List.length_append, List.length_append, List.length_cons] at hlength
        omega
      rw [hrest, List.append_nil]
      simpa using hshort
    · rw [toList_intercalate_append hplace hrest, List.append_assoc,
        List.prefix_append_right_inj, List.cons_append, List.cons_prefix_cons]
      simp

end Texts

section Walks

variable {d : String} {place : List String} {v w : Walk}

/-- One step: what the rule of the directory adds is that the names do not lead through it. -/
theorem passes_eq_and
    (h : ∀ rest isDirectory, w.excludes (place ++ rest) isDirectory =
      (v.excludes (place ++ rest) isDirectory || startsIn d rest))
    {through : List String} (hthrough : startsIn d through = false) (rest : List String) :
    w.passes (place ++ through) rest =
      (v.passes (place ++ through) rest && !startsIn d (through ++ rest)) := by
  induction rest generalizing through with
  | nil => simp [Walk.passes, hthrough]
  | cons name rest ih =>
    rw [Walk.passes, Walk.passes, List.append_assoc, h]
    cases hname : startsIn d (through ++ [name]) with
    | true =>
      have hrest := startsIn_append hname rest
      rw [List.append_assoc, List.singleton_append] at hrest
      simp [hrest]
    | false =>
      rw [ih hname, List.append_assoc, List.singleton_append, Bool.or_false, Bool.and_assoc]

theorem fits_directory (d : String) (names : List String) (isDirectory : Bool) :
    (Rule.below d).fits (String.intercalate "/" names) isDirectory =
      startsIn d names := by
  rw [Bool.eq_iff_iff, startsIn, List.isPrefixOf_iff_prefix, ← matchesPath_belowGlob]
  simp [Rule.fits, Rule.below]

theorem excludes_eq_or {rules others : List Rule}
    (hmem : ∀ r, r ∈ rules ↔ r ∈ others ∨ r = Rule.below d) (fs : FileSystem)
    (place rest : List String) (isDirectory : Bool) :
    Walk.excludes ⟨fs, rules, place.length⟩ (place ++ rest) isDirectory =
      (Walk.excludes ⟨fs, others, place.length⟩ (place ++ rest) isDirectory ||
        startsIn d rest) := by
  rw [← fits_directory d rest isDirectory, Walk.excludes, Walk.excludes, List.drop_left,
    Bool.eq_iff_iff, Bool.or_eq_true, List.any_eq_true, List.any_eq_true]
  constructor
  · rintro ⟨r, hr, hfits⟩
    rcases (hmem r).1 hr with hr | rfl
    · exact .inl ⟨r, hr, hfits⟩
    · exact .inr hfits
  · rintro (⟨r, hr, hfits⟩ | hfits)
    · exact ⟨r, (hmem r).2 (.inl hr), hfits⟩
    · exact ⟨_, (hmem _).2 (.inr rfl), hfits⟩

/-- The whole walk: the rule of a directory takes away what is below it. -/
theorem collect_eq_filter_startsIn {rules others : List Rule}
    (hrules : ∀ r ∈ rules, r.isException = true) (hothers : ∀ r ∈ others, r.isException = true)
    (hmem : ∀ r, r ∈ rules ↔ r ∈ others ∨ r = Rule.below d)
    (fs : FileSystem) (place : List String) (levels : List Level) (t : FileTree) :
    Walk.collect ⟨fs, rules, place.length⟩ levels place t =
      (Walk.collect ⟨fs, others, place.length⟩ levels place t).filter fun r =>
        !startsIn d (r.drop place.length) := by
  have hwith := Walk.collect_eq_filter (w := ⟨fs, rules, place.length⟩) hrules levels place t
  have hwithout := Walk.collect_eq_filter (w := ⟨fs, others, place.length⟩) hothers levels place t
  rw [hwith, hwithout, List.filter_filter]
  refine List.filter_congr fun r hr => ?_
  have hpasses := passes_eq_and (excludes_eq_or hmem fs place) (startsIn_nil d)
    (r.drop place.length)
  rw [List.append_nil, List.nil_append] at hpasses
  rw [hpasses, Bool.and_comm]

end Walks

section Searches

variable {fs : FileSystem} {root : Path} {place patterns : List String} {d : String}

theorem search_directory (hd : IsDirectoryName d) (hplace : fs.place? root = .ok place)
    (hmem : d ++ "/" ∈ patterns) (accept : Path → Bool) :
    search fs root patterns accept =
      (search fs root (patterns.filter (· != d ++ "/")) accept).map
        (List.filter fun p => !p.isBelow (pathOf (place ++ [d]))) := by
  cases htrail : fs.trail root with
  | error e => simp [FileSystem.place?, htrail, Except.map] at hplace
  | ok trail =>
    have hnames : trail.reverse.map Prod.fst = place := by
      simpa [FileSystem.place?, htrail, Except.map, FileSystem.placeOf] using hplace
    obtain ⟨e, hall, hothers⟩ | ⟨rules, others, hall, hothers, hrules⟩ :=
      patternRules_filter (ofLine_directory hd false) patterns
    · simp [search, htrail, hall, hothers, Except.map]
    · have hmem_iff : ∀ r, r ∈ rules ↔ r ∈ others ∨ r = Rule.below d := by
        simpa [hmem] using hrules
      have hcollect := collect_eq_filter_startsIn (isException_of_mem_patternRules hall)
        (isException_of_mem_patternRules hothers) hmem_iff fs place (outerLevels fs trail)
        ((trail.head?.map Prod.snd).getD fs.root)
      simp only [search, htrail, hall, hothers, hnames, Except.map, Except.ok.injEq]
      rw [hcollect, filter_mergeSort Path.le_trans Path.le_total, List.filter_filter,
        List.filter_map, List.filter_map, List.filter_filter]
      congr 2
      refine List.filter_congr fun r hr => ?_
      obtain ⟨rest, rfl, -⟩ := Walk.exists_rest_of_mem_collect _ _ _ _ hr
      simp [isBelow_pathOf, Bool.and_comm]

/-- With the pattern of a directory the search finds what it finds without it, except for what is
below the directory of that name at the place of the search. -/
theorem directory_pattern_anchored (hd : IsDirectoryName d) (hplace : fs.place? root = .ok place)
    (hmem : d ++ "/" ∈ patterns) (extensions : List String) :
    sources fs root extensions patterns =
        (sources fs root extensions (patterns.filter (· != d ++ "/"))).map
          (List.filter fun p => !p.isBelow (pathOf (place ++ [d]))) ∧
      fixtures fs root extensions patterns =
        (fixtures fs root extensions (patterns.filter (· != d ++ "/"))).map
          (List.filter fun p => !p.isBelow (pathOf (place ++ [d]))) :=
  ⟨search_directory hd hplace hmem _, search_directory hd hplace hmem _⟩

/-- A workspace that has directories of one name at the top and in a package. -/
def nestedModules : FileSystem where
  root := .directory [("work", .directory [
    ("node_modules", .directory [("pg.test.js", .file "x".toUTF8)]),
    ("packages", .directory [("api", .directory [
      ("node_modules", .directory [("pg.test.js", .file "x".toUTF8)])])])])]
  current := ⟨"/"⟩

theorem directory_pattern_anchored_nested :
    IsDirectoryName "node_modules" ∧ nestedModules.place? ⟨"/work"⟩ = .ok ["work"] ∧
    "node_modules" ++ "/" ∈ ["dist/", "node_modules/"] ∧
    sources nestedModules ⟨"/work"⟩ [".js"] ["dist/", "node_modules/"] =
      (sources nestedModules ⟨"/work"⟩ [".js"] ["dist/"]).map
        (List.filter fun p => !p.isBelow ⟨"/work/node_modules"⟩) ∧
    fixtures nestedModules ⟨"/work"⟩ [".js"] ["dist/", "node_modules/"] =
      (fixtures nestedModules ⟨"/work"⟩ [".js"] ["dist/"]).map
        (List.filter fun p => !p.isBelow ⟨"/work/node_modules"⟩) := by
  have hd : IsDirectoryName "node_modules" :=
    ⟨by decide, List.all_eq_true.1 (by decide)⟩
  have hplace : nestedModules.place? ⟨"/work"⟩ = .ok ["work"] := by decide +kernel
  have hmem : "node_modules" ++ "/" ∈ ["dist/", "node_modules/"] := by decide
  have hothers : ["dist/", "node_modules/"].filter (· != "node_modules" ++ "/") = ["dist/"] := by
    decide
  have hdirectory : pathOf (["work"] ++ ["node_modules"]) = ⟨"/work/node_modules"⟩ := by decide
  have hanchored := directory_pattern_anchored hd hplace hmem [".js"]
  rw [hothers, hdirectory] at hanchored
  exact ⟨hd, hplace, hmem, hanchored⟩

/-- The directory further down is searched although the pattern names it. -/
theorem directory_pattern_searches_nested :
    (∃ found, sources nestedModules ⟨"/work"⟩ [".js"] ["node_modules/"] = .ok found ∧
      ∃ p ∈ found, .name "node_modules" ∈ p.components.dropLast) ∧
    ∃ found, fixtures nestedModules ⟨"/work"⟩ [".js"] ["node_modules/"] = .ok found ∧
      ∃ p ∈ found, .name "node_modules" ∈ p.components.dropLast := by
  have hsources : sources nestedModules ⟨"/work"⟩ [".js"] ["node_modules/"] =
      .ok [⟨"/work/packages/api/node_modules/pg.test.js"⟩] := by decide +kernel
  have hfixtures : fixtures nestedModules ⟨"/work"⟩ [".js"] ["node_modules/"] =
      .ok [⟨"/work/packages/api/node_modules/pg.test.js"⟩] := by decide +kernel
  exact ⟨⟨_, hsources, by decide +kernel⟩, ⟨_, hfixtures, by decide +kernel⟩⟩

end Searches

end Discovery

end InjectionScan
