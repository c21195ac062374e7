import InjectionScan.Discovery

/-! Patterns only take files away from a walk. -/
namespace InjectionScan

open Ignore

namespace Ignore

variable {rules : List Rule} {cs : List Char}

/-- Whether a rule has a say about a path. -/
def Rule.fits (r : Rule) (path : String) (isDirectory : Bool) : Bool :=
  (!r.onlyDirectories || isDirectory) && matchesPath r.glob path

theorem exists_trimLine_eq_cons {c : Char} (h : Text.isBlank c = false) (cs : List Char) :
    ∃ rest, Rule.trimLine (c :: cs) = c :: rest := by
  rw [Rule.trimLine]
  split
  · exact ⟨cs, rfl⟩
  · rw [Text.trimEnd, Text.dropEnd, List.reverse_cons, List.dropWhile_append]
    split
    · exact ⟨[], by simp [h]⟩
    · exact ⟨_, by rw [List.reverse_append]; rfl⟩

theorem anchor_fst_exception (cs : List Char) : (Rule.anchor ('!' :: cs)).1 = true := by
  unfold Rule.anchor
  split <;> simp_all

theorem isException_of_ofLine {lenient : Bool} {r : Rule}
    (h : Rule.ofLine lenient ('!' :: cs) = .ok (some r)) : r.isException = true := by
  obtain ⟨rest, hrest⟩ := exists_trimLine_eq_cons (show Text.isBlank '!' = false by decide) cs
  have hanchor := anchor_fst_exception rest
  rcases hparts : Rule.anchor ('!' :: rest) with ⟨isException, anchored, pattern⟩
  rw [hparts] at hanchor
  simp only [Rule.ofLine, hrest, hparts] at h
  split at h
  · cases h
  split at h
  · cases h
  split at h
  · obtain rfl : _ = r := by simpa using h
    exact hanchor
  · cases h

end Ignore

namespace Discovery

variable {rules : List Rule} {w : Walk}

theorem patternRules_cons (p : String) (ps : List String) :
    patternRules (p :: ps) = (Rule.ofLine false (patternLine p)).bind fun first =>
      (patternRules ps).map fun rules => first.toList ++ rules := by
  rw [patternRules]
  cases Rule.ofLine false (patternLine p) with
  | error e => rfl
  | ok first => cases patternRules ps <;> rfl

theorem mem_patternRules_iff {ps : List String} (h : patternRules ps = .ok rules) {r : Rule} :
    r ∈ rules ↔ ∃ p ∈ ps, Rule.ofLine false (patternLine p) = .ok (some r) := by
  induction ps generalizing rules with
  | nil =>
    obtain rfl : [] = rules := by simpa [patternRules] using h
    simp
  | cons p ps ih =>
    rw [patternRules_cons] at h
    cases hfirst : Rule.ofLine false (patternLine p) with
    | error e => simp [hfirst, Except.bind] at h
    | ok rule =>
      cases hrest : patternRules ps with
      | error e => simp [hfirst, hrest, Except.bind, Except.map] at h
      | ok others =>
        obtain rfl : rule.toList ++ others = rules := by
          simpa [hfirst, hrest, Except.bind, Except.map] using h
        simp [hfirst, ih hrest]

theorem isException_of_mem_patternRules {ps : List String} (h : patternRules ps = .ok rules) :
    ∀ r ∈ rules, r.isException = true := by
  intro r hr
  obtain ⟨p, -, hp⟩ := (mem_patternRules_iff h).1 hr
  exact isException_of_ofLine hp

theorem isOverridden_eq (h : ∀ r ∈ rules, r.isException = true) (path : String)
    (isDirectory : Bool) :
    isOverridden rules path isDirectory =
      if rules.any fun r => r.fits path isDirectory then some .leftOut else none := by
  rw [isOverridden, verdict]
  cases hfind : rules.reverse.find? fun r => r.fits path isDirectory with
  | none =>
    have hnone : rules.any (fun r => r.fits path isDirectory) = false := by
      simpa using hfind
    simp only [Rule.fits] at hfind hnone
    simp [hfind, hnone, Rule.fits]
  | some r =>
    have hr : r ∈ rules := by simpa using List.mem_of_find?_eq_some hfind
    have hany : rules.any (fun r => r.fits path isDirectory) = true :=
      List.any_eq_true.2 ⟨r, hr, by simpa using List.find?_some hfind⟩
    rw [if_pos hany]
    simp only [Rule.fits] at hfind
    simp [hfind, h r hr]

namespace Walk

/-- The walk without patterns. -/
def free (w : Walk) : Walk := { w with patterns := [] }

/-- Whether a pattern fits an entry. -/
def excludes (w : Walk) (names : List String) (isDirectory : Bool) : Bool :=
  w.patterns.any fun r => r.fits (String.intercalate "/" (names.drop w.depth)) isDirectory

/-- Whether no pattern fits on the way from a place to a file, the file included. -/
def passes (w : Walk) (names : List String) : List String → Bool
  | [] => true
  | name :: rest =>
    !w.excludes (names ++ [name]) (!rest.isEmpty) && w.passes (names ++ [name]) rest

theorem skips_eq (h : ∀ r ∈ w.patterns, r.isException = true) (levels : List Level)
    (names : List String) (name : String) (isDirectory : Bool) :
    w.skips levels names name isDirectory =
      (w.excludes names isDirectory || w.free.skips levels names name isDirectory) := by
  have hfree : isOverridden w.free.patterns (String.intercalate "/" (names.drop w.free.depth))
      isDirectory = none := rfl
  rw [skips, skips, hfree, isOverridden_eq h, ← excludes]
  cases w.excludes names isDirectory <;> simp

mutual

theorem exists_rest_of_mem_collect (w : Walk) (levels : List Level) (names : List String) :
    ∀ (t : FileTree) {r : List String}, r ∈ w.collect levels names t →
      ∃ rest, r = names ++ rest ∧ rest.isEmpty = !t.isDirectory
  | .file _, r, h => by
    rw [collect, List.mem_singleton] at h
    exact ⟨[], by simp [h], rfl⟩
  | .directory entries, r, h => by
    rw [collect] at h
    obtain ⟨rest, hr, hne⟩ := exists_rest_of_mem_collectEntries w _ names entries h
    exact ⟨rest, hr, by simpa [FileTree.isDirectory] using hne⟩

theorem exists_rest_of_mem_collectEntries (w : Walk) (levels : List Level) (names : List String) :
    ∀ (entries : List (String × FileTree)) {r : List String},
      r ∈ w.collectEntries levels names entries → ∃ rest, r = names ++ rest ∧ rest ≠ []
  | [], r, h => by simp [collectEntries] at h
  | (name, t) :: entries, r, h => by
    rw [collectEntries, List.mem_append] at h
    rcases h with h | h
    · split at h
      · cases h
      · obtain ⟨rest, hr, -⟩ := exists_rest_of_mem_collect w levels (names ++ [name]) t h
        exact ⟨name :: rest, by simp [hr], by simp⟩
    · exact exists_rest_of_mem_collectEntries w levels names entries h

end

theorem passes_of_mem_collect {levels : List Level} {names : List String} {name : String}
    {t : FileTree} {r : List String} (hr : r ∈ w.free.collect levels (names ++ [name]) t) :
    w.passes names (r.drop names.length) =
      (!w.excludes (names ++ [name]) t.isDirectory &&
        w.passes (names ++ [name]) (r.drop (names ++ [name]).length)) := by
  obtain ⟨rest, rfl, hrest⟩ := exists_rest_of_mem_collect _ _ _ t hr
  have hdrop : (names ++ [name] ++ rest).drop names.length = name :: rest := by simp
  rw [hdrop, List.drop_left, passes, hrest, Bool.not_not]

mutual

/-- A walk with patterns finds what one without them finds, if no pattern fits on the way. -/
theorem collect_eq_filter (h : ∀ r ∈ w.patterns, r.isException = true) (levels : List Level)
    (names : List String) : ∀ t : FileTree,
    w.collect levels names t =
      (w.free.collect levels names t).filter fun r => w.passes names (r.drop names.length)
  | .file _ => by simp [collect, passes]
  | .directory entries => by
    rw [collect, collect]
    exact collectEntries_eq_filter h _ names entries

theorem collectEntries_eq_filter (h : ∀ r ∈ w.patterns, r.isException = true)
    (levels : List Level) (names : List String) : ∀ entries : List (String × FileTree),
    w.collectEntries levels names entries =
      (w.free.collectEntries levels names entries).filter fun r =>
        w.passes names (r.drop names.length)
  | [] => by simp [collectEntries]
  | (name, t) :: entries => by
    rw [collectEntries, collectEntries, List.filter_append,
      collectEntries_eq_filter h levels names entries, skips_eq h]
    congr 1
    cases hfree : w.free.skips levels (names ++ [name]) name t.isDirectory with
    | true => simp
    | false =>
      cases hexcludes : w.excludes (names ++ [name]) t.isDirectory with
      | true =>
        have hnone : ∀ r ∈ w.free.collect levels (names ++ [name]) t,
            ¬ w.passes names (r.drop names.length) = true := by
          intro r hr
          simp [passes_of_mem_collect hr, hexcludes]
        simpa using hnone
      | false =>
        simp only [Bool.or_self, Bool.false_eq_true, if_false]
        rw [collect_eq_filter h levels (names ++ [name]) t]
        refine List.filter_congr ?_
        intro r hr
        simp [passes_of_mem_collect hr, hexcludes]

end

end Walk

end Discovery

end InjectionScan
