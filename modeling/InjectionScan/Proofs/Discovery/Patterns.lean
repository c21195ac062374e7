import InjectionScan.Proofs.Discovery.Walk
import InjectionScan.Proofs.FileSystem.Files
import InjectionScan.Proofs.Path.Order

/-! More patterns find less, whatever their order, and no file is found twice. -/
namespace InjectionScan.Discovery

open Ignore FileSystem

section Patterns

variable {rules : List Rule} {patterns fewer more : List String}

/-- A text that can be read as a pattern. -/
def IsPattern (pattern : String) : Prop :=
  ∃ rule, Rule.ofLine false (patternLine pattern) = .ok rule

instance (pattern : String) : Decidable (IsPattern pattern) :=
  match h : Rule.ofLine false (patternLine pattern) with
  | .ok rule => isTrue ⟨rule, h⟩
  | .error _ => isFalse fun ⟨_, hrule⟩ => by simp [h] at hrule

theorem exists_patternRules (h : ∀ p ∈ patterns, IsPattern p) :
    ∃ rules, patternRules patterns = .ok rules := by
  induction patterns with
  | nil => exact ⟨[], rfl⟩
  | cons p patterns ih =>
    obtain ⟨⟨first, hfirst⟩, hrest⟩ := List.forall_mem_cons.1 h
    obtain ⟨rules, hrules⟩ := ih hrest
    exact ⟨first.toList ++ rules, by rw [patternRules_cons, hfirst, hrules]; rfl⟩

/-- Whether a rule fits the file at the end of the names, or a directory on the way to it. -/
def fitsOnWay (r : Rule) (names : List String) : Bool :=
  (List.range names.length).any fun i =>
    r.fits (String.intercalate "/" (names.take (i + 1))) (i + 1 < names.length)

/-- Whether no pattern fits the file at the end of the names, or a directory on the way to it. -/
def spares (patterns names : List String) : Bool :=
  patterns.all fun p =>
    match Rule.ofLine false (patternLine p) with
    | .ok (some rule) => !fitsOnWay rule names
    | _ => true

theorem spares_eq_all (h : patternRules patterns = .ok rules) (names : List String) :
    spares patterns names = rules.all fun r => !fitsOnWay r names := by
  rw [Bool.eq_iff_iff, spares, List.all_eq_true, List.all_eq_true]
  constructor
  · intro hall r hr
    obtain ⟨p, hp, hrule⟩ := (mem_patternRules_iff h).1 hr
    simpa [hrule] using hall p hp
  · intro hall p hp
    split
    · next rule hrule => exact hall rule ((mem_patternRules_iff h).2 ⟨p, hp, hrule⟩)
    · rfl

theorem spares_of_subset (h : ∀ p ∈ fewer, p ∈ more) {names : List String}
    (hmore : spares more names = true) : spares fewer names = true := by
  rw [spares, List.all_eq_true] at hmore ⊢
  exact fun p hp => hmore p (h p hp)

/-- What passes the rules step by step is what none of them fits on the whole way. -/
theorem passes_iff (w : Walk) (names rest : List String) :
    w.passes names rest = true ↔
      ∀ i < rest.length, w.excludes (names ++ rest.take (i + 1)) (i + 1 < rest.length) = false := by
  induction rest generalizing names with
  | nil => simp [Walk.passes]
  | cons name rest ih =>
    have hdirectory : (!rest.isEmpty) = decide (0 < rest.length) := by cases rest <;> rfl
    rw [Walk.passes, Bool.and_eq_true, Bool.not_eq_true', ih, hdirectory, List.length_cons,
      Nat.forall_lt_succ_left]
    simp

theorem passes_eq_spares (h : patternRules patterns = .ok rules) (fs : FileSystem)
    (place names : List String) :
    Walk.passes ⟨fs, rules, place.length⟩ place names = spares patterns names := by
  rw [Bool.eq_iff_iff, passes_iff, spares_eq_all h, List.all_eq_true]
  simp only [Walk.excludes, List.drop_left, fitsOnWay, List.any_eq_false, List.mem_range,
    Bool.not_eq_true', Bool.not_eq_true]
  exact ⟨fun hi r hr i hlt => hi i hlt r hr, fun hr i hlt r hmem => hr r hmem i hlt⟩

end Patterns

mutual

/-- A walk comes to the files of a tree in their order, and to each at most once. -/
theorem collect_sublist_files (w : Walk) (levels : List Level) (names : List String) :
    ∀ t : FileTree, (w.collect levels names t).Sublist (t.files.map (names ++ ·))
  | .file _ => by simp [Walk.collect, FileTree.files]
  | .directory entries => by
    rw [Walk.collect, FileTree.files]
    exact collectEntries_sublist_filesIn w _ names entries

theorem collectEntries_sublist_filesIn (w : Walk) (levels : List Level) (names : List String) :
    ∀ entries : List (String × FileTree),
      (w.collectEntries levels names entries).Sublist
        ((FileTree.filesIn entries).map (names ++ ·))
  | [] => by simp [Walk.collectEntries]
  | (name, t) :: entries => by
    have hentry := collect_sublist_files w levels (names ++ [name]) t
    rw [Walk.collectEntries, FileTree.filesIn, List.map_append, List.map_map]
    refine List.Sublist.append ?_ (collectEntries_sublist_filesIn w levels names entries)
    split
    · exact List.nil_sublist _
    · simpa [Function.comp_def] using hentry

end

theorem components_pathOf {names : List String} (h : ∀ name ∈ names, Path.isName name = true) :
    (pathOf names).components = .root :: names.map .name := by
  have htext : pathOf names =
      ⟨String.ofList ('/' :: Text.joinWith '/' (names.map String.toList))⟩ := by
    rw [pathOf, ← Path.toList_intercalate, String.ofList_cons, String.ofList_toList]
    rfl
  have hslash : ∀ piece ∈ names.map String.toList, '/' ∉ piece := by
    intro piece hpiece
    obtain ⟨name, hname, rfl⟩ := List.mem_map.1 hpiece
    exact (Path.isName_iff.1 (h name hname)).2.2.2
  rw [htext, Path.components_rooted hslash, List.filterMap_map]
  have hinner : ∀ name ∈ names, (Path.inner? ∘ String.toList) name = some (.name name) :=
    fun name hname => Path.inner?_toList (h name hname)
  rw [List.filterMap_congr hinner, List.filterMap_eq_map']

section Search

variable (fs : FileSystem) (trail : List (String × FileTree)) (accept : Path → Bool)

/-- A file, by the names that lead to it from the end of a trail. -/
def pathBelow (names : List String) : Path := pathOf (placeOf trail ++ names)

def belowLe (r s : List String) : Bool := (pathBelow trail r).le (pathBelow trail s)

/-- What a walk from the end of a trail comes to, as names from there on. -/
def walked (rules : List Rule) : List (List String) :=
  (Walk.collect ⟨fs, rules, (placeOf trail).length⟩ (outerLevels fs trail) (placeOf trail)
    (treeAt fs.root trail)).map (List.drop (placeOf trail).length)

/-- The accepted files of a walk without patterns, in the order of paths. -/
def found : List (List String) :=
  ((walked fs trail []).filter (accept ∘ pathBelow trail)).mergeSort (belowLe trail)

theorem belowLe_trans (r s u : List String) (hrs : belowLe trail r s = true)
    (hsu : belowLe trail s u = true) : belowLe trail r u = true :=
  Path.le_trans _ _ _ hrs hsu

theorem belowLe_total (r s : List String) : (belowLe trail r s || belowLe trail s r) = true :=
  Path.le_total _ _

theorem mergeSort_map_pathBelow (rs : List (List String)) :
    (rs.map (pathBelow trail)).mergeSort Path.le =
      (rs.mergeSort (belowLe trail)).map (pathBelow trail) := by
  symm
  apply List.map_mergeSort
  intro r _ s _
  rfl

theorem collect_eq_map_walked (rules : List Rule) :
    Walk.collect ⟨fs, rules, (placeOf trail).length⟩ (outerLevels fs trail) (placeOf trail)
      (treeAt fs.root trail) = (walked fs trail rules).map (placeOf trail ++ ·) := by
  rw [walked, List.map_map]
  refine (List.map_id _).symm.trans (List.map_congr_left fun r hr => ?_)
  obtain ⟨rest, rfl, -⟩ := Walk.exists_rest_of_mem_collect _ _ _ _ hr
  simp

theorem walked_sublist_files (rules : List Rule) :
    (walked fs trail rules).Sublist (treeAt fs.root trail).files := by
  have hfiles := (collect_sublist_files ⟨fs, rules, (placeOf trail).length⟩
    (outerLevels fs trail) (placeOf trail) (treeAt fs.root trail)).map
      (List.drop (placeOf trail).length)
  rw [← walked, List.map_map] at hfiles
  simpa [Function.comp_def] using hfiles

variable {fs trail}

theorem walked_eq_filter {rules : List Rule} {patterns : List String}
    (h : patternRules patterns = .ok rules) :
    walked fs trail rules = (walked fs trail []).filter (spares patterns) := by
  rw [walked, walked, List.filter_map,
    Walk.collect_eq_filter (isException_of_mem_patternRules h)]
  refine congrArg _ (List.filter_congr fun r _ => ?_)
  exact passes_eq_spares h fs _ _

/-- With patterns a search finds what all of them spare of what it finds without any. -/
theorem search_eq_filter {root : Path} {patterns : List String} (htrail : fs.trail root = .ok trail)
    (h : ∀ p ∈ patterns, IsPattern p) :
    search fs root patterns accept =
      .ok (((found fs trail accept).filter (spares patterns)).map (pathBelow trail)) := by
  obtain ⟨rules, hrules⟩ := exists_patternRules h
  have hsearch : search fs root patterns accept =
      .ok ((((walked fs trail rules).map (pathBelow trail)).filter accept).mergeSort Path.le) := by
    have hbelow : pathBelow trail = pathOf ∘ (placeOf trail ++ ·) := rfl
    rw [hbelow, ← List.map_map, ← collect_eq_map_walked]
    simp only [search, htrail, hrules, placeOf, treeAt, List.map_reverse]
  rw [hsearch, walked_eq_filter hrules, List.filter_map,
    mergeSort_map_pathBelow, found, filter_mergeSort (belowLe_trans trail) (belowLe_total trail),
    List.filter_filter, List.filter_filter]
  simp only [Bool.and_comm]

/-- Names tell the files of a proper tree apart, and so do their paths. -/
theorem pairwise_precedes_found (hleads : Leads fs.root trail) (hroot : fs.root.isProper = true) :
    ((found fs trail accept).map (pathBelow trail)).Pairwise Path.Precedes := by
  obtain ⟨htree, hplace⟩ := hleads.isProper hroot
  obtain ⟨files, hperm, hfiles⟩ : ∃ files, (found fs trail accept).Perm files ∧
      files.Sublist (treeAt fs.root trail).files :=
    ⟨_, List.mergeSort_perm _ _, List.filter_sublist.trans (walked_sublist_files fs trail [])⟩
  have hnodup : (found fs trail accept).Nodup :=
    hperm.nodup_iff.2 ((FileTree.nodup_files _ htree).sublist hfiles)
  have hcomponents : ∀ r ∈ found fs trail accept,
      (pathBelow trail r).components = .root :: (placeOf trail ++ r).map .name := by
    intro r hr
    have hnames := FileTree.isName_of_mem_files _ htree r (hfiles.subset (hperm.subset hr))
    exact components_pathOf (List.forall_mem_append.2 ⟨hplace, hnames⟩)
  have hsorted : (found fs trail accept).Pairwise fun r s => belowLe trail r s = true :=
    List.pairwise_mergeSort (belowLe_trans trail) (belowLe_total trail) _
  rw [List.pairwise_map]
  refine (hsorted.and hnodup).imp_of_mem ?_
  intro r s hr hs hrs
  refine Path.precedes_of_le hrs.1 fun heq => hrs.2 ?_
  rw [hcomponents r hr, hcomponents s hs] at heq
  have hinjective : Function.Injective Path.Component.name := fun _ _ => Path.Component.name.inj
  exact List.append_cancel_left (hinjective.list_map (List.cons.inj heq).2)

end Search

/-- A search with more patterns finds a sublist of what it finds with fewer of them, in whatever order
and however often they are given, and without patterns it finds the most. All that is missing is what a
pattern fits and what is below a directory that one fits. -/
theorem patterns_only_remove {fs : FileSystem} {root : Path} {place fewer more : List String}
    (hplace : fs.place? root = .ok place) (hmore : ∀ p ∈ more, IsPattern p)
    (hfewer : ∀ p ∈ fewer, p ∈ more) (extensions : List String) :
    ∀ find ∈ [sources, fixtures], ∃ most few many,
      find fs root extensions [] = .ok most ∧ find fs root extensions fewer = .ok few ∧
      find fs root extensions more = .ok many ∧ few.Sublist most ∧ many.Sublist few ∧
      ((∀ p ∈ more, p ∈ fewer) → many = few) ∧
      (∃ names : List (List String), most = names.map (fun r => pathOf (place ++ r)) ∧
        few = (names.filter (spares fewer)).map (fun r => pathOf (place ++ r)) ∧
        many = (names.filter (spares more)).map (fun r => pathOf (place ++ r))) ∧
      (fs.root.isProper = true → most.Pairwise Path.Precedes ∧ few.Pairwise Path.Precedes ∧
        many.Pairwise Path.Precedes) := by
  intro find hfind
  obtain ⟨accept, haccept⟩ : ∃ accept, ∀ patterns,
      find fs root extensions patterns = search fs root patterns accept := by
    rcases (by simpa using hfind : find = sources ∨ find = fixtures) with rfl | rfl
    · exact ⟨hasExtension extensions, fun _ => rfl⟩
    · exact ⟨isFixture extensions, fun _ => rfl⟩
  obtain ⟨trail, htrail, rfl⟩ : ∃ trail, fs.trail root = .ok trail ∧ placeOf trail = place := by
    cases htrail : fs.trail root with
    | error e => simp [FileSystem.place?, htrail, Except.map] at hplace
    | ok trail => exact ⟨trail, rfl, by simpa [FileSystem.place?, htrail, Except.map] using hplace⟩
  have hsearch {patterns : List String} (h : ∀ p ∈ patterns, IsPattern p) :=
    (haccept patterns).trans (search_eq_filter accept htrail h)
  have hnone : find fs root extensions [] = .ok ((found fs trail accept).map (pathBelow trail)) := by
    have hspares : ∀ names, spares [] names = true := fun _ => rfl
    simpa [List.filter_eq_self.2 fun names _ => hspares names] using
      hsearch (List.forall_mem_nil IsPattern)
  have hmany : ((found fs trail accept).filter (spares more)).Sublist
      ((found fs trail accept).filter (spares fewer)) :=
    List.monotone_filter_right _ fun _ => spares_of_subset hfewer
  refine ⟨_, _, _, hnone, hsearch fun p hp => hmore p (hfewer p hp), hsearch hmore,
    List.filter_sublist.map _, hmany.map _, ?_, ⟨_, rfl, rfl, rfl⟩, ?_⟩
  · intro hback
    have hequal : spares more = spares fewer := by
      funext names
      exact Bool.eq_iff_iff.2 ⟨spares_of_subset hfewer, spares_of_subset hback⟩
    rw [hequal]
  · intro hroot
    have hstrict := pairwise_precedes_found accept (leads_of_trail htrail) hroot
    exact ⟨hstrict, hstrict.sublist (List.filter_sublist.map _),
      hstrict.sublist (List.filter_sublist.map _)⟩

/-- Names that start with the marks of ignore files, and an ignore file. -/
def markedNames : FileSystem where
  root := .directory [("work", .directory [
    ("left.js", .file "x".toUTF8), ("#notes.js", .file "x".toUTF8), ("!keep.js", .file "x".toUTF8),
    (".ignore", .file "left.js".toUTF8), ("dist", .directory [("bundle.js", .file "x".toUTF8)]),
    ("lib", .directory [("dist", .directory [("bundle.test.ts", .file "x".toUTF8)])])])]
  current := ⟨"/"⟩

/-- No mark at the start of a pattern brings back what the pattern fits. -/
theorem patterns_only_remove_marked :
    markedNames.place? ⟨"/work"⟩ = .ok ["work"] ∧ markedNames.root.isProper = true ∧
    (∀ p ∈ ["/dist/", "#notes.js", "!keep.js", "/dist/"], IsPattern p) ∧
    (∀ p ∈ ["!keep.js", "#notes.js"], p ∈ ["/dist/", "#notes.js", "!keep.js", "/dist/"]) ∧
    (∃ most many, sources markedNames ⟨"/work"⟩ [".js"] [] = .ok most ∧
      sources markedNames ⟨"/work"⟩ [".js"] ["!keep.js", "#notes.js"] =
        .ok [⟨"/work/dist/bundle.js"⟩] ∧
      sources markedNames ⟨"/work"⟩ [".js"] ["/dist/", "#notes.js", "!keep.js", "/dist/"] =
        .ok many ∧
      [⟨"/work/dist/bundle.js"⟩].Sublist most ∧ many.Sublist [⟨"/work/dist/bundle.js"⟩] ∧
      most.Pairwise Path.Precedes) ∧
    ∃ most many, fixtures markedNames ⟨"/work"⟩ [".ts"] [] = .ok most ∧
      fixtures markedNames ⟨"/work"⟩ [".ts"] ["!keep.js", "#notes.js"] =
        .ok [⟨"/work/lib/dist/bundle.test.ts"⟩] ∧
      fixtures markedNames ⟨"/work"⟩ [".ts"] ["/dist/", "#notes.js", "!keep.js", "/dist/"] =
        .ok many ∧
      [⟨"/work/lib/dist/bundle.test.ts"⟩].Sublist most ∧
      many.Sublist [⟨"/work/lib/dist/bundle.test.ts"⟩] ∧ most.Pairwise Path.Precedes := by
  have hplace : markedNames.place? ⟨"/work"⟩ = .ok ["work"] := by decide +kernel
  have hproper : markedNames.root.isProper = true := by decide +kernel
  have hmore : ∀ p ∈ ["/dist/", "#notes.js", "!keep.js", "/dist/"], IsPattern p := by
    decide +kernel
  have hfewer : ∀ p ∈ ["!keep.js", "#notes.js"],
      p ∈ ["/dist/", "#notes.js", "!keep.js", "/dist/"] := by decide
  have hsources : sources markedNames ⟨"/work"⟩ [".js"] ["!keep.js", "#notes.js"] =
      .ok [⟨"/work/dist/bundle.js"⟩] := by decide +kernel
  have hfixtures : fixtures markedNames ⟨"/work"⟩ [".ts"] ["!keep.js", "#notes.js"] =
      .ok [⟨"/work/lib/dist/bundle.test.ts"⟩] := by decide +kernel
  refine ⟨hplace, hproper, hmore, hfewer, ?_, ?_⟩
  · obtain ⟨most, few, many, hmost, hfew, hmany, hless, hleast, -, -, hstrict⟩ :=
      patterns_only_remove hplace hmore hfewer [".js"] sources (by simp)
    obtain rfl := Except.ok.inj (hfew.symm.trans hsources)
    exact ⟨most, many, hmost, hfew, hmany, hless, hleast, (hstrict hproper).1⟩
  · obtain ⟨most, few, many, hmost, hfew, hmany, hless, hleast, -, -, hstrict⟩ :=
      patterns_only_remove hplace hmore hfewer [".ts"] fixtures (by simp)
    obtain rfl := Except.ok.inj (hfew.symm.trans hfixtures)
    exact ⟨most, many, hmost, hfew, hmany, hless, hleast, (hstrict hproper).1⟩

end InjectionScan.Discovery
