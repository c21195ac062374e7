import InjectionScan.Discovery
import InjectionScan.Proofs.Path.Order
import Mathlib.Control.Monad.Basic

/-! The search finds the files that have a language and no capital in their extension. -/
namespace InjectionScan

/-- Whether no capital stands in the extension of a path. -/
def Path.hasSmallExtension [Naming] (p : Path) : Bool :=
  match p.extensionText? with
  | some e => e.toList.all fun c => !c.isUpper
  | none => true

theorem toLower_of_not_isUpper {c : Char} (h : c.isUpper = false) : c.toLower = c := by
  delta Char.isUpper at h
  delta Char.toLower
  exact dif_neg (by simpa using h)

theorem map_toLower_of_small {cs : List Char} (h : cs.all (fun c => !c.isUpper) = true) :
    cs.map Char.toLower = cs := by
  have hself : ∀ c ∈ cs, c.toLower = id c := fun c hc =>
    toLower_of_not_isUpper (by simpa using List.all_eq_true.1 h c hc)
  rw [List.map_congr_left hself, List.map_id]

namespace Language

variable {p : Path} {e : String}

theorem isSome_ofPath?_of_extension [Naming] (h : p.extensionText? = some e) :
    (ofPath? p).isSome =
      supportedExtensions.contains ("." ++ String.ofList (e.toList.map Char.toLower)) := by
  rw [ofPath?, h, Bool.eq_iff_iff, List.find?_isSome, List.contains_iff_mem, supportedExtensions,
    List.mem_flatMap]
  simp

theorem small_of_mem_supportedExtensions :
    ∀ x ∈ supportedExtensions, x.toList.all (fun c => !c.isUpper) = true := by
  decide

end Language

namespace Discovery

theorem hasExtension_supportedExtensions [Naming] (p : Path) :
    hasExtension Language.supportedExtensions p =
      ((Language.ofPath? p).isSome && p.hasSmallExtension) := by
  cases he : p.extensionText? with
  | none => simp [hasExtension, Language.ofPath?, he]
  | some e =>
    rw [Language.isSome_ofPath?_of_extension he]
    simp only [hasExtension, Path.hasSmallExtension, he]
    cases hsmall : e.toList.all fun c => !c.isUpper with
    | true => rw [map_toLower_of_small hsmall, String.ofList_toList, Bool.and_true]
    | false =>
      rw [Bool.and_false, Bool.eq_false_iff, ne_eq, List.contains_iff_mem]
      intro hmem
      have hall := Language.small_of_mem_supportedExtensions _ hmem
      rw [String.toList_append, List.all_append, hsmall, Bool.and_false] at hall
      cases hall

theorem search_and [Naming] (fs : FileSystem) (root : Path) (patterns : List String)
    (first second : Path → Bool) :
    search fs root patterns (fun p => first p && second p) =
      (search fs root patterns first).map (List.filter second) := by
  cases htrail : fs.trail root with
  | error e => simp [search, htrail, Except.map]
  | ok trail =>
    cases hrules : patternRules patterns with
    | error e => simp [search, htrail, hrules, Except.map]
    | ok rules =>
      simp only [search, htrail, hrules, Except.map]
      rw [filter_mergeSort Path.le_trans Path.le_total, List.filter_filter]
      simp only [Bool.and_comm]

/-- Nothing is left to sort if the walk comes by the files in their order. -/
theorem search_of_pairwise [Naming] {fs : FileSystem} {root : Path} {patterns : List String}
    {accept : Path → Bool} {trail : List (String × FileTree)} {found : List Path}
    (htrail : fs.trail root = .ok trail) (hrules : (patternRules patterns).toOption.isSome = true)
    (hfound : (((Walk.mk fs ((patternRules patterns).toOption.getD []) trail.length).collect
      (outerLevels fs trail) (trail.reverse.map Prod.fst)
      ((trail.head?.map Prod.snd).getD fs.root)).map pathOf).filter accept = found)
    (hsorted : found.Pairwise fun p q => Path.le p q = true) :
    search fs root patterns accept = .ok found := by
  cases hok : patternRules patterns with
  | error e =>
    rw [hok] at hrules
    cases hrules
  | ok rules =>
    have hwalk : rules = (patternRules patterns).toOption.getD [] := by rw [hok]; rfl
    simp only [search, htrail, hok, List.length_map, List.length_reverse]
    rw [hwalk, hfound, List.mergeSort_of_pairwise hsorted]

/-- The search for sources accepts a file if it has a language and no capital in its extension. -/
theorem sources_recognised_without_capitals [Naming] (fs : FileSystem) (root : Path)
    (patterns : List String) :
    (∀ p, hasExtension Language.supportedExtensions p =
      ((Language.ofPath? p).isSome && p.hasSmallExtension)) ∧
    sources fs root Language.supportedExtensions patterns =
      (search fs root patterns fun p => (Language.ofPath? p).isSome).map
        (List.filter Path.hasSmallExtension) := by
  refine ⟨hasExtension_supportedExtensions, ?_⟩
  rw [sources, ← search_and]
  exact congrArg _ (funext hasExtension_supportedExtensions)

/-- A file with capitals in its extension has a language and is not found. -/
theorem sources_miss_capitals :
    Language.ofPath? ⟨"/server.MJS"⟩ = some .javascript ∧
    hasExtension Language.supportedExtensions ⟨"/server.MJS"⟩ = false ∧
    sources ⟨.directory [("app.js", .file "x".toUTF8), ("server.MJS", .file "x".toUTF8)], ⟨"/"⟩⟩
      ⟨"/"⟩ Language.supportedExtensions [] = .ok [⟨"/app.js"⟩] := by
  decide +kernel

end Discovery

end InjectionScan
