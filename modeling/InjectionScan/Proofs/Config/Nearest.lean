import InjectionScan.ConfigFile
import InjectionScan.Proofs.Path.Parent

/-! The first configuration file on the way up from a place decides. -/
namespace InjectionScan.Config

variable {fs other : FileSystem} {start directory : Path}

/-- The first directory on the way up that has a configuration file. -/
def IsNearest (fs : FileSystem) (start directory : Path) : Prop :=
  ∃ k, start.ancestor? k = some directory ∧ fs.exists? (fileIn directory) = true ∧
    ∀ j < k, ∀ nearer, start.ancestor? j = some nearer → fs.exists? (fileIn nearer) = false

theorem components_fileIn (directory : Path) :
    (fileIn directory).components = directory.components ++ [.name fileName] := by
  have hname : (Path.mk fileName).components = [.name fileName] := by decide
  rw [fileIn, Path.components_join directory (by decide), hname]
  rw [hname]
  decide

theorem isNearest_iff_find? :
    IsNearest fs start directory ↔
      start.ancestors.find? (fun d => fs.exists? (fileIn d)) = some directory := by
  rw [List.find?_eq_some_iff_getElem, IsNearest]
  constructor
  · rintro ⟨k, hk, hexists, hnearer⟩
    rw [← Path.getElem?_ancestors] at hk
    obtain ⟨hlt, hget⟩ := List.getElem?_eq_some_iff.1 hk
    refine ⟨hexists, k, hlt, hget, fun j hj => ?_⟩
    have hget : start.ancestor? j = some start.ancestors[j] := by
      rw [← Path.getElem?_ancestors, List.getElem?_eq_getElem]
    simpa using hnearer j hj _ hget
  · rintro ⟨hexists, k, hlt, hget, hnearer⟩
    refine ⟨k, ?_, hexists, fun j hj nearer hnear => ?_⟩
    · rw [← Path.getElem?_ancestors, List.getElem?_eq_getElem hlt, hget]
    · rw [← Path.getElem?_ancestors] at hnear
      obtain ⟨hlt', rfl⟩ := List.getElem?_eq_some_iff.1 hnear
      simpa using hnearer j hj

theorem exists_isNearest_iff :
    (∃ directory, IsNearest fs start directory) ↔
      ∃ k directory, start.ancestor? k = some directory ∧ fs.exists? (fileIn directory) = true := by
  constructor
  · rintro ⟨directory, k, hk, hexists, -⟩
    exact ⟨k, directory, hk, hexists⟩
  · rintro ⟨k, directory, hk, hexists⟩
    have hsome : (start.ancestors.find? fun d => fs.exists? (fileIn d)).isSome = true :=
      List.find?_isSome.2 ⟨directory, Path.mem_ancestors_iff.2 ⟨k, hk⟩, hexists⟩
    obtain ⟨nearest, hnearest⟩ := Option.isSome_iff_exists.1 hsome
    exact ⟨nearest, isNearest_iff_find?.2 hnearest⟩

theorem find_of_isNearest (h : IsNearest fs start directory) :
    find fs start = load fs (fileIn directory) := by
  rw [find, List.find?_map, Function.comp_def, isNearest_iff_find?.1 h]
  rfl

theorem find_of_not_exists (h : ¬ ∃ directory, IsNearest fs start directory) :
    find fs start = .ok {} := by
  have hnone : (start.ancestors.find? fun d => fs.exists? (fileIn d)) = none :=
    Option.eq_none_iff_forall_ne_some.2 fun directory hfind =>
      h ⟨directory, isNearest_iff_find?.2 hfind⟩
  rw [find, List.find?_map, Function.comp_def, hnone]
  rfl

section Agreement

/-- Both file systems have the same configuration file in a directory, or both have none. -/
def AgreeIn (fs other : FileSystem) (directory : Path) : Prop :=
  other.exists? (fileIn directory) = fs.exists? (fileIn directory) ∧
    other.readText (fileIn directory) = fs.readText (fileIn directory)

instance (fs other : FileSystem) (directory : Path) : Decidable (AgreeIn fs other directory) :=
  inferInstanceAs (Decidable (_ ∧ _))

theorem AgreeIn.load_eq (h : AgreeIn fs other directory) :
    load other (fileIn directory) = load fs (fileIn directory) := by
  rw [load, load, h.2]

/-- If they agree up to a directory with a configuration file, the nearest one is the same. -/
theorem exists_isNearest_of_agree {k : Nat} (hk : start.ancestor? k = some directory)
    (hexists : fs.exists? (fileIn directory) = true)
    (hagree : ∀ j ≤ k, ∀ d, start.ancestor? j = some d → AgreeIn fs other d) :
    ∃ nearest, IsNearest fs start nearest ∧ IsNearest other start nearest ∧
      AgreeIn fs other nearest := by
  obtain ⟨nearest, hnearest⟩ := exists_isNearest_iff.2 ⟨k, directory, hk, hexists⟩
  obtain ⟨j, hj, hthere, hnearer⟩ := hnearest
  have hle : j ≤ k := by
    by_contra hlt
    rw [hnearer k (by omega) directory hk] at hexists
    cases hexists
  have hsame := hagree j hle nearest hj
  refine ⟨nearest, ⟨j, hj, hthere, hnearer⟩, ⟨j, hj, ?_, fun i hi d hd => ?_⟩, hsame⟩
  · rw [hsame.1, hthere]
  · rw [(hagree i (by omega) d hd).1, hnearer i hi d hd]

end Agreement

/-- The way up from a place goes through the front parts of its components and ends at the root or
at the empty path. The first configuration file on it is loaded, with whatever error that gives, and
the default counts only if there is none. What differs further up than a configuration file makes no
difference. -/
theorem find_loads_nearest (fs : FileSystem) (start : Path) :
    (∃ n last, start.ancestor? n = some last ∧ (last.text = "" ∨ last.components = [.root]) ∧
      ∀ k, (start.ancestor? k).isSome = true ↔ k ≤ n) ∧
    (∀ k directory, start.ancestor? k = some directory →
      directory.components = start.components.take (start.components.length - k) ∧
      (fileIn directory).components = directory.components ++ [.name fileName]) ∧
    (∀ directory, IsNearest fs start directory → find fs start = load fs (fileIn directory)) ∧
    ((∃ directory, IsNearest fs start directory) ↔
      ∃ k directory, start.ancestor? k = some directory ∧ fs.exists? (fileIn directory) = true) ∧
    ((¬ ∃ directory, IsNearest fs start directory) → find fs start = .ok {}) ∧
    ∀ (other : FileSystem) (k : Nat) (directory : Path), start.ancestor? k = some directory →
      fs.exists? (fileIn directory) = true →
      (∀ j ≤ k, ∀ d, start.ancestor? j = some d → AgreeIn fs other d) →
      find other start = find fs start := by
  refine ⟨start.exists_last_ancestor, ?_, fun _ => find_of_isNearest, exists_isNearest_iff,
    find_of_not_exists, ?_⟩
  · intro k directory hk
    exact ⟨Path.components_of_ancestor? hk, components_fileIn directory⟩
  · intro other k directory hk hexists hagree
    obtain ⟨nearest, hnearest, hother, hsame⟩ := exists_isNearest_of_agree hk hexists hagree
    rw [find_of_isNearest hnearest, find_of_isNearest hother, hsame.load_eq]

/-- A broken configuration in a directory, and another one above it. -/
def brokenBelow (above : String) : FileSystem where
  root := .directory [(fileName, .file above.toUTF8),
    ("work", .directory [(fileName, .file "fail_on = ".toUTF8)])]
  current := ⟨"/"⟩

def infoFails : String := "[general]\nfail_on = \"info\"\n"

/-- The broken configuration is an error for a place below it that is not there, whatever is above
it; at the root the sound one counts. -/
theorem find_loads_nearest_broken :
    IsNearest (brokenBelow infoFails) ⟨"/work/./src//lib/"⟩ ⟨"/work"⟩ ∧
    find (brokenBelow infoFails) ⟨"/work/./src//lib/"⟩ = .error .malformed ∧
    find (brokenBelow "") ⟨"/work/./src//lib/"⟩ = .error .malformed ∧
    find (brokenBelow infoFails) ⟨"/"⟩ = .ok { general := { failOn := "info" } } ∧
    find ⟨.directory [], ⟨"/"⟩⟩ ⟨"a/../b"⟩ = .ok {} := by
  have hnearest : IsNearest (brokenBelow infoFails) ⟨"/work/./src//lib/"⟩ ⟨"/work"⟩ :=
    isNearest_iff_find?.2 (by decide +kernel)
  have hroot : IsNearest (brokenBelow infoFails) ⟨"/"⟩ ⟨"/"⟩ :=
    isNearest_iff_find?.2 (by decide +kernel)
  have hnone : ¬ ∃ directory, IsNearest ⟨.directory [], ⟨"/"⟩⟩ ⟨"a/../b"⟩ directory := by
    rintro ⟨directory, h⟩
    rw [isNearest_iff_find?] at h
    have hfind : (Path.mk "a/../b").ancestors.find?
        (fun d => FileSystem.exists? ⟨.directory [], ⟨"/"⟩⟩ (fileIn d)) = none := by decide +kernel
    rw [hfind] at h
    cases h
  have hagree : ∀ j ≤ 2, ∀ d, (Path.mk "/work/./src//lib/").ancestor? j = some d →
      AgreeIn (brokenBelow infoFails) (brokenBelow "") d := by
    have hall : ∀ j ≤ 2, ((Path.mk "/work/./src//lib/").ancestor? j).all
        (fun d => AgreeIn (brokenBelow infoFails) (brokenBelow "") d) = true := by decide +kernel
    intro j hj d hd
    have h := hall j hj
    rw [hd] at h
    simpa using h
  obtain ⟨-, -, hload, -, -, hfurther⟩ :=
    find_loads_nearest (brokenBelow infoFails) ⟨"/work/./src//lib/"⟩
  have hbroken : find (brokenBelow infoFails) ⟨"/work/./src//lib/"⟩ = .error .malformed := by
    rw [hload _ hnearest]
    decide +kernel
  refine ⟨hnearest, hbroken, ?_, ?_, ?_⟩
  · rw [hfurther (brokenBelow "") 2 ⟨"/work"⟩ (by decide +kernel) (by decide +kernel) hagree,
      hbroken]
  · rw [(find_loads_nearest (brokenBelow infoFails) ⟨"/"⟩).2.2.1 _ hroot]
    decide +kernel
  · exact (find_loads_nearest _ _).2.2.2.2.1 hnone

end InjectionScan.Config
