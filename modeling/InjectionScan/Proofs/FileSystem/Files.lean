import InjectionScan.Proofs.FileSystem.Replacement
import InjectionScan.Proofs.Path.Relative
import Mathlib.Data.List.Nodup

/-! The files of a tree, each by the names that lead to it. -/
namespace InjectionScan

namespace Path

/-- A text that is one component of a path, and a name. -/
def isName (name : String) : Bool :=
  name != "" && name != "." && name != ".." && !name.toList.contains '/'

variable {name : String} {names : List String}

theorem toList_intercalate (names : List String) :
    (String.intercalate "/" names).toList = Text.joinWith '/' (names.map String.toList) := by
  induction names with
  | nil => rfl
  | cons name names ih =>
    by_cases hnames : names = []
    · simp [hnames, Text.joinWith]
    · rw [String.intercalate_cons_of_ne_nil hnames, List.map_cons,
        Text.joinWith_cons _ (by simpa using hnames), ← ih]
      simp

theorem isName_iff : isName name = true ↔
    name ≠ "" ∧ name ≠ "." ∧ name ≠ ".." ∧ '/' ∉ name.toList := by
  simp [isName, and_assoc]

theorem inner?_toList (h : isName name = true) : inner? name.toList = some (.name name) := by
  obtain ⟨hempty, hdot, hup, -⟩ := isName_iff.1 h
  rw [inner?, component?_eq_name, String.ofList_toList]
  · simpa using hempty
  · exact fun heq => hdot (String.toList_inj.1 heq)
  · exact fun heq => hup (String.toList_inj.1 heq)

end Path

namespace FileTree

variable {t : FileTree} {es : List (String × FileTree)} {name : String}

mutual

/-- Whether every directory holds each name once, and only names. -/
def isProper : FileTree → Bool
  | file _ => true
  | directory es => (es.map Prod.fst).Nodup && areProper es

def areProper : List (String × FileTree) → Bool
  | [] => true
  | (name, t) :: es => Path.isName name && t.isProper && areProper es

end

mutual

/-- The files, each as the names that lead to it. -/
def files : FileTree → List (List String)
  | file _ => [[]]
  | directory es => filesIn es

def filesIn : List (String × FileTree) → List (List String)
  | [] => []
  | (name, t) :: es => t.files.map (name :: ·) ++ filesIn es

end

theorem isName_and_isProper_of_mem (h : areProper es = true) (hmem : (name, t) ∈ es) :
    Path.isName name = true ∧ t.isProper = true := by
  induction es with
  | nil => cases hmem
  | cons e es ih =>
    obtain ⟨⟨hname, ht⟩, hes⟩ : (Path.isName e.1 = true ∧ e.2.isProper = true) ∧
        areProper es = true := by simpa [areProper] using h
    rcases List.mem_cons.1 hmem with rfl | hmem
    · exact ⟨hname, ht⟩
    · exact ih hes hmem

theorem isProper_of_child? {c : FileTree} (h : t.isProper = true) (hc : t.child? name = some c) :
    Path.isName name = true ∧ c.isProper = true := by
  cases t with
  | file content => simp [child?, entries] at hc
  | directory es =>
    obtain ⟨e, he, rfl⟩ := Option.map_eq_some_iff.1 hc
    obtain rfl : e.1 = name := by simpa using List.find?_some he
    have hes : areProper es = true := by
      rw [isProper, Bool.and_eq_true] at h
      exact h.2
    exact isName_and_isProper_of_mem hes (List.mem_of_find?_eq_some he)

theorem exists_cons_of_mem_filesIn {r : List String} (h : r ∈ filesIn es) :
    ∃ e ∈ es, ∃ rest ∈ e.2.files, r = e.1 :: rest := by
  induction es with
  | nil => simp [filesIn] at h
  | cons e es ih =>
    rw [filesIn, List.mem_append, List.mem_map] at h
    rcases h with ⟨rest, hrest, rfl⟩ | h
    · exact ⟨e, List.mem_cons_self, rest, hrest, rfl⟩
    · obtain ⟨e', he', rest, hrest, rfl⟩ := ih h
      exact ⟨e', List.mem_cons_of_mem _ he', rest, hrest, rfl⟩

mutual

theorem nodup_files : ∀ t : FileTree, t.isProper = true → t.files.Nodup
  | file _, _ => by simp [files]
  | directory es, h => by
    rw [isProper, Bool.and_eq_true, decide_eq_true_eq] at h
    exact nodup_filesIn es h.1 h.2

/-- Below two names there is no common file. -/
theorem nodup_filesIn : ∀ es : List (String × FileTree), (es.map Prod.fst).Nodup →
    areProper es = true → (filesIn es).Nodup
  | [], _, _ => List.nodup_nil
  | (name, t) :: es, hnames, h => by
    obtain ⟨⟨-, ht⟩, hes⟩ : (Path.isName name = true ∧ t.isProper = true) ∧
        areProper es = true := by simpa [areProper] using h
    obtain ⟨hnew, hrest⟩ := List.nodup_cons.1 hnames
    rw [filesIn, List.nodup_append]
    refine ⟨List.Nodup.map List.cons_injective (nodup_files t ht), nodup_filesIn es hrest hes, ?_⟩
    rintro r hr _ hr' rfl
    obtain ⟨_, -, rfl⟩ := List.mem_map.1 hr
    obtain ⟨e, he, _, -, heq⟩ := exists_cons_of_mem_filesIn hr'
    obtain ⟨rfl, -⟩ := List.cons.inj heq
    exact hnew (show e.1 ∈ es.map Prod.fst from List.mem_map_of_mem he)

end

mutual

theorem isName_of_mem_files : ∀ (t : FileTree), t.isProper = true → ∀ r ∈ t.files,
    ∀ name ∈ r, Path.isName name = true
  | file _, _, r, hr, name, hname => by
    rw [files, List.mem_singleton] at hr
    rw [hr] at hname
    cases hname
  | directory es, h, r, hr, name, hname => by
    rw [isProper, Bool.and_eq_true] at h
    exact isName_of_mem_filesIn es h.2 r hr name hname

theorem isName_of_mem_filesIn : ∀ es : List (String × FileTree), areProper es = true →
    ∀ r ∈ filesIn es, ∀ name ∈ r, Path.isName name = true
  | [], _, r, hr, _, _ => by simp [filesIn] at hr
  | (first, t) :: es, h, r, hr, name, hname => by
    obtain ⟨⟨hfirst, ht⟩, hes⟩ : (Path.isName first = true ∧ t.isProper = true) ∧
        areProper es = true := by simpa [areProper] using h
    rw [filesIn, List.mem_append, List.mem_map] at hr
    rcases hr with ⟨rest, hrest, rfl⟩ | hr
    · rcases List.mem_cons.1 hname with rfl | hname
      · exact hfirst
      · exact isName_of_mem_files t ht rest hrest name hname
    · exact isName_of_mem_filesIn es hes r hr name hname

end

end FileTree

namespace FileSystem

/-- A trail through a proper tree goes through names and ends at a proper tree. -/
theorem Leads.isProper {root : FileTree} {trail : List (String × FileTree)}
    (h : Leads root trail) (hroot : root.isProper = true) :
    (treeAt root trail).isProper = true ∧ ∀ name ∈ placeOf trail, Path.isName name = true := by
  induction trail with
  | nil => exact ⟨hroot, by simp [placeOf]⟩
  | cons e trail ih =>
    obtain ⟨name, t⟩ := e
    obtain ⟨hproper, hnames⟩ := ih h.2
    obtain ⟨hname, ht⟩ := FileTree.isProper_of_child? hproper h.1
    refine ⟨ht, ?_⟩
    rw [placeOf_cons]
    simpa only [List.forall_mem_append, List.forall_mem_singleton] using ⟨hnames, hname⟩

end FileSystem

end InjectionScan
