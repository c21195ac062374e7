import InjectionScan.Proofs.Dictionary.Lookup
import InjectionScan.Proofs.Dictionary.Order
import InjectionScan.Proofs.Document.Decoding
import Mathlib.Data.List.Nodup

/-! A decoder finds the same value in whatever order the fields of objects stand. -/
namespace InjectionScan

namespace Document

/-- The document has no parts. -/
def isAtom : Document → Bool
  | array _ | object _ => false
  | _ => true

/-- The same document, but for the order of fields at any depth. -/
inductive Reordered : Document → Document → Prop
  | atom {d : Document} (h : d.isAtom = true) : Reordered d d
  | array {xs ys : List Document} (hlength : xs.length = ys.length)
    (hitems : ∀ p ∈ xs.zip ys, Reordered p.1 p.2) : Reordered (array xs) (array ys)
  | object {fs gs : List (String × Document)} (hnames : (fs.map Prod.fst).Perm (gs.map Prod.fst))
    (hvalues : ∀ name x y, (name, x) ∈ fs → (name, y) ∈ gs → Reordered x y) :
    Reordered (object fs) (object gs)

theorem getElem_mem_zip {xs ys : List Document} {i : Nat} (hx : i < xs.length)
    (hy : i < ys.length) : (xs[i], ys[i]) ∈ xs.zip ys := by
  have hzip : i < (xs.zip ys).length := List.length_zip ▸ Nat.lt_min.2 ⟨hx, hy⟩
  exact List.mem_iff_getElem.2 ⟨i, hzip, List.getElem_zip⟩

namespace Reordered

variable {fs gs : List (String × Document)} {name : String}

theorem eq_of_isAtom {d d' : Document} (h : Reordered d d') (hd : d.isAtom = true) : d' = d := by
  cases h with
  | atom => rfl
  | array => cases hd
  | object => cases hd

/-- A name that leads to a value leads to the same value, reordered. -/
theorem rel_lookup (h : Reordered (.object fs) (.object gs)) (name : String) :
    Option.Rel Reordered (fs.lookup name) (gs.lookup name) := by
  cases h with
  | atom h => cases h
  | object hnames hvalues =>
    have hnone : fs.lookup name = none ↔ gs.lookup name = none := by
      rw [lookup_eq_none_iff_notMem, lookup_eq_none_iff_notMem, hnames.mem_iff]
    cases hx : fs.lookup name with
    | none =>
      rw [hnone.1 hx]
      exact .none
    | some x =>
      cases hy : gs.lookup name with
      | none =>
        rw [hnone.2 hy] at hx
        cases hx
      | some y => exact .some (hvalues name x y (mem_of_lookup hx) (mem_of_lookup hy))

theorem exists_object {d : Document} (h : Reordered (.object fs) d) : ∃ gs, d = .object gs := by
  cases h with
  | atom h => cases h
  | object => exact ⟨_, rfl⟩

theorem exists_lookup {x : Document} (h : Reordered (.object fs) (.object gs))
    (hx : fs.lookup name = some x) : ∃ y, gs.lookup name = some y ∧ Reordered x y := by
  have hrel := h.rel_lookup name
  rw [hx] at hrel
  cases hy : gs.lookup name with
  | none =>
    rw [hy] at hrel
    cases hrel
  | some y =>
    rw [hy] at hrel
    cases hrel with
    | some hrel => exact ⟨y, rfl, hrel⟩

theorem lookup_eq_none (h : Reordered (.object fs) (.object gs)) (hnone : fs.lookup name = none) :
    gs.lookup name = none := by
  have hrel := h.rel_lookup name
  rw [hnone] at hrel
  cases hy : gs.lookup name with
  | none => rfl
  | some y =>
    rw [hy] at hrel
    cases hrel

theorem array_self {xs : List Document} (h : ∀ x ∈ xs, Reordered x x) :
    Reordered (.array xs) (.array xs) := by
  refine .array rfl fun p hp => ?_
  obtain ⟨i, hi, rfl⟩ := List.mem_iff_getElem.1 hp
  rw [List.getElem_zip]
  exact h _ (List.getElem_mem _)

theorem strings_self (xs : List String) : Reordered (.strings xs) (.strings xs) := by
  refine array_self fun x hx => ?_
  obtain ⟨s, -, rfl⟩ := List.mem_map.1 hx
  exact .atom rfl

/-- The fields of an object may be put in any order. -/
theorem object_of_perm (hperm : fs.Perm gs) (hnames : (fs.map Prod.fst).Nodup)
    (h : ∀ f ∈ fs, Reordered f.2 f.2) : Reordered (.object fs) (.object gs) := by
  refine .object (hperm.map Prod.fst) fun name x y hx hy => ?_
  have hsame := List.inj_on_of_nodup_map hnames hx (hperm.mem_iff.2 hy) rfl
  obtain rfl : x = y := congrArg Prod.snd hsame
  exact h _ hx

theorem trans {d e f : Document} (h : Reordered d e) (h' : Reordered e f) : Reordered d f := by
  induction h generalizing f with
  | atom => exact h'
  | @array xs ys hlength hitems ih =>
    cases h' with
    | atom h' => cases h'
    | @array _ zs hlength' hitems' =>
      refine .array (hlength.trans hlength') fun p hp => ?_
      obtain ⟨i, hi, rfl⟩ := List.mem_iff_getElem.1 hp
      rw [List.length_zip, Nat.lt_min] at hi
      have hy : i < ys.length := hlength ▸ hi.1
      rw [List.getElem_zip]
      exact ih _ (getElem_mem_zip hi.1 hy) (hitems' _ (getElem_mem_zip hy hi.2))
  | @object fs gs hnames hvalues ih =>
    cases h' with
    | atom h' => cases h'
    | object hnames' hvalues' =>
      refine .object (hnames.trans hnames') fun name x z hx hz => ?_
      obtain ⟨⟨_, y⟩, hy, rfl⟩ := List.mem_map.1 (hnames.mem_iff.1 (List.mem_map_of_mem hx))
      exact ih _ x y hx hy (hvalues' _ y z hy hz)

end Reordered

end Document

namespace Decoder

variable {α : Type} {dialect : Dialect}

/-- The decoder finds the value, in whatever order the objects of the document have their fields. -/
def Finds (item : Decoder α) (dialect : Dialect) (d : Document) (a : α) : Prop :=
  ∀ d', d.Reordered d' → item dialect d' = .ok a

theorem finds_of_isAtom {item : Decoder α} {d : Document} {a : α} (hd : d.isAtom = true)
    (h : item dialect d = .ok a) : item.Finds dialect d a := by
  intro d' hd'
  rw [hd'.eq_of_isAtom hd, h]

theorem finds_text (expected : String) (dialect : Dialect) (s : String) :
    (text expected).Finds dialect (.string s) s :=
  finds_of_isAtom rfl rfl

theorem finds_bool (dialect : Dialect) (b : Bool) : bool.Finds dialect (.bool b) b :=
  finds_of_isAtom rfl rfl

theorem finds_count {n : Nat} (h : n < Nat.pow 2 64) (dialect : Dialect) :
    count.Finds dialect (.nat n) n :=
  finds_of_isAtom rfl (count_nat h dialect)

theorem finds_list {item : Decoder α} {encode : α → Document} {xs : List α}
    (h : ∀ x ∈ xs, item.Finds dialect (encode x) x) :
    (list item).Finds dialect (.array (xs.map encode)) xs := by
  intro d hd
  cases hd with
  | atom hd => cases hd
  | @array _ ys hlength hitems =>
    rw [list]
    induction xs generalizing ys with
    | nil =>
      obtain rfl : ys = [] := List.length_eq_zero_iff.1 hlength.symm
      rfl
    | cons x xs ih =>
      obtain ⟨y, ys, rfl⟩ := List.exists_cons_of_length_eq_add_one hlength.symm
      simp only [List.map_cons, List.zip_cons_cons, List.forall_mem_cons] at hitems h
      rw [List.mapM_cons, h.1 y hitems.1, ih h.2 (by simpa using hlength) hitems.2]
      rfl

theorem finds_strings (dialect : Dialect) (xs : List String) :
    (list string).Finds dialect (.strings xs) xs :=
  finds_list fun x _ => finds_text "a string" dialect x

/-- The entries of a dictionary under names, as far as it has them. -/
def entriesAt (d : Dictionary α) (names : List String) : List (String × α) :=
  names.filterMap fun name => (d.get? name).map fun a => (name, a)

theorem entriesAt_names (d : Dictionary α) : entriesAt d (d.entries.map Prod.fst) = d.entries := by
  have hentry : ∀ e ∈ d.entries, (d.get? e.1).map (fun a => (e.1, a)) = some e := by
    intro e he
    rw [Dictionary.get?_eq_some_iff.2 he]
    rfl
  rw [entriesAt, List.filterMap_map]
  exact (List.filterMap_congr hentry).trans List.filterMap_some

theorem entriesOf_eq {item : Decoder α} {d : Dictionary α} {fields : List (String × Document)}
    (h : ∀ f ∈ fields, ∃ a, d.get? f.1 = some a ∧ item dialect f.2 = .ok a) :
    entriesOf item dialect fields = .ok (entriesAt d (fields.map Prod.fst)) := by
  induction fields with
  | nil => rfl
  | cons f fields ih =>
    obtain ⟨⟨a, hget, hitem⟩, hrest⟩ := List.forall_mem_cons.1 h
    have hfirst : entriesAt d (f.1 :: fields.map Prod.fst) =
        (f.1, a) :: entriesAt d (fields.map Prod.fst) := by
      rw [entriesAt, List.filterMap_cons, hget]
      rfl
    rw [entriesOf, hitem, ih hrest, List.map_cons, hfirst]
    rfl

theorem finds_dictionary {item : Decoder α} {encode : α → Document} {d : Dictionary α}
    (h : ∀ e ∈ d.entries, item.Finds dialect (encode e.2) e.2) :
    (dictionary item).Finds dialect (.object (d.entries.map fun e => (e.1, encode e.2))) d := by
  intro d' hd
  cases hd with
  | atom hd => cases hd
  | @object _ gs hnames hvalues =>
    rw [List.map_map] at hnames
    have hfound : ∀ g ∈ gs, ∃ a, d.get? g.1 = some a ∧ item dialect g.2 = .ok a := by
      intro g hg
      obtain ⟨e, he, hname⟩ := List.mem_map.1 (hnames.mem_iff.2 (List.mem_map_of_mem hg))
      obtain ⟨name, y⟩ := g
      cases hname
      have hvalue := hvalues e.1 _ y (List.mem_map_of_mem he) hg
      exact ⟨e.2, Dictionary.get?_eq_some_iff.2 he, h e he y hvalue⟩
    have hperm : (entriesAt d (gs.map Prod.fst)).Perm d.entries :=
      (hnames.symm.filterMap _).trans (.of_eq (entriesAt_names d))
    rw [dictionary, entriesOf_eq hfound]
    exact congrArg Except.ok (Dictionary.ofList_of_perm hperm)

end Decoder

namespace Record

variable {α β : Type} {dialect : Dialect} {fields : List (String × Document)}

/-- The record is read from fields, wherever they stand and however their values are reordered. -/
def Finds (r : Record α) (dialect : Dialect) (fields : List (String × Document)) (a : α) : Prop :=
  ∀ find : String → Option Document,
    (∀ name, Option.Rel Document.Reordered (fields.lookup name) (find name)) →
    r.Reads dialect find a

theorem Finds.map {r : Record α} {a : α} (g : α → β) (h : r.Finds dialect fields a) :
    (g <$> r).Finds dialect fields (g a) :=
  fun find hfind => (h find hfind).map g

theorem Finds.seq {f : Record (α → β)} {g : α → β} {r : Record α} {a : α}
    (hf : f.Finds dialect fields g) (ha : r.Finds dialect fields a) :
    (f <*> r).Finds dialect fields (g a) :=
  fun find hfind => (hf find hfind).seq (ha find hfind)

theorem finds_part {name : String} {item : Decoder α} {d : Document} {a : α}
    (hfield : fields.lookup name = some d) (hitem : item.Finds dialect d a) (default : Option α) :
    (part name item default).Finds dialect fields a := by
  intro find hfind
  have hrel := hfind name
  rw [hfield] at hrel
  cases hd' : find name with
  | none =>
    rw [hd'] at hrel
    cases hrel
  | some d' =>
    rw [hd'] at hrel
    cases hrel with
    | some hrel => exact reads_part hd' (hitem d' hrel) default

theorem finds_field {name : String} {item : Decoder α} {d : Document} {a : α}
    (hfield : fields.lookup name = some d) (hitem : item.Finds dialect d a) :
    (field name item).Finds dialect fields a :=
  finds_part hfield hitem none

theorem finds_fieldOr {name : String} {item : Decoder α} {d : Document} {a : α}
    (hfield : fields.lookup name = some d) (hitem : item.Finds dialect d a) (default : α) :
    (fieldOr name item default).Finds dialect fields a :=
  finds_part hfield hitem (some default)

theorem finds_fieldOr_absent {name : String} (item : Decoder α) (default : α)
    (hfield : fields.lookup name = none) :
    (fieldOr name item default).Finds dialect fields default := by
  intro find hfind
  have hrel := hfind name
  rw [hfield] at hrel
  cases hd' : find name with
  | none => exact reads_fieldOr_absent item default hd'
  | some d' =>
    rw [hd'] at hrel
    cases hrel

theorem finds_object {r : Record α} {a : α} (title : String) (h : r.Finds dialect fields a) :
    (r.decode title).Finds dialect (.object fields) a := by
  intro d hd
  obtain ⟨gs, rfl⟩ := hd.exists_object
  exact decode_object title (h _ hd.rel_lookup)

end Record

end InjectionScan
