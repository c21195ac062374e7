import InjectionScan.Document.Decode

/-! Records are read from the fields of an object by name. -/
namespace InjectionScan

section Fields

variable {α : Type} {fields : List (String × α)} {name : String}

theorem lookup_cons_ite (name key : String) (x : α) (fields : List (String × α)) :
    ((key, x) :: fields).lookup name = if name = key then some x else fields.lookup name := by
  by_cases h : name = key
  · simp [h]
  · simp [List.lookup_cons, h, show (name == key) = false by simpa using h]

theorem lookup_eq_none_iff_notMem : fields.lookup name = none ↔ name ∉ fields.map Prod.fst := by
  rw [List.lookup_eq_none_iff, List.mem_map]
  constructor
  · rintro h ⟨f, hf, rfl⟩
    simpa using h f hf
  · intro h f hf
    simpa using fun hname => h ⟨f, hf, Eq.symm hname⟩

theorem mem_of_lookup {x : α} (h : fields.lookup name = some x) : (name, x) ∈ fields := by
  obtain ⟨before, after, rfl, -⟩ := List.lookup_eq_some_iff.1 h
  exact List.mem_append_right before List.mem_cons_self

end Fields

/-- A dialect in which a name alone is a choice. -/
def Dialect.ReadsNames (dialect : Dialect) : Prop :=
  ∀ names s, dialect.choice names (.string s) = .ok s

namespace Decoder

variable {α β : Type} {dialect : Dialect}

theorem count_nat {n : Nat} (h : n < Nat.pow 2 64) (dialect : Dialect) :
    count dialect (.nat n) = .ok n := by
  have hfits : (n : Int) < 18446744073709551616 := Int.ofNat_lt.2 h
  simp [Document.nat, count, hfits]

/-- Whatever the decoder accepts has the property. -/
def Yields (item : Decoder α) (p : α → Prop) : Prop := ∀ dialect d a, item dialect d = .ok a → p a

theorem yields_count : count.Yields (· < Nat.pow 2 64) := by
  intro dialect d n h
  rw [count.eq_def] at h
  split at h
  · next k =>
    split at h
    · next hk =>
      cases h
      simp only [Bool.and_eq_true, decide_eq_true_eq] at hk
      exact (Int.toNat_lt hk.1).2 hk.2
    · cases h
  · cases h

theorem yields_list {item : Decoder α} {p : α → Prop} (h : item.Yields p) :
    (list item).Yields fun xs => ∀ x ∈ xs, p x := by
  intro dialect d xs hxs
  rw [list.eq_def] at hxs
  split at hxs
  · next items =>
    induction items generalizing xs with
    | nil =>
      cases hxs
      exact fun x hx => nomatch hx
    | cons d items ih =>
      rw [List.mapM_cons] at hxs
      cases hd : item dialect d with
      | error e =>
        rw [hd] at hxs
        cases hxs
      | ok x =>
        cases hrest : items.mapM (item dialect) with
        | error e =>
          rw [hd, hrest] at hxs
          cases hxs
        | ok rest =>
          rw [hd, hrest] at hxs
          cases hxs
          exact List.forall_mem_cons.2 ⟨h dialect d x hd, ih rest hrest⟩
  · cases hxs

end Decoder

namespace Record

variable {α β : Type} {dialect : Dialect} {find : String → Option Document}

/-- The parts that are found make a record without fault. -/
def Reads (r : Record α) (dialect : Dialect) (find : String → Option Document) (a : α) : Prop :=
  r.read dialect find = ⟨[], .ok a⟩

theorem Reads.map {r : Record α} {a : α} (g : α → β) (h : r.Reads dialect find a) :
    (g <$> r).Reads dialect find (g a) := by
  change ((constant g).apply r).read dialect find = _
  simp only [Reads] at h
  simp [apply, constant, h]

theorem Reads.seq {f : Record (α → β)} {g : α → β} {r : Record α} {a : α}
    (hf : f.Reads dialect find g) (ha : r.Reads dialect find a) :
    (f <*> r).Reads dialect find (g a) := by
  change (f.apply r).read dialect find = _
  simp only [Reads] at hf ha
  simp [apply, hf, ha]

theorem reads_part {name : String} {item : Decoder α} {d : Document} {a : α}
    (hfind : find name = some d) (hitem : item dialect d = .ok a) (default : Option α) :
    (part name item default).Reads dialect find a := by
  simp [Reads, part, hfind, hitem]

theorem reads_fieldOr {name : String} {item : Decoder α} {d : Document} {a : α}
    (hfind : find name = some d) (hitem : item dialect d = .ok a) (default : α) :
    (fieldOr name item default).Reads dialect find a :=
  reads_part hfind hitem (some default)

theorem reads_fieldOr_absent {name : String} (item : Decoder α) (default : α)
    (hfind : find name = none) : (fieldOr name item default).Reads dialect find default := by
  simp [Reads, fieldOr, part, hfind]

theorem decode_object {r : Record α} {a : α} {fields : List (String × Document)} (title : String)
    (h : r.Reads dialect (fun name => fields.lookup name) a) :
    r.decode title dialect (.object fields) = .ok a := by
  have hfaults : fields.findSome? (fun _ => (none : Option DecodeError)) = none :=
    List.findSome?_eq_none_iff.2 fun _ _ => rfl
  simp only [Reads] at h
  simp [decode, parts?, h, hfaults]

/-- Whatever is read as the record has the property. -/
def Yields (r : Record α) (p : α → Prop) : Prop :=
  ∀ dialect find a, (r.read dialect find).value = .ok a → p a

theorem Yields.any (r : Record α) : r.Yields fun _ => True := fun _ _ _ _ => trivial

theorem Yields.seq {f : Record (α → β)} {r : Record α} {q : α → Prop} {p : β → Prop}
    (hr : r.Yields q) (hf : f.Yields fun g => ∀ a, q a → p (g a)) : (f <*> r).Yields p := by
  intro dialect find b h
  change ((f.apply r).read dialect find).value = _ at h
  simp only [apply] at h
  split at h
  · cases h
  · next g hg =>
    split at h
    · cases h
    · next a ha =>
      cases h
      exact hf dialect find g hg a (hr dialect find a ha)

theorem Yields.map {g : α → β} {r : Record α} {q : α → Prop} {p : β → Prop} (hr : r.Yields q)
    (h : ∀ a, q a → p (g a)) : (g <$> r).Yields p := by
  have hconstant : (constant g).Yields fun g' => ∀ a, q a → p (g' a) := by
    rintro dialect find g' ⟨⟩
    exact h
  exact hr.seq hconstant

theorem yields_part {item : Decoder α} {p : α → Prop} {default : Option α} (name : String)
    (h : item.Yields p) (hdefault : ∀ a ∈ default, p a) : (part name item default).Yields p := by
  intro dialect find a ha
  simp only [part] at ha
  split at ha
  · split at ha
    · next hsome =>
      cases ha
      exact hdefault a rfl
    · cases ha
  · next d hd =>
    split at ha
    · next hitem =>
      cases ha
      exact h dialect d a hitem
    · cases ha

theorem yields_field {item : Decoder α} {p : α → Prop} (name : String) (h : item.Yields p) :
    (field name item).Yields p :=
  yields_part name h (by simp)

theorem yields_fieldOr {item : Decoder α} {p : α → Prop} {default : α} (name : String)
    (h : item.Yields p) (hdefault : p default) : (fieldOr name item default).Yields p :=
  yields_part name h (by simpa using hdefault)

theorem yields_decode {r : Record α} {p : α → Prop} (title : String) (h : r.Yields p) :
    (r.decode title).Yields p := by
  intro dialect d a ha
  simp only [decode] at ha
  split at ha
  · cases ha
  · split at ha
    · cases ha
    · split at ha
      · cases ha
      · next hvalue =>
        have hp := h dialect _ _ hvalue
        split at ha
        · split at ha
          · cases ha
          · cases ha
            exact hp
        · cases ha
          exact hp

end Record

end InjectionScan
