import InjectionScan.FileSystem

/-! Replacing a file changes what is read at the paths that lead to it, and nothing else. -/
namespace InjectionScan

namespace FileTree

variable {t new : FileTree}

/-- What stands at the end of a chain of names. -/
def at? : FileTree → List String → Option FileTree
  | t, [] => some t
  | t, name :: names => (t.child? name).bind fun c => c.at? names

theorem at?_append (t : FileTree) (names more : List String) :
    t.at? (names ++ more) = (t.at? names).bind fun c => c.at? more := by
  induction names generalizing t with
  | nil => rfl
  | cons name names ih =>
    rw [List.cons_append, at?, at?]
    cases t.child? name with
    | none => rfl
    | some c => exact ih c

theorem find?_setEntry (name other : String) (t : FileTree) (es : List (String × FileTree)) :
    ((setEntry name t es).find? fun e => e.1 == other).map Prod.snd =
      if other = name then some t else (es.find? fun e => e.1 == other).map Prod.snd := by
  induction es with
  | nil =>
    by_cases h : name = other
    · simp [setEntry, h]
    · simp [setEntry, h, Ne.symm h]
  | cons e es ih =>
    rw [setEntry]
    by_cases he : e.1 = name
    · by_cases h : name = other
      · simp [he, h]
      · simp [he, h, Ne.symm h]
    · by_cases h : e.1 = other
      · simp [h, show other ≠ name from h ▸ he]
      · simpa [he, h] using ih

theorem child?_put_cons (t : FileTree) (name other : String) (names : List String) :
    (t.put (name :: names) new).child? other =
      if other = name then some (((t.child? name).getD (directory [])).put names new)
      else t.child? other := by
  rw [put, child?, entries, find?_setEntry]
  rfl

theorem eq_directory (h : t.isDirectory = true) : ∃ es, t = directory es := by
  cases t with
  | file content => cases h
  | directory es => exact ⟨es, rfl⟩

theorem isDirectory_of_child? {name : String} (h : t.child? name = some new) :
    t.isDirectory = true := by
  cases t with
  | file content => simp [child?, entries] at h
  | directory es => rfl

/-- A tree at a place, after something was put at the end of a chain of names. -/
def patched (target : List String) (new : FileTree) (place : List String) (t : FileTree) :
    FileTree :=
  if place <+: target then t.put (target.drop place.length) new else t

theorem patched_eq_id {target place : List String} (h : ¬ place <+: target) :
    patched target new place = id :=
  funext fun _ => if_neg h

end FileTree

namespace FileSystem

open FileTree

variable {root new : FileTree} {target : List String} {trail : List (String × FileTree)}

/-- The tree that a trail ends at. -/
def treeAt (root : FileTree) (trail : List (String × FileTree)) : FileTree :=
  (trail.head?.map Prod.snd).getD root

/-- The names on a trail, from the root on. -/
def placeOf (trail : List (String × FileTree)) : List String := (trail.map Prod.fst).reverse

/-- Every tree on the trail is the entry of that name in the one before it. -/
def Leads (root : FileTree) : List (String × FileTree) → Prop
  | [] => True
  | (name, t) :: trail => (treeAt root trail).child? name = some t ∧ Leads root trail

/-- The trail through the same names after something was put at the end of a chain of names. -/
def patchTrail (target : List String) (new : FileTree) :
    List (String × FileTree) → List (String × FileTree)
  | [] => []
  | (name, t) :: trail =>
    (name, patched target new (placeOf trail ++ [name]) t) :: patchTrail target new trail

theorem placeOf_cons (name : String) (t : FileTree) (trail : List (String × FileTree)) :
    placeOf ((name, t) :: trail) = placeOf trail ++ [name] := by
  simp [placeOf]

theorem Leads.cons {name : String} {t : FileTree} (h : Leads root trail)
    (hc : (treeAt root trail).child? name = some t) : Leads root ((name, t) :: trail) :=
  ⟨hc, h⟩

theorem Leads.tail (h : Leads root trail) : Leads root trail.tail := by
  cases trail with
  | nil => exact h
  | cons e trail => exact h.2

theorem Leads.at?_placeOf (h : Leads root trail) :
    root.at? (placeOf trail) = some (treeAt root trail) := by
  induction trail with
  | nil => rfl
  | cons e trail ih =>
    obtain ⟨name, t⟩ := e
    rw [placeOf_cons, at?_append, ih h.2, Option.bind_some, at?, h.1]
    rfl

theorem follow_cons (root : FileTree) (trail : List (String × FileTree)) (segment : List Char)
    (segments : List (List Char)) :
    follow root trail (segment :: segments) =
      if (treeAt root trail).isDirectory then
        if segment == [] || segment == ['.'] then follow root trail segments
        else if segment == ['.', '.'] then follow root trail.tail segments
        else
          match (treeAt root trail).child? (String.ofList segment) with
          | some t => follow root ((String.ofList segment, t) :: trail) segments
          | none => .error .notFound
      else .error .notDirectory := rfl

theorem Leads.follow (h : Leads root trail) {segments : List (List Char)}
    {reached : List (String × FileTree)} (hf : follow root trail segments = .ok reached) :
    Leads root reached := by
  induction segments generalizing trail with
  | nil =>
    obtain rfl : trail = reached := by simpa [FileSystem.follow] using hf
    exact h
  | cons segment segments ih =>
    rw [follow_cons] at hf
    split at hf
    · split at hf
      · exact ih h hf
      · split at hf
        · exact ih h.tail hf
        · split at hf
          · next t ht => exact ih (h.cons ht) hf
          · cases hf
    · cases hf

theorem tail_patchTrail (trail : List (String × FileTree)) :
    (patchTrail target new trail).tail = patchTrail target new trail.tail := by
  cases trail <;> rfl

theorem treeAt_patchTrail (trail : List (String × FileTree)) :
    treeAt (root.put target new) (patchTrail target new trail) =
      patched target new (placeOf trail) (treeAt root trail) := by
  cases trail with
  | nil => simp [patchTrail, treeAt, placeOf, patched]
  | cons e trail =>
    obtain ⟨name, t⟩ := e
    rw [placeOf_cons]
    rfl

section Simulation

variable {old bytes : ByteArray}

/-- Below a place on the way to the target the rest of the way is still there. -/
theorem Leads.at?_rest (h : Leads root trail) (ht : root.at? target = some (.file old))
    (hp : placeOf trail <+: target) :
    (treeAt root trail).at? (target.drop (placeOf trail).length) = some (.file old) := by
  obtain ⟨rest, rfl⟩ := hp
  rw [at?_append, h.at?_placeOf, Option.bind_some] at ht
  rw [List.drop_left]
  exact ht

theorem isDirectory_patched (h : Leads root trail) (ht : root.at? target = some (.file old)) :
    (patched target (.file bytes) (placeOf trail) (treeAt root trail)).isDirectory =
      (treeAt root trail).isDirectory := by
  rw [patched]
  split
  · next hp =>
    have hrest := h.at?_rest ht hp
    cases hd : target.drop (placeOf trail).length with
    | nil =>
      rw [hd, at?, Option.some_inj] at hrest
      rw [hrest]
      rfl
    | cons name names =>
      rw [hd, at?] at hrest
      obtain ⟨c, hc, -⟩ := Option.bind_eq_some_iff.1 hrest
      rw [isDirectory_of_child? hc]
      rfl
  · rfl

/-- An entry of a patched directory is the patched entry. -/
theorem child?_patched (h : Leads root trail) (ht : root.at? target = some (.file old))
    (hd : (treeAt root trail).isDirectory = true) (name : String) :
    (patched target (.file bytes) (placeOf trail) (treeAt root trail)).child? name =
      ((treeAt root trail).child? name).map
        (patched target (.file bytes) (placeOf trail ++ [name])) := by
  by_cases hp : placeOf trail <+: target
  · have hrest := h.at?_rest ht hp
    obtain ⟨rest, rfl⟩ := hp
    rw [patched, if_pos (List.prefix_append _ _)]
    rw [List.drop_left] at hrest ⊢
    cases rest with
    | nil =>
      rw [at?, Option.some_inj] at hrest
      rw [hrest] at hd
      cases hd
    | cons next rest =>
      rw [at?] at hrest
      obtain ⟨c, hc, -⟩ := Option.bind_eq_some_iff.1 hrest
      rw [child?_put_cons]
      by_cases hn : name = next
      · subst hn
        simp [hc, patched]
      · have hno : ¬ placeOf trail ++ [name] <+: placeOf trail ++ next :: rest := by
          simpa [List.prefix_append_right_inj] using hn
        rw [if_neg hn, patched_eq_id hno, Option.map_id, id]
  · have hno : ¬ placeOf trail ++ [name] <+: target := fun hpre =>
      hp ((List.prefix_append _ _).trans hpre)
    rw [patched_eq_id hp, patched_eq_id hno, Option.map_id, id, id]

/-- Following a path after the content of a file was replaced passes through the same names. -/
theorem follow_put (ht : root.at? target = some (.file old)) (h : Leads root trail)
    (segments : List (List Char)) :
    follow (root.put target (.file bytes)) (patchTrail target (.file bytes) trail) segments =
      (follow root trail segments).map (patchTrail target (.file bytes)) := by
  induction segments generalizing trail with
  | nil => rfl
  | cons segment segments ih =>
    rw [follow_cons, follow_cons, treeAt_patchTrail, isDirectory_patched h ht]
    by_cases hd : (treeAt root trail).isDirectory
    · rw [if_pos hd, if_pos hd]
      split
      · exact ih h
      · split
        · rw [tail_patchTrail]
          exact ih h.tail
        · rw [child?_patched h ht hd]
          cases hc : (treeAt root trail).child? (String.ofList segment) with
          | none => rfl
          | some t => exact ih (h.cons hc)
    · rw [if_neg hd, if_neg hd]
      rfl

end Simulation

section Reading

variable {fs : FileSystem} {p : Path} {old bytes : ByteArray}

/-- The names from the root to what a path leads to. -/
def place? (fs : FileSystem) (p : Path) : Except FileError (List String) :=
  (fs.trail p).map placeOf

/-- The file system with other content at the end of a chain of names. -/
def withFile (fs : FileSystem) (target : List String) (bytes : ByteArray) : FileSystem :=
  { fs with root := fs.root.put target (.file bytes) }

theorem lookup_eq (fs : FileSystem) (p : Path) : fs.lookup p = (fs.trail p).map (treeAt fs.root) :=
  rfl

theorem leads_of_trail (h : fs.trail p = .ok trail) : Leads fs.root trail := by
  rw [FileSystem.trail] at h
  split at h
  · cases h
  · exact (show Leads fs.root [] from trivial).follow h

theorem trail_withFile (ht : fs.root.at? target = some (.file old)) (p : Path) :
    (fs.withFile target bytes).trail p = (fs.trail p).map (patchTrail target (.file bytes)) := by
  rw [FileSystem.trail, FileSystem.trail]
  split
  · rfl
  · exact follow_put ht (show Leads fs.root [] from trivial) _

theorem lookup_withFile (ht : fs.root.at? target = some (.file old)) (p : Path) :
    (fs.withFile target bytes).lookup p =
      (fs.trail p).map fun trail =>
        patched target (.file bytes) (placeOf trail) (treeAt fs.root trail) := by
  rw [lookup_eq, trail_withFile ht]
  cases fs.trail p with
  | error e => rfl
  | ok trail => exact congrArg Except.ok (treeAt_patchTrail trail)

/-- Replacing a file leaves what is read from all other places as it was. -/
theorem readBytes_withFile_of_ne (ht : fs.root.at? target = some (.file old))
    (hne : fs.place? p ≠ .ok target) :
    (fs.withFile target bytes).readBytes p = fs.readBytes p := by
  rw [readBytes, readBytes, lookup_withFile ht, lookup_eq]
  cases htr : fs.trail p with
  | error e => rfl
  | ok trail =>
    have hplace : placeOf trail ≠ target := by
      intro he
      exact hne (by rw [place?, htr, ← he]; rfl)
    have hleads := leads_of_trail htr
    by_cases hp : placeOf trail <+: target
    · -- a directory on the way to the file, before as after
      have hdir : (treeAt fs.root trail).isDirectory = true := by
        have hrest := hleads.at?_rest ht hp
        obtain ⟨rest, rfl⟩ := hp
        rw [List.drop_left] at hrest
        cases rest with
        | nil => exact absurd (List.append_nil _).symm hplace
        | cons name rest =>
          rw [at?] at hrest
          obtain ⟨c, hc, -⟩ := Option.bind_eq_some_iff.1 hrest
          exact isDirectory_of_child? hc
      have hdir' : (patched target (.file bytes) (placeOf trail)
          (treeAt fs.root trail)).isDirectory = true := (isDirectory_patched hleads ht).trans hdir
      obtain ⟨es, hes⟩ := eq_directory hdir
      obtain ⟨es', hes'⟩ := eq_directory hdir'
      simp only [Except.map, hes']
      rw [hes]
    · simp only [Except.map, patched_eq_id hp, id]

theorem readBytes_withFile_self (ht : fs.root.at? target = some (.file old))
    (hp : fs.place? p = .ok target) :
    (fs.withFile target bytes).readBytes p = .ok bytes := by
  rw [readBytes, lookup_withFile ht]
  cases htr : fs.trail p with
  | error e => simp [place?, htr, Except.map] at hp
  | ok trail =>
    have hplace : placeOf trail = target := by simpa [place?, htr, Except.map] using hp
    simp [Except.map, patched, hplace, put]

theorem readText_withFile_of_ne (ht : fs.root.at? target = some (.file old))
    (hne : fs.place? p ≠ .ok target) :
    (fs.withFile target bytes).readText p = fs.readText p := by
  rw [readText, readText, readBytes_withFile_of_ne ht hne]

theorem fromUTF8?_toUTF8 (content : String) : String.fromUTF8? content.toUTF8 = some content := by
  rw [String.fromUTF8?, dif_pos (show content.toUTF8.IsValidUTF8 from content.isValidUTF8)]
  rfl

theorem readText_of_readBytes {content : String} (h : fs.readBytes p = .ok content.toUTF8) :
    fs.readText p = .ok content := by
  rw [readText, h]
  simp only [fromUTF8?_toUTF8]

theorem readText_withFile_self {content : String} (ht : fs.root.at? target = some (.file old))
    (hp : fs.place? p = .ok target) :
    (fs.withFile target content.toUTF8).readText p = .ok content :=
  readText_of_readBytes (readBytes_withFile_self ht hp)

end Reading

end FileSystem

end InjectionScan
