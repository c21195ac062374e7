import InjectionScan.Proofs.FileSystem.Replacement

/-! What is written to a file is read from it afterwards. -/
namespace InjectionScan.FileSystem

open FileTree

variable {root new : FileTree} {target : List String} {trail reached : List (String × FileTree)}

/-- There is no directory at the end of the chain of names. -/
def NoDirectoryAt (root : FileTree) (target : List String) : Prop :=
  ∀ t, root.at? target = some t → t.isDirectory = false

theorem exists_rest_of_prefix (htarget : NoDirectoryAt root target) (h : Leads root trail)
    (hd : (treeAt root trail).isDirectory = true) (hp : placeOf trail <+: target) :
    ∃ name rest, target = placeOf trail ++ name :: rest := by
  obtain ⟨rest, rfl⟩ := hp
  cases rest with
  | nil =>
    have hat := h.at?_placeOf
    rw [← List.append_nil (placeOf trail)] at hat
    rw [htarget _ hat] at hd
    cases hd
  | cons name rest => exact ⟨name, rest, rfl⟩

theorem isDirectory_patched_of_isDirectory (htarget : NoDirectoryAt root target)
    (h : Leads root trail) (hd : (treeAt root trail).isDirectory = true) (new : FileTree) :
    (patched target new (placeOf trail) (treeAt root trail)).isDirectory = true := by
  by_cases hp : placeOf trail <+: target
  · obtain ⟨name, rest, rfl⟩ := exists_rest_of_prefix htarget h hd hp
    rw [patched, if_pos hp, List.drop_left]
    rfl
  · rw [patched, if_neg hp]
    exact hd

theorem child?_patched_of_child? (htarget : NoDirectoryAt root target) (h : Leads root trail)
    (new : FileTree) {name : String} {t : FileTree}
    (hc : (treeAt root trail).child? name = some t) :
    (patched target new (placeOf trail) (treeAt root trail)).child? name =
      some (patched target new (placeOf trail ++ [name]) t) := by
  by_cases hp : placeOf trail <+: target
  · obtain ⟨next, rest, rfl⟩ := exists_rest_of_prefix htarget h (isDirectory_of_child? hc) hp
    rw [patched, if_pos hp, List.drop_left, child?_put_cons]
    by_cases hn : name = next
    · subst hn
      simp [hc, patched]
    · have hno : ¬ placeOf trail ++ [name] <+: placeOf trail ++ next :: rest := by
        simpa [List.prefix_append_right_inj] using hn
      rw [if_neg hn, hc, patched_eq_id hno, id]
  · have hno : ¬ placeOf trail ++ [name] <+: target := fun hpre =>
      hp ((List.prefix_append _ _).trans hpre)
    rw [patched_eq_id hp, patched_eq_id hno, id, id, hc]

/-- A path that led somewhere leads through the same names after something was put at a place where
no directory is. -/
theorem follow_put_of_ok (htarget : NoDirectoryAt root target) (h : Leads root trail)
    {segments : List (List Char)} (hf : follow root trail segments = .ok reached)
    (new : FileTree) :
    follow (root.put target new) (patchTrail target new trail) segments =
      .ok (patchTrail target new reached) := by
  induction segments generalizing trail with
  | nil =>
    obtain rfl : trail = reached := by simpa [follow] using hf
    rfl
  | cons segment segments ih =>
    rw [follow_cons] at hf
    split at hf
    · next hd =>
      rw [follow_cons, treeAt_patchTrail,
        if_pos (isDirectory_patched_of_isDirectory htarget h hd new)]
      split at hf
      · next hdot =>
        rw [if_pos hdot]
        exact ih h hf
      · next hdot =>
        rw [if_neg hdot]
        split at hf
        · next hup =>
          rw [if_pos hup, tail_patchTrail]
          exact ih h.tail hf
        · next hup =>
          rw [if_neg hup]
          split at hf
          · next t ht =>
            rw [child?_patched_of_child? htarget h new ht]
            exact ih (h.cons ht) hf
          · cases hf
    · cases hf

theorem follow_append (root : FileTree) (trail : List (String × FileTree))
    (segments more : List (List Char)) :
    follow root trail (segments ++ more) =
      (follow root trail segments).bind fun reached => follow root reached more := by
  induction segments generalizing trail with
  | nil => rfl
  | cons segment segments ih =>
    rw [List.cons_append, follow_cons, follow_cons]
    split
    · split
      · exact ih trail
      · split
        · exact ih trail.tail
        · split
          · exact ih _
          · rfl
    · rfl

/-- A name leads to what a directory holds under it. -/
theorem follow_name {segment : List Char} {t : FileTree} (hempty : segment ≠ [])
    (hdot : segment ≠ ['.']) (hup : segment ≠ ['.', '.'])
    (hc : (treeAt root trail).child? (String.ofList segment) = some t) :
    follow root trail [segment] = .ok ((String.ofList segment, t) :: trail) := by
  rw [follow_cons, if_pos (isDirectory_of_child? hc)]
  simp [hempty, hdot, hup, hc, follow]

section Writing

variable {fs after : FileSystem} {p : Path} {text : String}

theorem dropEndSlashes_prefix (segments : List (List Char)) :
    dropEndSlashes segments <+: segments := by
  rw [dropEndSlashes, ← List.reverse_suffix, List.reverse_reverse]
  exact List.dropWhile_suffix _

theorem getLast?_dropEndSlashes_ne_nil {segments : List (List Char)} {last : List Char}
    (h : (dropEndSlashes segments).getLast? = some last) : last ≠ [] := by
  rw [dropEndSlashes, List.getLast?_reverse] at h
  rintro rfl
  have := List.head?_dropWhile_not List.isEmpty segments.reverse
  rw [h] at this
  cases this

/-- Where a text is written: at a name in a directory that is there, and not at a directory. -/
theorem exists_of_write (h : fs.write p text = .ok after) :
    p.text.isEmpty = false ∧ ∃ directory last trail,
      ((fs.current.join p).segments).map Prod.fst = directory ++ [last] ∧
      last ≠ [] ∧ last ≠ ['.'] ∧ last ≠ ['.', '.'] ∧
      follow fs.root [] directory = .ok trail ∧
      (treeAt fs.root trail).isDirectory = true ∧
      NoDirectoryAt fs.root (placeOf trail ++ [String.ofList last]) ∧
      after = fs.withFile (placeOf trail ++ [String.ofList last]) text.toUTF8 := by
  simp only [write] at h
  split at h
  · cases h
  next hp =>
  refine ⟨by simpa using hp, ?_⟩
  split at h
  · cases h
  next last hlast =>
  have hempty := getLast?_dropEndSlashes_ne_nil hlast
  obtain ⟨directory, hnamed⟩ := List.getLast?_eq_some_iff.1 hlast
  rw [hnamed, List.dropLast_concat] at h
  split at h
  · cases h
  next trail hfollow =>
  split at h
  · cases h
  next hd =>
  split at h
  · cases h
  next hname =>
  simp only [Bool.or_eq_true, decide_eq_true_eq, beq_iff_eq, not_or, Nat.not_lt] at hname
  obtain ⟨⟨⟨hlength, hdot⟩, hup⟩, hchild⟩ := hname
  have hpre := dropEndSlashes_prefix (((fs.current.join p).segments).map Prod.fst)
  rw [hnamed] at hpre
  refine ⟨directory, last, trail, (hpre.eq_of_length_le hlength).symm, hempty, hdot, hup, hfollow,
    by simpa [treeAt] using hd, ?_, ?_⟩
  · intro t ht
    have hleads : Leads fs.root trail := (show Leads fs.root [] from trivial).follow hfollow
    rw [at?_append, hleads.at?_placeOf, Option.bind_some, at?] at ht
    obtain ⟨c, hc, hct⟩ := Option.bind_eq_some_iff.1 ht
    obtain rfl : c = t := by simpa [at?] using hct
    rw [treeAt] at hc
    simpa [hc] using hchild
  · rw [List.map_reverse] at h
    exact (Except.ok.inj h).symm

/-- What is written is read back. -/
theorem readText_of_write (h : fs.write p text = .ok after) : after.readText p = .ok text := by
  obtain ⟨hp, directory, last, trail, hsegments, hempty, hdot, hup, hfollow, -, hnone, rfl⟩ :=
    exists_of_write h
  have hthere := follow_put_of_ok hnone (show Leads fs.root [] from trivial) hfollow
    (.file text.toUTF8)
  have hchild : (treeAt (fs.root.put (placeOf trail ++ [String.ofList last]) (.file text.toUTF8))
      (patchTrail (placeOf trail ++ [String.ofList last]) (.file text.toUTF8) trail)).child?
        (String.ofList last) = some (.file text.toUTF8) := by
    rw [treeAt_patchTrail, patched, if_pos (List.prefix_append _ _), List.drop_left,
      child?_put_cons, if_pos rfl]
    rfl
  have hreach : (fs.withFile (placeOf trail ++ [String.ofList last]) text.toUTF8).trail p =
      .ok ((String.ofList last, .file text.toUTF8) ::
        patchTrail (placeOf trail ++ [String.ofList last]) (.file text.toUTF8) trail) := by
    rw [FileSystem.trail, if_neg (by simpa using hp)]
    simp only [withFile, hsegments]
    rw [follow_append, show [] = patchTrail _ _ [] from rfl, hthere]
    exact follow_name hempty hdot hup hchild
  apply readText_of_readBytes
  rw [readBytes, lookup_eq, hreach]
  rfl

end Writing

end InjectionScan.FileSystem
