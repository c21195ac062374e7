import InjectionScan.Proofs.Text.PhysicalLine

/-! Texts are in the same order as their bytes, and one starts with another if its bytes do. -/
namespace InjectionScan.Text

theorem ofNat_lt_ofNat_iff {m n : Nat} (hm : m < 256) (hn : n < 256) :
    UInt8.ofNat m < UInt8.ofNat n ↔ m < n := by
  rw [UInt8.lt_iff_toNat_lt, UInt8.toNat_ofNat_of_lt' hm, UInt8.toNat_ofNat_of_lt' hn]

theorem ofNat_eq_ofNat_iff {m n : Nat} (hm : m < 256) (hn : n < 256) :
    UInt8.ofNat m = UInt8.ofNat n ↔ m = n := by
  rw [← UInt8.toNat_inj, UInt8.toNat_ofNat_of_lt' hm, UInt8.toNat_ofNat_of_lt' hn]

/-- Two characters differ in a byte before either of them ends, whatever follows. -/
theorem utf8EncodeChar_append_lt {c d : Char} (h : c < d) (xs ys : List UInt8) :
    String.utf8EncodeChar c ++ xs < String.utf8EncodeChar d ++ ys := by
  have hv : c.val.toNat < d.val.toNat := h
  have hd : d.val.toNat < 1114112 := by
    rcases d.valid with hd | hd
    · exact Nat.lt_trans hd (by decide)
    · exact hd.2
  -- by the number of bytes of both: the first bytes tell the longer one, and in the same number of
  -- bytes the groups of six bits are compared from the highest on
  have htwo : ∀ n : Nat, n / 4096 = n / 64 / 64 := fun n => by omega
  have hthree : ∀ n : Nat, n / 262144 = n / 64 / 64 / 64 := fun n => by omega
  simp only [String.utf8EncodeChar, htwo, hthree]
  repeat' split
  all_goals
    simp (disch := omega) only [List.cons_append, List.nil_append, List.cons_lt_cons_iff,
      ofNat_lt_ofNat_iff, ofNat_eq_ofNat_iff]
    omega

theorem bytesOf_lt_bytesOf {cs ds : List Char} (h : cs < ds) : bytesOf cs < bytesOf ds := by
  induction cs generalizing ds with
  | nil =>
    cases ds with
    | nil => exact absurd h (List.lt_irrefl [])
    | cons d ds =>
      have hpos : 0 < (bytesOf (d :: ds)).length := by
        rw [length_bytesOf, byteLength_cons]
        exact Nat.add_pos_left d.utf8Size_pos _
      obtain ⟨b, bs, hb⟩ := List.exists_cons_of_length_pos hpos
      rw [hb]
      exact List.nil_lt_cons b bs
  | cons c cs ih =>
    cases ds with
    | nil => exact absurd h (List.not_lt_nil _)
    | cons d ds =>
      rw [bytesOf_cons, bytesOf_cons]
      rcases List.cons_lt_cons_iff.1 h with hcd | ⟨rfl, hrest⟩
      · exact utf8EncodeChar_append_lt hcd _ _
      · exact List.append_left_lt (ih hrest)

/-- A text that comes before another one does so also byte by byte. -/
theorem toUTF8_lt_toUTF8 {s t : String} (h : s < t) : s.toUTF8.toList < t.toUTF8.toList := by
  rw [toList_toUTF8, toList_toUTF8]
  exact bytesOf_lt_bytesOf (String.lt_iff.1 h)

theorem toUTF8_le_toUTF8_iff {s t : String} : s.toUTF8.toList ≤ t.toUTF8.toList ↔ s ≤ t := by
  rw [← List.not_lt, ← String.not_lt, not_iff_not]
  refine ⟨fun hbytes => Classical.byContradiction fun hnot => ?_, toUTF8_lt_toUTF8⟩
  have hle := String.not_lt.1 hnot
  by_cases heq : s = t
  · subst heq
    exact List.lt_irrefl _ hbytes
  · have hlt := toUTF8_lt_toUTF8 (Std.lt_of_le_of_ne hle heq)
    exact List.lt_irrefl _ (List.lt_trans hbytes hlt)

theorem eq_of_utf8EncodeChar_append_eq {c d : Char} {xs ys : List UInt8}
    (h : String.utf8EncodeChar c ++ xs = String.utf8EncodeChar d ++ ys) : c = d := by
  by_cases hcd : c < d
  · have hlt := utf8EncodeChar_append_lt hcd xs ys
    rw [h] at hlt
    exact absurd hlt (List.lt_irrefl _)
  · by_cases hdc : d < c
    · have hlt := utf8EncodeChar_append_lt hdc ys xs
      rw [h] at hlt
      exact absurd hlt (List.lt_irrefl _)
    · exact Char.le_antisymm (Char.not_lt.1 hdc) (Char.not_lt.1 hcd)

theorem bytesOf_append (cs ds : List Char) : bytesOf (cs ++ ds) = bytesOf cs ++ bytesOf ds :=
  List.flatMap_append

theorem bytesOf_prefix_iff {cs ds : List Char} : bytesOf cs <+: bytesOf ds ↔ cs <+: ds := by
  constructor
  · intro h
    induction cs generalizing ds with
    | nil => exact List.nil_prefix
    | cons c cs ih =>
      obtain ⟨rest, hrest⟩ := h
      cases ds with
      | nil =>
        have hpos := c.utf8Size_pos
        have hlength := congrArg List.length hrest
        rw [List.length_append, length_bytesOf, byteLength_cons] at hlength
        simp [bytesOf] at hlength
        omega
      | cons d ds =>
        rw [bytesOf_cons, bytesOf_cons, List.append_assoc] at hrest
        obtain rfl := eq_of_utf8EncodeChar_append_eq hrest
        rw [List.append_cancel_left_eq] at hrest
        exact List.cons_prefix_cons.2 ⟨rfl, ih ⟨rest, hrest⟩⟩
  · rintro ⟨rest, rfl⟩
    rw [bytesOf_append]
    exact List.prefix_append _ _

end InjectionScan.Text
