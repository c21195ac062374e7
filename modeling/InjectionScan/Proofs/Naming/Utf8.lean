import InjectionScan.Proofs.FileSystem.Replacement
import InjectionScan.Proofs.Text.ByteOrder
import Mathlib.Data.List.Basic

/-! Names that are bytes. Text is written in UTF-8, and marks are shown for what is no text. -/
namespace InjectionScan

namespace Utf8

open Text

variable {bs : List UInt8} {c x : Char} {name text : String}

section Decoding

/-- The character that bytes start with. -/
def first? (bs : List UInt8) : Option Char := bs.toByteArray.utf8DecodeChar? 0

/-- Whether a byte can be the second of a character of three or four bytes. -/
def mayFollow (lead second : UInt8) : Bool :=
  if lead == 0xE0 then 0xA0 ≤ second && second ≤ 0xBF
  else if lead == 0xED then 0x80 ≤ second && second ≤ 0x9F
  else if lead == 0xF0 then 0x90 ≤ second && second ≤ 0xBF
  else if lead == 0xF4 then 0x80 ≤ second && second ≤ 0x8F
  else 0xE1 ≤ lead && lead ≤ 0xF3 && 0x80 ≤ second && second ≤ 0xBF

/-- How many bytes one mark stands for: all that could still become a character, or a single one. -/
def brokenLength : List UInt8 → Nat
  | lead :: second :: rest =>
    if mayFollow lead second then
      if 0xF0 ≤ lead && rest.head?.any (fun third => 0x80 ≤ third && third ≤ 0xBF) then 3 else 2
    else 1
  | _ => 1

def mark : Char := Char.ofNat 0xFFFD

/-- The characters of bytes, without so many bytes at the front. -/
def lossyFrom : Nat → List UInt8 → List Char
  | _, [] => []
  | skip + 1, _ :: bs => lossyFrom skip bs
  | 0, b :: bs =>
    match first? (b :: bs) with
    | some c => c :: lossyFrom (c.utf8Size - 1) bs
    | none => mark :: lossyFrom (brokenLength (b :: bs) - 1) bs

/-- The byte that a character of a name stands for. Other characters are no part of any text. -/
def byteOf (c : Char) : UInt8 := if c.toNat < 256 then c.toUInt8 else 0xFF

def bytesIn (name : String) : List UInt8 := name.toList.map byteOf

end Decoding

section Encoding

theorem first?_eq_some_iff : first? bs = some c ↔ String.utf8EncodeChar c <+: bs := by
  constructor
  · intro h
    obtain ⟨rest, hrest⟩ := ByteArray.exists_of_utf8DecodeChar?_eq_some h
    have hlist := congrArg (fun b : ByteArray => b.data.toList) hrest
    exact ⟨rest.data.toList, by simpa using hlist.symm⟩
  · rintro ⟨rest, rfl⟩
    rw [first?, List.toByteArray_append]
    exact ByteArray.utf8DecodeChar?_utf8EncodeChar_append

/-- The last byte of all is in no character, and one below 128 is a character of its own. -/
theorem forall_mem_utf8EncodeChar (c : Char) :
    ∀ b ∈ String.utf8EncodeChar c, b.toNat < 255 ∧ (b.toNat < 128 → c.toNat = b.toNat) := by
  have hmax : c.val.toNat < 1114112 := by
    rcases c.valid with hc | hc
    · exact Nat.lt_trans hc (by decide)
    · exact hc.2
  simp only [String.utf8EncodeChar, Char.toNat]
  repeat' split
  all_goals
    simp only [List.forall_mem_cons, List.not_mem_nil, false_implies, implies_true, and_true,
      UInt8.toNat_ofNat']
    omega

theorem utf8EncodeChar_ascii (h : c.toNat < 128) : String.utf8EncodeChar c = [c.toUInt8] := by
  refine String.utf8EncodeChar_eq_singleton (Char.utf8Size_eq_one_iff.2 ?_)
  exact UInt32.le_iff_toNat_le.2 (Nat.le_of_lt_succ h)

end Encoding

section Lossy

theorem lossyFrom_of_some {b : UInt8} (h : first? (b :: bs) = some c) :
    lossyFrom 0 (b :: bs) = c :: lossyFrom (c.utf8Size - 1) bs := by
  rw [lossyFrom, h]

theorem lossyFrom_of_none {b : UInt8} (h : first? (b :: bs) = none) :
    lossyFrom 0 (b :: bs) = mark :: lossyFrom (brokenLength (b :: bs) - 1) bs := by
  rw [lossyFrom, h]

theorem lossyFrom_append (front bs : List UInt8) :
    lossyFrom front.length (front ++ bs) = lossyFrom 0 bs := by
  induction front with
  | nil => rfl
  | cons b front ih => exact ih

/-- A whole character is shown as itself. -/
theorem lossyFrom_utf8EncodeChar (c : Char) (bs : List UInt8) :
    lossyFrom 0 (String.utf8EncodeChar c ++ bs) = c :: lossyFrom 0 bs := by
  cases hc : String.utf8EncodeChar c with
  | nil => exact absurd hc String.utf8EncodeChar_ne_nil
  | cons b rest =>
    have hfirst : first? (b :: (rest ++ bs)) = some c :=
      first?_eq_some_iff.2 ⟨bs, by rw [hc, List.cons_append]⟩
    have hlength : c.utf8Size - 1 = rest.length := by
      rw [← String.length_utf8EncodeChar, hc, List.length_cons, Nat.add_sub_cancel]
    rw [List.cons_append, lossyFrom_of_some hfirst, hlength, lossyFrom_append]

theorem lossyFrom_bytesOf (cs : List Char) : lossyFrom 0 (bytesOf cs) = cs := by
  induction cs with
  | nil => rfl
  | cons c cs ih => rw [bytesOf_cons, lossyFrom_utf8EncodeChar, ih]

/-- No plain character is shown that is not there. -/
theorem toUInt8_mem_of_mem_lossyFrom {skip : Nat} (h : x ∈ lossyFrom skip bs)
    (hx : x.toNat < 128) : x.toUInt8 ∈ bs := by
  fun_induction lossyFrom skip bs with
  | case1 => cases h
  | case2 skip b bs ih => exact List.mem_cons_of_mem _ (ih h)
  | case3 b bs c hc ih =>
    rcases List.mem_cons.1 h with rfl | h
    · refine (first?_eq_some_iff.1 hc).subset ?_
      rw [utf8EncodeChar_ascii hx]
      exact List.mem_singleton_self _
    · exact List.mem_cons_of_mem _ (ih h)
  | case4 b bs hnone ih =>
    rcases List.mem_cons.1 h with rfl | h
    · exact absurd hx (by decide)
    · exact List.mem_cons_of_mem _ (ih h)

/-- If all that is shown is plain, it is what is there. -/
theorem map_toUInt8_lossyFrom (h : ∀ c ∈ lossyFrom 0 bs, c.toNat < 128) :
    (lossyFrom 0 bs).map Char.toUInt8 = bs := by
  induction bs with
  | nil => rfl
  | cons b bs ih =>
    cases hfirst : first? (b :: bs) with
    | none =>
      rw [lossyFrom_of_none hfirst] at h
      exact absurd (h mark List.mem_cons_self) (by decide)
    | some c =>
      rw [lossyFrom_of_some hfirst] at h ⊢
      obtain ⟨hc, hrest⟩ := List.forall_mem_cons.1 h
      have hlead := first?_eq_some_iff.1 hfirst
      have hlength := String.length_utf8EncodeChar c
      rw [utf8EncodeChar_ascii hc] at hlead hlength
      rw [← hlength] at hrest ⊢
      rw [List.map_cons, (List.cons_prefix_cons.1 hlead).1]
      exact congrArg _ (ih hrest)

end Lossy

section Bytes

theorem toNat_toUInt8 (h : c.toNat < 256) : c.toUInt8.toNat = c.toNat := by
  rw [Char.toUInt8, UInt32.toNat_toUInt8]
  exact Nat.mod_eq_of_lt h

theorem toNat_ofUInt8 (b : UInt8) : (Char.ofUInt8 b).toNat = b.toNat := UInt8.toNat_toUInt32 b

theorem ofUInt8_toUInt8 (h : c.toNat < 256) : Char.ofUInt8 c.toUInt8 = c := by
  apply Char.ext
  apply UInt32.toNat_inj.1
  exact (toNat_ofUInt8 _).trans (toNat_toUInt8 h)

theorem byteOf_ofUInt8 (b : UInt8) : byteOf (Char.ofUInt8 b) = b := by
  have hb : (Char.ofUInt8 b).toNat < 256 := by
    rw [toNat_ofUInt8]
    exact b.toNat_lt
  rw [byteOf, if_pos hb]
  apply UInt8.toNat_inj.1
  rw [toNat_toUInt8 hb, toNat_ofUInt8]

theorem ofUInt8_byteOf (h : (byteOf c).toNat < 255) : Char.ofUInt8 (byteOf c) = c := by
  by_cases hc : c.toNat < 256
  · rw [byteOf, if_pos hc, ofUInt8_toUInt8 hc]
  · rw [byteOf, if_neg hc] at h
    exact absurd h (by decide)

theorem fromUTF8?_toByteArray_eq_some_iff :
    String.fromUTF8? bs.toByteArray = some text ↔ bs = bytesOf text.toList := by
  have hbytes : (bytesOf text.toList).toByteArray = text.toUTF8 := by
    rw [String.toUTF8_eq_toByteArray, ← String.utf8Encode_toList]
    rfl
  constructor
  · intro h
    rw [String.fromUTF8?] at h
    split at h
    · obtain rfl := Option.some.inj h
      exact List.toByteArray_inj.1 hbytes.symm
    · cases h
  · rintro rfl
    rw [hbytes, FileSystem.fromUTF8?_toUTF8]

end Bytes

section Names

/-- How a character is written in bytes, one character of the name for each. -/
def spell (c : Char) : List Char := (String.utf8EncodeChar c).map Char.ofUInt8

theorem flatMap_spell (cs : List Char) : cs.flatMap spell = (bytesOf cs).map Char.ofUInt8 := by
  rw [bytesOf, List.map_flatMap]
  rfl

theorem map_byteOf_eq_bytesOf_iff {ns cs : List Char} :
    ns.map byteOf = bytesOf cs ↔ ns = cs.flatMap spell := by
  rw [flatMap_spell]
  constructor
  · intro h
    rw [← h, List.map_map]
    refine (List.map_id' _).symm.trans (List.map_congr_left fun n hn => ?_)
    have hmem : byteOf n ∈ bytesOf cs := h ▸ List.mem_map_of_mem hn
    obtain ⟨c, -, hc⟩ := List.mem_flatMap.1 hmem
    exact (ofUInt8_byteOf (forall_mem_utf8EncodeChar c _ hc).1).symm
  · rintro rfl
    rw [List.map_map]
    exact (List.map_congr_left fun b _ => byteOf_ofUInt8 b).trans (List.map_id' _)

theorem spell_ascii (h : c.toNat < 128) : spell c = [c] := by
  rw [spell, utf8EncodeChar_ascii h, List.map_singleton, ofUInt8_toUInt8 (by omega)]

theorem bytesOf_ascii {cs : List Char} (h : ∀ c ∈ cs, c.toNat < 128) :
    bytesOf cs = cs.map Char.toUInt8 := by
  rw [bytesOf, ← List.flatMap_singleton' (cs.map Char.toUInt8), List.flatMap_map]
  exact List.flatMap_congr fun c hc => utf8EncodeChar_ascii (h c hc)

theorem flatMap_spell_ascii {cs : List Char} (h : ∀ c ∈ cs, c.toNat < 128) :
    cs.flatMap spell = cs :=
  (List.flatMap_congr fun c hc => spell_ascii (h c hc)).trans (List.flatMap_singleton' cs)

theorem eq_of_mem_spell (h : x ∈ spell c) (hx : x.toNat < 128) : c = x := by
  obtain ⟨b, hb, rfl⟩ := List.mem_map.1 h
  rw [toNat_ofUInt8] at hx
  apply Char.toNat_inj.1
  rw [(forall_mem_utf8EncodeChar c b hb).2 hx, toNat_ofUInt8]

/-- Only the character itself stands for a plain byte. -/
theorem eq_of_byteOf_eq (hx : x.toNat < 128) (h : byteOf c = x.toUInt8) : c = x := by
  have hsmall : (byteOf c).toNat < 255 := by
    rw [h, toNat_toUInt8 (by omega)]
    omega
  rw [← ofUInt8_byteOf hsmall, h, ofUInt8_toUInt8 (by omega)]

end Names

end Utf8

/-- Names that are bytes, each written as the character of the same number. -/
@[reducible] def Naming.utf8 : Naming where
  spell := Utf8.spell
  text? name := String.fromUTF8? (Utf8.bytesIn name).toByteArray
  shown name := String.ofList (Utf8.lossyFrom 0 (Utf8.bytesIn name))
  bytes := Utf8.bytesIn
  text?_eq_some_iff := by
    intro name text
    rw [Utf8.fromUTF8?_toByteArray_eq_some_iff, Utf8.bytesIn, Utf8.map_byteOf_eq_bytesOf_iff]
  shown_of_text? := by
    intro name text h
    rw [Utf8.fromUTF8?_toByteArray_eq_some_iff] at h
    rw [h, Utf8.lossyFrom_bytesOf, String.ofList_toList]
  spell_ascii := Utf8.spell_ascii
  eq_of_mem_spell := Utf8.eq_of_mem_spell
  mem_of_mem_shown := by
    intro name c h hc
    rw [String.toList_ofList] at h
    obtain ⟨n, hn, hbyte⟩ := List.mem_map.1 (Utf8.toUInt8_mem_of_mem_lossyFrom h hc)
    exact Utf8.eq_of_byteOf_eq hc hbyte ▸ hn
  shown_of_ascii := by
    intro name h
    rw [String.toList_ofList] at h
    have hbytes := (Utf8.bytesOf_ascii h).trans (Utf8.map_toUInt8_lossyFrom h)
    rw [← String.toList_inj, String.toList_ofList, ← Utf8.flatMap_spell_ascii h]
    exact (Utf8.map_byteOf_eq_bytesOf_iff.1 hbytes.symm).symm

end InjectionScan
