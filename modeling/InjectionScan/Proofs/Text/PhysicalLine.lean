import InjectionScan.Syntax.Source
import InjectionScan.Text.Cut
import Mathlib.Algebra.GroupWithZero.Nat
import Mathlib.Data.List.Induction

/-! Physical lines, the stretches of a text between newlines, and lines and positions. -/
namespace InjectionScan.Text

variable {cs : List Char} {pieces : List (List Char)} {offset i k : Nat}

theorem splitOn_ne_nil (separator : Char) (cs : List Char) : splitOn separator cs ≠ [] := by
  cases cs with
  | nil => simp [splitOn]
  | cons c cs =>
    rw [splitOn]
    split
    · simp
    · split <;> simp

theorem splitOn_cons_of_ne {separator c : Char} (h : c ≠ separator) (cs : List Char) :
    splitOn separator (c :: cs) = (splitOn separator cs).modifyHead (c :: ·) := by
  rw [splitOn, if_neg h]
  cases hs : splitOn separator cs with
  | nil => exact absurd hs (splitOn_ne_nil separator cs)
  | cons piece pieces => rfl

theorem splitOn_cons_self (separator : Char) (cs : List Char) :
    splitOn separator (separator :: cs) = [] :: splitOn separator cs := by
  rw [splitOn, if_pos rfl]

theorem splitOn_eq_singleton {separator : Char} (h : separator ∉ cs) :
    splitOn separator cs = [cs] := by
  induction cs with
  | nil => rfl
  | cons c cs ih =>
    obtain ⟨hc, hcs⟩ : separator ≠ c ∧ separator ∉ cs := by simpa using h
    rw [splitOn_cons_of_ne (Ne.symm hc), ih hcs, List.modifyHead_cons]

theorem splitOn_append (separator : Char) (cs rest : List Char) :
    splitOn separator (cs ++ separator :: rest) =
      splitOn separator cs ++ splitOn separator rest := by
  induction cs with
  | nil => exact splitOn_cons_self separator rest
  | cons c cs ih =>
    rw [List.cons_append]
    by_cases hc : c = separator
    · subst hc
      rw [splitOn_cons_self, splitOn_cons_self, ih, List.cons_append]
    · rw [splitOn_cons_of_ne hc, splitOn_cons_of_ne hc, ih]
      obtain ⟨piece, pieces, hcs⟩ := List.exists_cons_of_ne_nil (splitOn_ne_nil separator cs)
      rw [hcs, List.cons_append, List.modifyHead_cons, List.modifyHead_cons, List.cons_append]

theorem splitOn_append_cons {separator : Char} (h : separator ∉ cs) (rest : List Char) :
    splitOn separator (cs ++ separator :: rest) = cs :: splitOn separator rest := by
  rw [splitOn_append, splitOn_eq_singleton h, List.singleton_append]

theorem splitOn_joinWith {separator : Char} (hne : pieces ≠ [])
    (h : ∀ piece ∈ pieces, separator ∉ piece) :
    splitOn separator (joinWith separator pieces) = pieces := by
  fun_induction joinWith separator pieces with
  | case1 => exact absurd rfl hne
  | case2 piece => exact splitOn_eq_singleton (h piece (by simp))
  | case3 piece pieces hpieces ih =>
    rw [splitOn_append_cons (h piece (by simp)),
      ih (fun he => hpieces he) fun piece' hmem => h piece' (by simp [hmem])]

theorem separator_notMem_of_mem_splitOn {separator : Char} {piece : List Char}
    (h : piece ∈ splitOn separator cs) : separator ∉ piece := by
  induction cs generalizing piece with
  | nil => simp_all [splitOn]
  | cons c cs ih =>
    by_cases hc : c = separator
    · subst hc
      rw [splitOn_cons_self] at h
      obtain rfl | h := List.mem_cons.1 h
      · simp
      · exact ih h
    · rw [splitOn_cons_of_ne hc] at h
      cases hs : splitOn separator cs with
      | nil => exact absurd hs (splitOn_ne_nil separator cs)
      | cons head tail =>
        rw [hs, List.modifyHead_cons] at h
        rw [hs] at ih
        obtain rfl | h := List.mem_cons.1 h
        · simp [Ne.symm hc, ih List.mem_cons_self]
        · exact ih (List.mem_cons_of_mem head h)

/-- The stretches between newlines, with the carriage returns in them. -/
def physicalLines (content : String) : List (List Char) := splitOn '\n' content.toList

/-- The physical line with a number; the first one is number one. -/
def physicalLine? (content : String) : Nat → Option (List Char)
  | 0 => none
  | k + 1 => (physicalLines content)[k]?

section ReplaceLine

/-- The text with another physical line in place of the one with a number. -/
def replaceLine (content : String) (k : Nat) (line : List Char) : String :=
  match k with
  | 0 => content
  | i + 1 => String.ofList (joinWith '\n' ((physicalLines content).set i line))

theorem physicalLines_replaceLine {line : List Char} (h : '\n' ∉ line) (content : String)
    (i : Nat) :
    physicalLines (replaceLine content (i + 1) line) = (physicalLines content).set i line := by
  rw [replaceLine, physicalLines, String.toList_ofList]
  refine splitOn_joinWith (by simpa [physicalLines] using splitOn_ne_nil _ _) fun piece hpiece => ?_
  obtain hpiece | rfl := List.mem_or_eq_of_mem_set hpiece
  · exact separator_notMem_of_mem_splitOn hpiece
  · exact h

theorem physicalLine?_replaceLine_of_ne {line : List Char} (h : '\n' ∉ line) (content : String)
    {j : Nat} (hne : k ≠ j) : physicalLine? (replaceLine content k line) j =
      physicalLine? content j := by
  cases j with
  | zero => rfl
  | succ j =>
    cases k with
    | zero => rfl
    | succ i =>
      rw [physicalLine?, physicalLine?, physicalLines_replaceLine h]
      exact List.getElem?_set_ne (by omega)

end ReplaceLine

section Lines

/-- Lines from stretches. All but the last one were ended by a newline, and an empty last one is no
line. -/
def linesOf : List (List Char) → List (List Char)
  | [] => []
  | [piece] => if piece.isEmpty then [] else [piece]
  | piece :: next :: pieces => dropReturn piece :: linesOf (next :: pieces)

theorem eq_dropReturn_or (line : List Char) :
    line = dropReturn line ∨ line = dropReturn line ++ ['\r'] := by
  rw [dropReturn]
  split
  · next h =>
    obtain ⟨front, rfl⟩ := List.getLast?_eq_some_iff.1 h
    exact .inr (by simp)
  · exact .inl rfl

theorem linesOf_cons (piece : List Char) (h : pieces ≠ []) :
    linesOf (piece :: pieces) = dropReturn piece :: linesOf pieces := by
  cases pieces with
  | nil => exact absurd rfl h
  | cons next pieces => rfl

theorem modifyHead_nil_append (pieces : List (List Char)) :
    pieces.modifyHead ([] ++ ·) = pieces := by
  cases pieces <;> rfl

/-- What was read of the first line belongs to the first stretch. -/
theorem linesFrom_eq (line cs : List Char) :
    linesFrom line cs = linesOf ((splitOn '\n' cs).modifyHead (line.reverse ++ ·)) := by
  induction cs generalizing line with
  | nil => simp [linesFrom, splitOn, linesOf]
  | cons c cs ih =>
    by_cases hc : c = '\n'
    · subst hc
      rw [linesFrom, if_pos rfl, splitOn_cons_self, List.modifyHead_cons, List.append_nil,
        linesOf_cons _ (splitOn_ne_nil _ _), ih, List.reverse_nil, modifyHead_nil_append]
    · rw [linesFrom, if_neg hc, splitOn_cons_of_ne hc, List.modifyHead_modifyHead, ih]
      congr 2
      funext piece
      simp

theorem lines_eq (content : String) : lines content = linesOf (physicalLines content) := by
  rw [lines, linesFrom_eq, physicalLines, List.reverse_nil, modifyHead_nil_append]

theorem length_linesOf_le (pieces : List (List Char)) :
    (linesOf pieces).length ≤ pieces.length := by
  fun_induction linesOf pieces with
  | case1 => simp
  | case2 piece h => simp
  | case3 piece h => simp
  | case4 piece next pieces ih => simpa using ih

theorem getElem?_linesOf_of_lt (h : i + 1 < pieces.length) :
    (linesOf pieces)[i]? = pieces[i]?.map dropReturn := by
  induction pieces generalizing i with
  | nil => simp at h
  | cons piece pieces ih =>
    have hne : pieces ≠ [] := by
      intro he
      simp [he] at h
    rw [linesOf_cons piece hne]
    cases i with
    | zero => simp
    | succ i => simpa using ih (by simpa using h)

theorem getElem?_linesOf_of_eq (h : i + 1 = pieces.length) :
    (linesOf pieces)[i]? = pieces[i]?.filter fun piece => !piece.isEmpty := by
  induction pieces generalizing i with
  | nil => simp at h
  | cons piece pieces ih =>
    cases i with
    | zero =>
      obtain rfl : pieces = [] := by simpa using h
      cases piece <;> rfl
    | succ i =>
      have hne : pieces ≠ [] := by
        intro he
        simp [he] at h
      rw [linesOf_cons piece hne]
      simpa using ih (by simpa using h)

/-- The line of a text with a number; the first one is number one. -/
def LineAt (content : String) (n : Nat) (line : List Char) : Prop :=
  0 < n ∧ (lines content)[n - 1]? = some line

theorem newline_notMem_of_mem_linesOf {line : List Char} (h : ∀ piece ∈ pieces, '\n' ∉ piece)
    (hline : line ∈ linesOf pieces) : '\n' ∉ line := by
  fun_induction linesOf pieces with
  | case1 => cases hline
  | case2 piece hempty => cases hline
  | case3 piece hempty =>
    obtain rfl := List.mem_singleton.1 hline
    exact h line List.mem_cons_self
  | case4 piece next pieces ih =>
    obtain ⟨hpiece, hrest⟩ := List.forall_mem_cons.1 h
    rcases List.mem_cons.1 hline with rfl | hline
    · rcases eq_dropReturn_or piece with heq | heq
      · rwa [← heq]
      · intro hmem
        rw [heq] at hpiece
        exact hpiece (List.mem_append_left _ hmem)
    · exact ih hrest hline

theorem newline_notMem_of_lineAt {content : String} {n : Nat} {line : List Char}
    (h : LineAt content n line) : '\n' ∉ line := by
  have hmem : line ∈ lines content := List.mem_of_getElem? h.2
  rw [lines_eq] at hmem
  exact newline_notMem_of_mem_linesOf (fun _ => separator_notMem_of_mem_splitOn) hmem

end Lines

section Bytes

/-- How many bytes the characters take. -/
def byteLength (cs : List Char) : Nat := (cs.map Char.utf8Size).sum

def bytesOf (cs : List Char) : List UInt8 := cs.flatMap String.utf8EncodeChar

/-- How many bytes come before a stretch, newlines included. -/
def bytesBefore (pieces : List (List Char)) (i : Nat) : Nat :=
  ((pieces.take i).map fun piece => byteLength piece + 1).sum

@[simp] theorem byteLength_cons (c : Char) (cs : List Char) :
    byteLength (c :: cs) = c.utf8Size + byteLength cs := by
  simp [byteLength]

@[simp] theorem bytesBefore_zero (pieces : List (List Char)) : bytesBefore pieces 0 = 0 := rfl

@[simp] theorem bytesBefore_cons_succ (piece : List Char) (pieces : List (List Char)) (i : Nat) :
    bytesBefore (piece :: pieces) (i + 1) = byteLength piece + 1 + bytesBefore pieces i := by
  simp [bytesBefore]

theorem bytesBefore_succ {piece : List Char} (h : pieces[i]? = some piece) :
    bytesBefore pieces (i + 1) = bytesBefore pieces i + (byteLength piece + 1) := by
  simp [bytesBefore, List.take_add_one, h]

theorem length_bytesOf (cs : List Char) : (bytesOf cs).length = byteLength cs := by
  simp [bytesOf, byteLength, List.length_flatMap]

theorem toList_loop_eq (bytes : ByteArray) (i : Nat) (seen : List UInt8) :
    ByteArray.toList.loop bytes i seen = seen.reverse ++ bytes.data.toList.drop i := by
  fun_induction ByteArray.toList.loop bytes i seen with
  | case1 i seen h ih =>
    have hi : i < bytes.data.toList.length := by simpa using h
    have hget : bytes.get! i = bytes.data.toList[i] := by
      simp only [Array.length_toList] at hi
      simp only [ByteArray.get!, Array.getElem_toList]
      exact getElem!_pos bytes.data i hi
    rw [ih, List.drop_eq_getElem_cons hi, hget]
    simp
  | case2 i seen h =>
    have hi : bytes.data.toList.length ≤ i := by simpa using h
    rw [List.drop_of_length_le hi, List.append_nil]

theorem toList_toUTF8 (content : String) : content.toUTF8.toList = bytesOf content.toList := by
  rw [ByteArray.toList, toList_loop_eq, String.toUTF8_eq_toByteArray, ← String.utf8Encode_toList,
    List.utf8Encode, List.toList_data_toByteArray]
  rfl

theorem newline_ne_ofNat {n : Nat} (h : n ≠ 10) (hn : n < 256) : (10 : UInt8) ≠ UInt8.ofNat n := by
  intro he
  have := congrArg UInt8.toNat he
  simp at this
  omega

/-- Only a newline is written with the newline byte. -/
theorem newline_notMem_utf8EncodeChar {c : Char} (h : c ≠ '\n') :
    (10 : UInt8) ∉ String.utf8EncodeChar c := by
  have hv : c.val.toNat ≠ 10 := by
    intro he
    exact h (Char.ext (UInt32.toNat_inj.1 he))
  simp only [String.utf8EncodeChar]
  repeat' split
  all_goals
    simp only [List.mem_cons, List.not_mem_nil, or_false, not_or]
  · exact newline_ne_ofNat hv (by omega)
  · exact ⟨newline_ne_ofNat (by omega) (by omega), newline_ne_ofNat (by omega) (by omega)⟩
  · refine ⟨?_, ?_, ?_⟩ <;> exact newline_ne_ofNat (by omega) (by omega)
  · refine ⟨?_, ?_, ?_, ?_⟩ <;> exact newline_ne_ofNat (by omega) (by omega)

theorem count_newline_of_ne {c : Char} (h : c ≠ '\n') (n : Nat) :
    ((String.utf8EncodeChar c).take n).count 10 = 0 :=
  List.count_eq_zero.2 fun hm => newline_notMem_utf8EncodeChar h (List.mem_of_mem_take hm)

theorem bytesOf_cons (c : Char) (cs : List Char) :
    bytesOf (c :: cs) = String.utf8EncodeChar c ++ bytesOf cs := rfl

/-- A stretch holds the offsets from its first byte up to its end, where its newline stands. -/
def StretchHolds (pieces : List (List Char)) (i offset : Nat) : Prop :=
  ∃ piece, pieces[i]? = some piece ∧ bytesBefore pieces i ≤ offset ∧
    offset ≤ bytesBefore pieces i + byteLength piece

theorem stretchHolds_cons_zero (piece : List Char) (pieces : List (List Char)) :
    StretchHolds (piece :: pieces) 0 offset ↔ offset ≤ byteLength piece := by
  simp [StretchHolds]

theorem stretchHolds_cons_succ (piece : List Char) (pieces : List (List Char)) :
    StretchHolds (piece :: pieces) (i + 1) offset ↔
      byteLength piece + 1 ≤ offset ∧
        StretchHolds pieces i (offset - (byteLength piece + 1)) := by
  simp only [StretchHolds, List.getElem?_cons_succ, bytesBefore_cons_succ]
  constructor
  · rintro ⟨line, hl, hlo, hhi⟩
    exact ⟨by omega, line, hl, by omega, by omega⟩
  · rintro ⟨hle, line, hl, hlo, hhi⟩
    exact ⟨line, hl, by omega, by omega⟩

/-- So many newline bytes come before an offset exactly if the stretch with that index holds it. -/
theorem count_newline_eq_iff (h : offset ≤ byteLength cs) :
    ((bytesOf cs).take offset).count 10 = i ↔ StretchHolds (splitOn '\n' cs) i offset := by
  induction cs generalizing offset i with
  | nil =>
    obtain rfl : offset = 0 := by simpa [byteLength] using h
    cases i <;> simp [splitOn, bytesOf, StretchHolds]
  | cons c cs ih =>
    rw [byteLength_cons] at h
    rw [bytesOf_cons, List.take_append, List.count_append, String.length_utf8EncodeChar]
    by_cases hc : c = '\n'
    · subst hc
      have hone : Char.utf8Size '\n' = 1 := by decide
      have hbyte : String.utf8EncodeChar '\n' = [10] := by decide
      rw [hone] at h ⊢
      rw [hbyte, splitOn_cons_self]
      cases offset with
      | zero => cases i <;> simp [stretchHolds_cons_zero, stretchHolds_cons_succ]
      | succ offset =>
        cases i with
        | zero => simp [stretchHolds_cons_zero, byteLength]
        | succ i =>
          have hrest := @ih offset i (by omega)
          simp [stretchHolds_cons_succ, byteLength, ← hrest]
          omega
    · rw [count_newline_of_ne hc, Nat.zero_add, splitOn_cons_of_ne hc]
      cases hs : splitOn '\n' cs with
      | nil => exact absurd hs (splitOn_ne_nil _ _)
      | cons piece pieces =>
        rw [List.modifyHead_cons]
        by_cases hlt : offset < c.utf8Size
        · rw [Nat.sub_eq_zero_of_le (by omega)]
          cases i with
          | zero => simp [stretchHolds_cons_zero]; omega
          | succ i => simp [stretchHolds_cons_succ]; omega
        · rw [ih (by omega), hs]
          cases i with
          | zero => simp [stretchHolds_cons_zero]; omega
          | succ i =>
            have hsub : offset - c.utf8Size - (byteLength piece + 1) =
                offset - (c.utf8Size + byteLength piece + 1) := by omega
            rw [stretchHolds_cons_succ, stretchHolds_cons_succ, byteLength_cons, hsub]
            refine and_congr_left fun _ => ?_
            omega

/-- The stretches and the newlines between them make up the whole text. -/
theorem bytesBefore_length (cs : List Char) :
    bytesBefore (splitOn '\n' cs) (splitOn '\n' cs).length = byteLength cs + 1 := by
  induction cs with
  | nil => rfl
  | cons c cs ih =>
    by_cases hc : c = '\n'
    · subst hc
      have hone : Char.utf8Size '\n' = 1 := by decide
      rw [splitOn_cons_self, List.length_cons, bytesBefore_cons_succ, ih, byteLength_cons, hone]
      simp [byteLength]
      omega
    · rw [splitOn_cons_of_ne hc, byteLength_cons]
      cases hs : splitOn '\n' cs with
      | nil => exact absurd hs (splitOn_ne_nil _ _)
      | cons piece pieces =>
        rw [hs, List.length_cons, bytesBefore_cons_succ] at ih
        rw [List.modifyHead_cons, List.length_cons, bytesBefore_cons_succ, byteLength_cons]
        omega

/-- Of the offsets in a text only its end may be held by an empty last stretch. -/
theorem StretchHolds.eq_of_last (h : StretchHolds (splitOn '\n' cs) i offset)
    (hi : i + 1 = (splitOn '\n' cs).length) (he : (splitOn '\n' cs)[i]? = some []) :
    offset = byteLength cs := by
  obtain ⟨piece, hp, hlo, hhi⟩ := h
  obtain rfl : piece = [] := Option.some.inj (hp.symm.trans he)
  have htotal := bytesBefore_length cs
  rw [← hi, bytesBefore_succ he] at htotal
  have hempty : byteLength [] = 0 := rfl
  omega

end Bytes

section Position

open Syntax

variable {content : String}

theorem foldl_advance_line (bytes : List UInt8) (p : Position) :
    (bytes.foldl Position.advance p).line = p.line + bytes.count 10 := by
  induction bytes generalizing p with
  | nil => rfl
  | cons b bytes ih =>
    rw [List.foldl_cons, ih, Position.advance, List.count_cons]
    by_cases hb : b = 10
    · simp [hb]
      omega
    · simp [hb]

/-- Lines are counted by newline bytes alone. -/
theorem ofOffset_line (content : String) (offset : Nat) :
    (Position.ofOffset content offset).line =
      (content.toUTF8.toList.take offset).count 10 + 1 := by
  rw [Position.ofOffset, foldl_advance_line, Position.origin, Nat.add_comm]

theorem foldl_advance_column (bytes : List UInt8) :
    (bytes.foldl Position.advance .origin).column =
      (bytes.reverse.takeWhile fun b => b != 10).length + 1 := by
  induction bytes using List.reverseRecOn with
  | nil => rfl
  | append_singleton bytes b ih =>
    rw [List.foldl_append, List.foldl_cons, List.foldl_nil, Position.advance, List.reverse_concat]
    by_cases hb : b = 10
    · simp [hb]
    · simp [hb, ih]

/-- Columns are counted in bytes after the last newline. -/
theorem ofOffset_column (content : String) (offset : Nat) :
    (Position.ofOffset content offset).column =
      ((content.toUTF8.toList.take offset).reverse.takeWhile fun b => b != 10).length + 1 := by
  rw [Position.ofOffset, foldl_advance_column]

theorem utf8ByteSize_eq (content : String) : content.utf8ByteSize = byteLength content.toList := by
  rw [← length_bytesOf, ← String.size_toByteArray, ← String.utf8Encode_toList]
  exact List.size_toByteArray

/-- How many bytes come before the physical line with a number. -/
def lineStart (content : String) (k : Nat) : Nat := bytesBefore (physicalLines content) (k - 1)

/-- The physical line with that number holds an offset. -/
def LineHolds (content : String) (k offset : Nat) : Prop :=
  ∃ line, physicalLine? content k = some line ∧ lineStart content k ≤ offset ∧
    offset ≤ lineStart content k + byteLength line

/-- The line of a position is the one physical line that holds its offset. -/
theorem ofOffset_line_eq_iff (h : offset ≤ content.utf8ByteSize) :
    (Position.ofOffset content offset).line = k ↔ LineHolds content k offset := by
  rw [ofOffset_line, toList_toUTF8]
  rw [utf8ByteSize_eq] at h
  cases k with
  | zero => simp [LineHolds, physicalLine?]
  | succ i =>
    have hcount := @count_newline_eq_iff _ _ i h
    rw [Nat.add_right_cancel_iff, hcount]
    rfl

/-- A line that holds a byte is among the lines of the text, with the same number. It lacks at most
the carriage return of its end. -/
theorem lines_getElem?_of_lineHolds (h : LineHolds content k offset)
    (ho : offset < content.utf8ByteSize) :
    ∃ line shown, physicalLine? content k = some line ∧ (lines content)[k - 1]? = some shown ∧
      (line = shown ∨ line = shown ++ ['\r']) := by
  cases k with
  | zero =>
    obtain ⟨line, hl, -⟩ := h
    cases hl
  | succ i =>
    obtain ⟨line, hl, hheld⟩ := h
    refine ⟨line, ?_⟩
    rw [lines_eq, Nat.add_sub_cancel]
    have hpiece : (physicalLines content)[i]? = some line := hl
    have hi := (List.getElem?_eq_some_iff.1 hpiece).1
    by_cases hlast : i + 1 < (physicalLines content).length
    · refine ⟨dropReturn line, hl, ?_, eq_dropReturn_or line⟩
      rw [getElem?_linesOf_of_lt hlast, hpiece, Option.map_some]
    · have hlast : i + 1 = (physicalLines content).length := by omega
      refine ⟨line, hl, ?_, .inl rfl⟩
      rw [getElem?_linesOf_of_eq hlast, hpiece]
      cases line with
      | nil =>
        have hend := StretchHolds.eq_of_last ⟨[], hpiece, hheld⟩ hlast hpiece
        rw [utf8ByteSize_eq] at ho
        omega
      | cons c cs => rfl

end Position

end InjectionScan.Text
