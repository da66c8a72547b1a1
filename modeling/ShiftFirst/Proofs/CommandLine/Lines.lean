import Mathlib.Data.List.Basic
import ShiftFirst.CommandLine

namespace ShiftFirst.CommandLine

section Cut

variable {α : Type} [DecidableEq α] {feed ret : α} {line : List α}

/-- A line without the carriage return at its end, if there is one. -/
def chop (ret : α) (line : List α) : List α :=
  if line.getLast? = some ret then line.dropLast else line

/-- The lines of a text: what stands before each line feed, without a carriage return at its end,
and what stands behind the last one, if anything does. -/
def cutLines (feed ret : α) (text : List α) : List (List α) :=
  let parts := text.splitOn feed
  parts.dropLast.map (chop ret) ++ (parts.getLast?.toList).filter (· ≠ [])

theorem cutLines_of_not_mem (whole : feed ∉ line) :
    cutLines feed ret line = if line = [] then [] else [line] := by
  rw [cutLines, List.splitOn_eq_singleton whole]
  by_cases empty : line = [] <;> simp [empty]

theorem cutLines_append (whole : feed ∉ line) (rest : List α) :
    cutLines feed ret (line ++ feed :: rest) = chop ret line :: cutLines feed ret rest := by
  have filled := List.splitOn_ne_nil feed rest
  rw [cutLines, cutLines, List.splitOn_append_cons_self_of_not_mem whole]
  simp only [List.dropLast_cons_of_ne_nil filled, List.getLast?_cons_of_ne_nil filled,
    List.map_cons, List.cons_append]

/-- Every text is a last line, or a line in front of a text. -/
theorem line_induction (feed : α) {motive : List α → Prop}
    (last : ∀ line, feed ∉ line → motive line)
    (cons : ∀ line rest, feed ∉ line → motive rest → motive (line ++ feed :: rest))
    (text : List α) : motive text := by
  induction length : text.length using Nat.strongRecOn generalizing text with
  | _ size ih =>
    by_cases mem : feed ∈ text
    · obtain ⟨line, rest, rfl, whole⟩ := List.eq_append_cons_of_mem mem
      have shorter : rest.length < size := by
        simp only [List.length_append, List.length_cons] at length
        omega
      exact cons line rest whole (ih _ shorter rest rfl)
    · exact last text mem

theorem not_mem_of_mem_cutLines {text : List α} (mem : line ∈ cutLines feed ret text) :
    feed ∉ line := by
  induction text using line_induction feed with
  | last text whole =>
    rw [cutLines_of_not_mem whole] at mem
    split at mem
    next => cases mem
    next => exact List.mem_singleton.mp mem ▸ whole
  | cons first rest whole ih =>
    rw [cutLines_append whole] at mem
    rcases List.mem_cons.mp mem with rfl | mem
    · intro inside
      unfold chop at inside
      split at inside
      next => exact whole (List.dropLast_subset _ inside)
      next => exact whole inside
    · exact ih mem

theorem chop_cons {a : α} (more : line ≠ [] ∨ a ≠ ret) :
    chop ret (a :: line) = a :: chop ret line := by
  unfold chop
  cases line with
  | nil => simp_all
  | cons b line =>
    rw [List.getLast?_cons_cons]
    split <;> simp

end Cut

theorem lines_append {line : List UInt8} (whole : 10 ∉ line) (rest : List UInt8) :
    lines (line ++ 10 :: rest) = chop 13 line :: lines rest := by
  induction line with
  | nil => simp [lines, chop]
  | cons b line ih =>
    obtain ⟨here, there⟩ := not_or.mp (mt List.mem_cons.mpr whole)
    have other : b ≠ 10 := fun same => here same.symm
    rw [List.cons_append, lines, if_neg other, ih there]
    by_cases ends : b = 13 ∧ line = []
    · obtain ⟨rfl, rfl⟩ := ends
      simp [chop]
    · have goes : ¬ (b = 13 ∧ (line ++ 10 :: rest).head? = some 10) := by
        rintro ⟨rfl, first⟩
        cases line with
        | nil => exact ends ⟨rfl, rfl⟩
        | cons c line =>
          have same : c = 10 := by simpa using first
          simp [same] at there
      have more : line ≠ [] ∨ b ≠ 13 := by
        rcases not_and_or.mp ends with other | filled
        · exact Or.inr other
        · exact Or.inl filled
      rw [if_neg goes, chop_cons more]

theorem lines_of_not_mem {line : List UInt8} (whole : 10 ∉ line) :
    lines line = if line = [] then [] else [line] := by
  induction line with
  | nil => rfl
  | cons b line ih =>
    obtain ⟨here, there⟩ := not_or.mp (mt List.mem_cons.mpr whole)
    have other : b ≠ 10 := fun same => here same.symm
    have goes : ¬ (b = 13 ∧ line.head? = some 10) := by
      rintro ⟨_, first⟩
      exact there (List.mem_of_mem_head? first)
    rw [lines, if_neg other, if_neg goes, ih there]
    cases line <;> simp

/-- The bytes of the standard input are cut where lines end. -/
theorem lines_eq_cutLines (input : List UInt8) : lines input = cutLines 10 13 input := by
  induction input using line_induction (10 : UInt8) with
  | last line whole => rw [lines_of_not_mem whole, cutLines_of_not_mem whole]
  | cons line rest whole ih => rw [lines_append whole, cutLines_append whole, ih]

section Bytes

open String (utf8EncodeChar)

/-- The bytes of a text. -/
def encode (text : String) : List UInt8 := text.toUTF8.data.toList

theorem encode_eq (text : String) : encode text = text.toList.flatMap utf8EncodeChar := by
  have bytes : text.toUTF8 = text.toList.utf8Encode := String.utf8Encode_toList.symm
  rw [encode, bytes, List.utf8Encode, List.toList_data_toByteArray]

theorem decode_eq_some_iff {input : List UInt8} {text : String} :
    decode input = some text ↔ input = encode text := by
  unfold decode encode String.fromUTF8?
  constructor
  · intro valid
    split at valid
    next proper =>
      cases valid
      rfl
    next => cases valid
  · rintro rfl
    have proper : (⟨text.toUTF8.data.toList.toArray⟩ : ByteArray).IsValidUTF8 := by
      rw [Array.toArray_toList]
      exact text.isValidUTF8
    rw [dif_pos proper]
    congr 1

/-- A byte below 128 spells a character by itself. -/
theorem eq_of_mem_utf8 {b : UInt8} {c : Char} (low : b.toNat < 128) (mem : b ∈ utf8EncodeChar c) :
    c.toNat = b.toNat := by
  have value : c.val.toNat = c.toNat := rfl
  have high : ∀ {n k : Nat}, b = UInt8.ofNat (n + k) → 128 ≤ k → n + k < 256 → False := by
    rintro n k rfl large small
    rw [UInt8.toNat_ofNat', Nat.mod_eq_of_lt small] at low
    omega
  unfold utf8EncodeChar at mem
  dsimp only at mem
  split at mem
  next small =>
    rw [List.mem_singleton.mp mem, UInt8.toNat_ofNat', Nat.mod_eq_of_lt (by omega), value]
  next =>
    split at mem
    next =>
      simp only [List.mem_cons, List.not_mem_nil, or_false] at mem
      rcases mem with same | same <;> exact (high same (by omega) (by omega)).elim
    next =>
      split at mem
      next =>
        simp only [List.mem_cons, List.not_mem_nil, or_false] at mem
        rcases mem with same | same | same <;> exact (high same (by omega) (by omega)).elim
      next =>
        simp only [List.mem_cons, List.not_mem_nil, or_false] at mem
        rcases mem with same | same | same | same <;> exact (high same (by omega) (by omega)).elim

theorem mem_feed {line : List Char} : 10 ∈ line.flatMap utf8EncodeChar ↔ '\n' ∈ line := by
  constructor
  · intro mem
    obtain ⟨c, inside, here⟩ := List.mem_flatMap.mp mem
    have same : c = '\n' := Char.toNat_inj.mp (eq_of_mem_utf8 (by decide) here)
    exact same ▸ inside
  · intro mem
    exact List.mem_flatMap.mpr ⟨'\n', mem, List.mem_cons_self⟩

theorem encode_ne_nil {line : List Char} (filled : line ≠ []) :
    line.flatMap utf8EncodeChar ≠ [] := by
  obtain ⟨c, rest, rfl⟩ := List.exists_cons_of_ne_nil filled
  simp [String.utf8EncodeChar_ne_nil]

theorem chop_encode (line : List Char) :
    chop 13 (line.flatMap utf8EncodeChar) = (chop '\r' line).flatMap utf8EncodeChar := by
  rcases List.eq_nil_or_concat line with rfl | ⟨front, c, rfl⟩
  · rfl
  rw [List.concat_eq_append, List.flatMap_append, List.flatMap_singleton, chop, chop,
    List.getLast?_append_of_ne_nil _ String.utf8EncodeChar_ne_nil, List.getLast?_concat]
  by_cases ends : c = '\r'
  · subst ends
    have single : utf8EncodeChar '\r' = [13] := by decide
    simp [single]
  · have other : (utf8EncodeChar c).getLast? ≠ some 13 := by
      intro last
      have mem := List.mem_of_getLast? last
      exact ends (Char.toNat_inj.mp (eq_of_mem_utf8 (by decide) mem))
    simp [other, ends]

/-- A text is cut into lines where its bytes are. -/
theorem cutLines_encode (text : List Char) :
    cutLines 10 13 (text.flatMap utf8EncodeChar) =
      (cutLines '\n' '\r' text).map (·.flatMap utf8EncodeChar) := by
  induction text using line_induction '\n' with
  | last line whole =>
    rw [cutLines_of_not_mem whole, cutLines_of_not_mem (mt mem_feed.mp whole)]
    by_cases empty : line = []
    · simp [empty]
    · simp [empty, encode_ne_nil empty]
  | cons line rest whole ih =>
    have feed : utf8EncodeChar '\n' = [10] := by decide
    rw [List.flatMap_append, List.flatMap_cons, feed, List.singleton_append,
      cutLines_append (mt mem_feed.mp whole), cutLines_append whole, List.map_cons, chop_encode, ih]

/-- The lines of a text, which end at line feeds, with or without a carriage return before them. -/
def textLines (text : String) : List String :=
  (cutLines '\n' '\r' text.toList).map String.ofList

theorem lines_encode (text : String) : lines (encode text) = (textLines text).map encode := by
  rw [lines_eq_cutLines, encode_eq, cutLines_encode, textLines, List.map_map]
  refine List.map_congr_left fun line _ => ?_
  rw [Function.comp_apply, encode_eq, String.toList_ofList]

theorem not_mem_of_mem_textLines {text line : String} (mem : line ∈ textLines text) :
    '\n' ∉ line.toList := by
  obtain ⟨chars, inside, rfl⟩ := List.mem_map.mp mem
  rw [String.toList_ofList]
  exact not_mem_of_mem_cutLines inside

theorem toList_printed_cons (text : String) (texts : List String) :
    (printed (text :: texts)).toList = text.toList ++ '\n' :: (printed texts).toList := by
  simp [printed, String.join_cons]

/-- Texts without a line feed, and without a carriage return at the end, are the lines of what is
printed of them. -/
theorem textLines_printed {texts : List String}
    (whole : ∀ text ∈ texts, '\n' ∉ text.toList ∧ text.toList.getLast? ≠ some '\r') :
    textLines (printed texts) = texts := by
  induction texts with
  | nil =>
    have nothing : (printed []).toList = [] := by simp [printed]
    rw [textLines, nothing, cutLines_of_not_mem List.not_mem_nil]
    rfl
  | cons text texts ih =>
    obtain ⟨⟨free, ends⟩, others⟩ := List.forall_mem_cons.mp whole
    rw [textLines, toList_printed_cons, cutLines_append free, List.map_cons, chop, if_neg ends,
      String.ofList_toList]
    exact congrArg (text :: ·) (ih others)

end Bytes

end ShiftFirst.CommandLine
