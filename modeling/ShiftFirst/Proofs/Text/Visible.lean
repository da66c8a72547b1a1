import Mathlib.Data.List.Basic
import ShiftFirst.Text.Quoted

namespace ShiftFirst.Text

/-- No character of a text is hidden, be it a line feed, a tab or what extends another one. -/
def Visible (s : String) : Prop := ∀ c ∈ s.toList, isHidden c = false

theorem isHidden_of_ascii {c : Char} (low : 32 ≤ c.toNat) (high : c.toNat ≤ 126) :
    isHidden c = false := by
  have apart : ∀ run ∈ hiddenCharacters, run.2 < 32 ∨ 126 < run.1 := by decide +kernel
  refine Bool.eq_false_iff.mpr fun hidden => ?_
  obtain ⟨run, mem, within⟩ := List.any_eq_true.mp hidden
  simp only [Bool.and_eq_true, decide_eq_true_eq] at within
  rcases apart run mem with below | above <;> omega

/-- Whether a text has characters from the space to the tilde alone. -/
def isAscii (s : String) : Bool := s.toList.all fun c => 32 ≤ c.toNat ∧ c.toNat ≤ 126

theorem visible_of_ascii {s : String} (ascii : isAscii s) : Visible s := by
  intro c mem
  have within := List.all_eq_true.mp ascii c mem
  obtain ⟨low, high⟩ := of_decide_eq_true within
  exact isHidden_of_ascii low high

@[simp]
theorem visible_append {s t : String} : Visible (s ++ t) ↔ Visible s ∧ Visible t := by
  simp only [Visible, String.toList_append, List.forall_mem_append]

theorem visible_intercalate {separator : String} (seen : Visible separator) {texts : List String}
    (all : ∀ text ∈ texts, Visible text) : Visible (separator.intercalate texts) := by
  induction texts with
  | nil => exact visible_of_ascii rfl
  | cons text rest ih =>
    obtain ⟨here, there⟩ := List.forall_mem_cons.mp all
    cases rest with
    | nil => rwa [String.intercalate_singleton]
    | cons next rest =>
      rw [String.intercalate_cons_cons, visible_append, visible_append]
      exact ⟨⟨here, seen⟩, ih there⟩

theorem mem_toDigits {b n : Nat} (proper : 1 < b) {c : Char} (mem : c ∈ Nat.toDigits b n) :
    ∃ k < b, c = k.digitChar := by
  induction n using Nat.strongRecOn with
  | _ n ih =>
    rw [Nat.toDigits_eq_if proper] at mem
    split at mem
    next small => exact ⟨n, small, List.mem_singleton.mp mem⟩
    next large =>
      rcases List.mem_append.mp mem with front | last
      · exact ih (n / b) (Nat.div_lt_self (by omega) proper) front
      · exact ⟨n % b, Nat.mod_lt n (by omega), List.mem_singleton.mp last⟩

theorem isHidden_of_mem_toDigits {b n : Nat} (proper : 1 < b) (small : b ≤ 16) {c : Char}
    (mem : c ∈ Nat.toDigits b n) : isHidden c = false := by
  have ascii : ∀ k < 16, 32 ≤ k.digitChar.toNat ∧ k.digitChar.toNat ≤ 126 := by decide
  obtain ⟨k, below, rfl⟩ := mem_toDigits proper mem
  obtain ⟨low, high⟩ := ascii k (by omega)
  exact isHidden_of_ascii low high

theorem visible_toString (n : Nat) : Visible (toString n) := by
  intro c mem
  rw [Nat.toString_eq_repr, Nat.toList_repr] at mem
  exact isHidden_of_mem_toDigits (by decide) (by decide) mem

/-- Behind a quotation mark that is not hidden, hidden characters are spelled by others. -/
theorem isHidden_spelling {mark : Char} (seen : isHidden mark = false) {c x : Char}
    (mem : x ∈ spelling mark c) : isHidden x = false := by
  have ascii : ∀ y ∈ "\\nrt0u\x7b\x7d".toList, isHidden y = false := visible_of_ascii (by decide)
  have escaped : ∀ {l : Char}, isHidden l = false → x ∈ ['\\', l] → isHidden x = false := by
    intro l shown mem
    rcases List.mem_pair.mp mem with rfl | rfl
    · exact ascii _ (by decide)
    · exact shown
  unfold spelling at mem
  split_ifs at mem with feed ret tab zero marked hidden
  · exact escaped (ascii _ (by decide)) mem
  · exact escaped (ascii _ (by decide)) mem
  · exact escaped (ascii _ (by decide)) mem
  · exact escaped (ascii _ (by decide)) mem
  · rcases marked with rfl | rfl
    · exact escaped (ascii _ (by decide)) mem
    · exact escaped seen mem
  · rcases List.mem_append.mp mem with mem | mem
    · rcases List.mem_append.mp mem with mem | mem
      · exact visible_of_ascii (by decide) x mem
      · exact isHidden_of_mem_toDigits (by decide) (by decide) mem
    · exact List.mem_singleton.mp mem ▸ ascii _ (by decide)
  · exact List.mem_singleton.mp mem ▸ Bool.eq_false_iff.mpr hidden

theorem visible_marked {mark : Char} (seen : isHidden mark = false) {body : List Char}
    (inside : ∀ x ∈ body, isHidden x = false) :
    Visible (String.ofList (mark :: body ++ [mark])) := by
  intro x mem
  rw [String.toList_ofList] at mem
  rcases List.mem_append.mp mem with mem | mem
  · rcases List.mem_cons.mp mem with rfl | mem
    · exact seen
    · exact inside x mem
  · exact List.mem_singleton.mp mem ▸ seen

theorem visible_quoted (s : String) : Visible (quoted s) := by
  have mark : isHidden '"' = false := isHidden_of_ascii (by decide) (by decide)
  refine visible_marked mark fun x mem => ?_
  obtain ⟨c, _, mem⟩ := List.mem_flatMap.mp mem
  exact isHidden_spelling mark mem

theorem visible_quotedChar (c : Char) : Visible (quotedChar c) := by
  have mark : isHidden '\'' = false := isHidden_of_ascii (by decide) (by decide)
  exact visible_marked mark fun x mem => isHidden_spelling mark mem

end ShiftFirst.Text
