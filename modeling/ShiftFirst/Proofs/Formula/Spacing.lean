import Mathlib.Data.List.Chain
import ShiftFirst.Proofs.Formula.Lexical

namespace ShiftFirst.Formula

open Pattern
open Text (CharSet digits blanks)

/-- Words in a row, with or without blanks around them. -/
inductive Spaced : List String → List Char → Prop
  | nil {gap : List Char} (blank : ∀ x ∈ gap, Text.isBlank x) : Spaced [] gap
  | cons {w : String} {ws : List String} {gap text : List Char} (blank : ∀ x ∈ gap, Text.isBlank x)
      (rest : Spaced ws text) : Spaced (w :: ws) (gap ++ (w.toList ++ text))

theorem spaced_flatMap (ws : List String) : Spaced ws (ws.flatMap String.toList) := by
  induction ws with
  | nil => exact .nil (List.forall_mem_nil _)
  | cons w ws ih => exact Spaced.cons (List.forall_mem_nil _) ih

/-- The name of the token that a word is. -/
def nameOf (w : String) : Symbol := if w ∈ words then w else "number"

/-- The text does not begin with a character of the set. -/
def Avoids (s : CharSet) (text : List Char) : Prop := ∀ x ∈ text.head?, s.contains x = false

theorem contains_digits {x : Char} (digit : x.isDigit) : digits.contains x := by
  unfold Char.isDigit at digit
  obtain ⟨low, high⟩ := (Bool.and_eq_true _ _).mp digit
  have low := UInt32.le_iff_toNat_le.mp (of_decide_eq_true low)
  have high := UInt32.le_iff_toNat_le.mp (of_decide_eq_true high)
  exact List.any_eq_true.mpr ⟨(48, 57), List.mem_cons_self,
    (Bool.and_eq_true _ _).mpr ⟨decide_eq_true low, decide_eq_true high⟩⟩

theorem avoids_of_blank {x : Char} (blank : blanks.contains x) :
    digits.contains x = false ∧ CharSet.contains (.single '.') x = false := by
  have apart := (disjoint_opening "number" (by decide) whitespace (by decide)).resolve_left
    (by decide)
  have outside : CharSet.contains (digits ++ .single '.') x = false :=
    Bool.eq_false_iff.mpr fun inside => apart.not_both inside blank
  rwa [covers_append, Bool.or_eq_false_iff] at outside

theorem several_of_all {s : CharSet} {front rest : List Char} (all : ∀ x ∈ front, s.contains x)
    (filled : front ≠ []) (ends : Avoids s rest) :
    several s (front ++ rest) = some front.length := by
  have length := many_append_of_all all ends
  rw [several, length, if_neg (List.length_pos_iff.mpr filled).ne']

theorem one_of_avoids {s : CharSet} {text : List Char} (ends : Avoids s text) :
    one s text = none := by
  cases text with
  | nil => rfl
  | cons x text => exact if_neg (Bool.eq_false_iff.mp (ends x rfl))

/-- A numeral is a token of its own where neither a digit nor a point comes behind it. -/
theorem numeralLength?_of_numeral {w rest : List Char} (numeral : Binary64.IsNumeral w)
    (digit : Avoids digits rest) (point : Avoids (.single '.') rest) :
    numeralLength? (w ++ rest) = some w.length := by
  have dot : ∀ text, one (.single '.') ('.' :: text) = some 1 := fun _ => rfl
  refine Option.or_eq_some_iff.mpr ?_
  cases numeral with
  | digits filled all =>
    refine Or.inl ?_
    have whole := several_of_all (fun x mem => contains_digits (all x mem)) filled digit
    have none := one_of_avoids point
    have nothing : many digits ([] ++ rest) = 0 := many_append_of_all (by simp) digit
    refine followed_of_some (n := 0) whole ?_
    rw [List.drop_left]
    exact followed_of_some (m := 0) (n := 0) (by rw [none]; rfl) (congrArg some nothing)
  | @point whole fraction filled all =>
    simp only [List.mem_append, or_imp, forall_and] at all
    have behind : many digits (fraction ++ rest) = fraction.length :=
      many_append_of_all (fun x mem => contains_digits (all.2 x mem)) digit
    have avoids : Avoids digits ('.' :: (fraction ++ rest)) := by
      rintro x ⟨⟩
      decide
    rw [List.append_assoc, List.cons_append, List.length_append, List.length_cons]
    by_cases empty : whole = []
    · subst empty
      refine Or.inr ⟨?_, ?_⟩
      · rw [followed, List.nil_append, several, if_pos (many_of_one_none (one_of_avoids avoids))]
        rfl
      · have several := several_of_all (fun x mem => contains_digits (all.2 x mem)) filled digit
        rw [List.nil_append, List.length_nil, Nat.zero_add, Nat.add_comm]
        exact followed_of_some (dot _) several
    · refine Or.inl ?_
      have before := several_of_all (fun x mem => contains_digits (all.1 x mem)) empty avoids
      refine followed_of_some before ?_
      rw [List.drop_left, Nat.add_comm]
      exact followed_of_some (by rw [dot]; rfl) (congrArg some behind)

theorem scans_number {w : String} (numeral : Binary64.IsNumeral w.toList) {text : List Char}
    (digit : Avoids digits text) (point : Avoids (.single '.') text) :
    Scans (w.toList ++ text) [("number", w)] text := by
  intro position
  obtain ⟨c, rest, begins, _⟩ := numeral.unsigned
  have filled : w.toList ≠ [] := begins ▸ List.cons_ne_nil c rest
  have known : "number" ∈ scanner.definitions.map TokenDefinition.name := by decide
  have taken := numeralLength?_of_numeral numeral digit point
  have piece := piece_of_taken position known w.toList taken filled
  rw [String.ofList_toList] at piece
  exact ⟨_, piece, rfl⟩

/-- Blanks make no token that counts. -/
theorem scans_gap {gap text : List Char} (blank : ∀ x ∈ gap, Text.isBlank x)
    (ends : Avoids blanks text) : Scans (gap ++ text) [] text := by
  by_cases empty : gap = []
  · subst empty
    exact .nil text
  · have known : whitespace ∈ scanner.definitions.map TokenDefinition.name := by decide
    refine fun position => ⟨_, piece_of_taken position known gap ?_ empty, rfl⟩
    exact several_of_all blank empty ends

theorem avoids_append {s : CharSet} {front : List Char} (filled : front ≠ [])
    (avoids : Avoids s front) (text : List Char) : Avoids s (front ++ text) := by
  intro x mem
  rw [List.head?_append_of_ne_nil _ filled] at mem
  exact avoids x mem

theorem filled_of_known {w : String} (known : w ∈ words ∨ Binary64.IsNumeral w.toList) :
    w.toList ≠ [] := by
  rcases known with mem | numeral
  · exact (by decide : ∀ w ∈ words, w.toList ≠ []) w mem
  · obtain ⟨c, rest, begins, _⟩ := numeral.unsigned
    exact begins ▸ List.cons_ne_nil c rest

theorem stops_word : ∀ w ∈ words, ∀ x ∈ w.toList.head?, Stops x := by
  have heads : words.all fun w => w.toList.head?.all fun x => decide (Stops x) := by decide +kernel
  intro w mem x first
  have stops := List.all_eq_true.mp heads w mem
  rw [Option.mem_def.mp first] at stops
  exact of_decide_eq_true stops

theorem numeral_head {w : List Char} (numeral : Binary64.IsNumeral w) :
    ∀ x ∈ w.head?, digits.contains x ∨ x = '.' := by
  intro x mem
  cases numeral with
  | digits _ all => exact Or.inl (contains_digits (all x (List.mem_of_mem_head? mem)))
  | @point whole fraction _ all =>
    cases whole with
    | nil =>
      cases mem
      exact Or.inr rfl
    | cons y whole =>
      cases mem
      exact Or.inl (contains_digits (all x List.mem_cons_self))

theorem nameOf_word {w : String} (mem : w ∈ words) : nameOf w = w := if_pos mem

theorem nameOf_numeral {w : String} (numeral : Binary64.IsNumeral w.toList) :
    nameOf w = "number" := by
  refine if_neg fun mem => ?_
  obtain ⟨x, rest, begins, _⟩ := numeral.unsigned
  have first : x ∈ w.toList.head? := begins ▸ rfl
  obtain ⟨digit, point, _⟩ := stops_word w mem x first
  rcases numeral_head numeral x first with inside | rfl
  · exact Bool.false_ne_true (digit.symm.trans inside)
  · cases point

theorem avoids_blanks {w : String} (known : w ∈ words ∨ Binary64.IsNumeral w.toList) :
    Avoids blanks w.toList := by
  intro x mem
  rcases known with word | numeral
  · exact (stops_word w word x mem).2.2
  · refine Bool.eq_false_iff.mpr fun blank => ?_
    obtain ⟨digit, point⟩ := avoids_of_blank blank
    rcases numeral_head numeral x mem with inside | rfl
    · exact Bool.false_ne_true (digit.symm.trans inside)
    · cases point

theorem Spaced.head {ws : List String} {text : List Char} (h : Spaced ws text)
    (filled : ∀ w ∈ ws, w.toList ≠ []) :
    ∀ x ∈ text.head?, blanks.contains x ∨ ∃ w ∈ ws.head?, x ∈ w.toList.head? := by
  intro x mem
  cases h with
  | nil blank => exact Or.inl (blank x (List.mem_of_mem_head? mem))
  | @cons w ws gap text blank _ =>
    cases gap with
    | nil =>
      rw [List.nil_append, List.head?_append_of_ne_nil _ (filled w List.mem_cons_self)] at mem
      exact Or.inr ⟨w, rfl, mem⟩
    | cons y gap => exact Or.inl (blank x (List.mem_of_mem_head? mem))

/-- Words with blanks around them are cut into themselves, if no two numerals meet. -/
theorem Spaced.scans {ws : List String} {text : List Char} (h : Spaced ws text)
    (known : ∀ w ∈ ws, w ∈ words ∨ Binary64.IsNumeral w.toList)
    (apart : ws.IsChain fun w w' => w ∈ words ∨ w' ∈ words) :
    Scans text (ws.map fun w => (nameOf w, w)) [] := by
  induction h with
  | @nil gap blank =>
    have scans := scans_gap blank (show Avoids blanks [] by simp [Avoids])
    rwa [List.append_nil] at scans
  | @cons w ws gap text blank rest ih =>
    have here := known w List.mem_cons_self
    have behind : ∀ w ∈ ws, w ∈ words ∨ Binary64.IsNumeral w.toList := fun w mem =>
      known w (List.mem_cons_of_mem _ mem)
    have avoids := avoids_append (filled_of_known here) (avoids_blanks here) text
    -- The word is cut off, and what it leaves begins with a blank or the next word.
    have word : Scans (w.toList ++ text) [(nameOf w, w)] text := by
      by_cases mem : w ∈ words
      · rw [nameOf, if_pos mem]
        exact .word mem text
      · rw [nameOf, if_neg mem]
        have ends : ∀ x ∈ text.head?,
            digits.contains x = false ∧ CharSet.contains (.single '.') x = false := by
          intro x inside
          rcases rest.head (fun w mem => filled_of_known (behind w mem)) x inside with
            blank | ⟨w', first, begins⟩
          · exact avoids_of_blank blank
          · have next : w' ∈ words := by
              cases ws with
              | nil => cases first
              | cons w'' ws =>
                cases first
                exact ((List.isChain_cons_cons.mp apart).1).resolve_left mem
            have stops := stops_word w' next x begins
            exact ⟨stops.1, stops.2.1⟩
        exact scans_number (here.resolve_left mem) (fun x mem => (ends x mem).1)
          fun x mem => (ends x mem).2
    exact (scans_gap blank avoids).trans (word.trans (ih behind apart.tail))

end ShiftFirst.Formula
