import Mathlib.Data.List.Nodup
import ShiftFirst.Formula.Basic
import ShiftFirst.Proofs.Binary64.Numeral
import ShiftFirst.Proofs.Lexer.Pieces
import ShiftFirst.Proofs.Pattern.Greedy

namespace ShiftFirst.Formula

open Pattern
open Text (CharSet digits blanks)

/-- Digits with or without a point behind or among them, or digits behind a point. -/
def numberPattern : Pattern :=
  .alt (.seq (.plus .greedy (.set digits))
      (.seq (.opt .greedy (.set (.single '.'))) (.star .greedy (.set digits))))
    (.seq (.set (.single '.')) (.plus .greedy (.set digits)))

/-- The tokens that spell their names. -/
def words : List Symbol :=
  ["and", "or", "not", "true", "false", "=", "+", "*", "-", "/", "^", "(", ")"]

/-- The lexer of formulas, with its patterns read. -/
def scanner : Lexer where
  definitions := ⟨"number", numberPattern⟩ :: ⟨whitespace, .plus .greedy (.set blanks)⟩ ::
    words.map fun w => ⟨w, Pattern.word w.toList⟩
  policy := .longest

set_option maxRecDepth 100000 in
theorem ofDefinitions_definitions : Lexer.ofDefinitions definitions = .ok scanner := by
  decide +kernel

/-- The number of characters of the numeral that a text begins with. -/
def numeralLength? (text : List Char) : Option Nat :=
  (followed (several digits)
      (followed (fun text => some ((one (.single '.') text).getD 0))
        fun text => some (many digits text)) text).or
    (followed (one (.single '.')) (several digits) text)

/-- The number of characters of the token of a name that a text begins with. -/
def taken? (name : Symbol) (text : List Char) : Option Nat :=
  if name = "number" then numeralLength? text
  else if name = whitespace then several blanks text
  else wordLength? name.toList text

theorem greedy_number : Greedy Nat numberPattern [] numeralLength? := by
  refine .alt (.seq (greedy_plus digits _) (.seq (greedy_opt _ _) (greedy_star digits _) ?_) ?_)
    (.behind_set (greedy_plus digits _) _)
  · exact fun _ => Option.some_ne_none _
  · exact fun _ => Option.some_ne_none _

theorem taken?_word {w : Symbol} (mem : w ∈ words) (text : List Char) :
    taken? w text = wordLength? w.toList text := by
  have other : ∀ w ∈ words, w ≠ "number" ∧ w ≠ whitespace := by decide
  rw [taken?, if_neg (other w mem).1, if_neg (other w mem).2]

theorem matchLength?_scanner {d : TokenDefinition} (mem : d ∈ scanner.definitions)
    (text : List Char) : d.pattern.matchLength? text = taken? d.name text := by
  rcases List.mem_cons.mp mem with rfl | mem
  · exact matchLength?_of_greedy greedy_number text
  · rcases List.mem_cons.mp mem with rfl | mem
    · exact matchLength?_of_greedy (greedy_plus blanks []) text
    · obtain ⟨w, hw, rfl⟩ := List.mem_map.mp mem
      have filled : ∀ w ∈ words, w.toList ≠ [] := by decide
      rw [taken?_word hw]
      exact matchLength?_of_greedy (greedy_word (filled w hw) []) text

/-- The characters that the tokens of a name begin with. -/
def opening (name : Symbol) : CharSet :=
  if name = "number" then digits ++ .single '.'
  else if name = whitespace then blanks
  else (name.toList.head?).elim .none .single

theorem covers_append (s s' : CharSet) (c : Char) :
    CharSet.contains (s ++ s') c = (s.contains c || s'.contains c) :=
  List.any_append

theorem contains_of_one {s : CharSet} {text : List Char} {n : Nat} (h : one s text = some n) :
    ∃ c rest, text = c :: rest ∧ s.contains c := by
  unfold one at h
  split at h
  next => cases h
  next c rest =>
    split at h
    next inside => exact ⟨c, rest, rfl, inside⟩
    next => cases h

theorem contains_of_several {s : CharSet} {text : List Char} {n : Nat}
    (h : several s text = some n) : ∃ c rest, text = c :: rest ∧ s.contains c := by
  cases first : one s text with
  | none =>
    rw [several, if_pos (many_of_one_none first)] at h
    cases h
  | some m => exact contains_of_one first

theorem contains_single (x : Char) : CharSet.contains (.single x) x := by
  simp [CharSet.contains, CharSet.covers, CharSet.single, CharSet.between]

theorem opening_of_taken {name : Symbol} (mem : name ∈ scanner.definitions.map TokenDefinition.name)
    {text : List Char} {n : Nat} (taken : taken? name text = some n) :
    ∃ c rest, text = c :: rest ∧ (opening name).contains c := by
  unfold taken? at taken
  unfold opening
  split at taken
  next named =>
    rw [if_pos named]
    simp only [covers_append, Bool.or_eq_true]
    rcases Option.or_eq_some_iff.mp taken with whole | ⟨_, point⟩
    · obtain ⟨_, _, first, _⟩ := followed_eq_some whole
      obtain ⟨c, rest, rfl, inside⟩ := contains_of_several first
      exact ⟨c, rest, rfl, Or.inl inside⟩
    · obtain ⟨_, _, first, _⟩ := followed_eq_some point
      obtain ⟨c, rest, rfl, inside⟩ := contains_of_one first
      exact ⟨c, rest, rfl, Or.inr inside⟩
  next other =>
    rw [if_neg other]
    split at taken
    next named =>
      rw [if_pos named]
      exact contains_of_several taken
    next other' =>
      rw [if_neg other']
      unfold wordLength? at taken
      split at taken
      next begins =>
        obtain ⟨rest, rfl⟩ := begins
        have filled : ∀ name ∈ scanner.definitions.map TokenDefinition.name, name.toList ≠ [] := by
          decide
        obtain ⟨c, cs, spelled⟩ := List.exists_cons_of_ne_nil (filled name mem)
        rw [spelled]
        exact ⟨c, cs ++ rest, rfl, contains_single c⟩
      next => cases taken

/-- No character is in both sets. -/
def Disjoint (s s' : CharSet) : Prop := ∀ run ∈ s, ∀ run' ∈ s', run.2 < run'.1 ∨ run'.2 < run.1

instance (s s' : CharSet) : Decidable (Disjoint s s') := by
  unfold Disjoint
  infer_instance

theorem Disjoint.not_both {s s' : CharSet} (h : Disjoint s s') {c : Char} (inside : s.contains c)
    (inside' : s'.contains c) : False := by
  obtain ⟨run, mem, within⟩ := List.any_eq_true.mp inside
  obtain ⟨run', mem', within'⟩ := List.any_eq_true.mp inside'
  simp only [Bool.and_eq_true, decide_eq_true_eq] at within within'
  have := h run mem run' mem'
  omega

/-- The tokens of two names never begin with the same character. -/
theorem disjoint_opening : ∀ name ∈ scanner.definitions.map TokenDefinition.name,
    ∀ name' ∈ scanner.definitions.map TokenDefinition.name,
      name = name' ∨ Disjoint (opening name) (opening name') := by
  decide +kernel

theorem unambiguous (text : List Char) : scanner.Unambiguous text := by
  intro d mem d' mem' n n' matched matched' _ _
  rw [matchLength?_scanner mem] at matched
  rw [matchLength?_scanner mem'] at matched'
  have named := List.mem_map_of_mem (f := TokenDefinition.name) mem
  have named' := List.mem_map_of_mem (f := TokenDefinition.name) mem'
  obtain ⟨c, rest, rfl, inside⟩ := opening_of_taken named matched
  obtain ⟨c', rest', same, inside'⟩ := opening_of_taken named' matched'
  cases same
  have distinct : (scanner.definitions.map TokenDefinition.name).Nodup := by decide
  refine List.inj_on_of_nodup_map distinct mem mem' ?_
  exact (disjoint_opening _ named _ named').resolve_right fun apart => apart.not_both inside inside'

/-- Neither a numeral nor a row of blanks goes on with the character. -/
def Stops (x : Char) : Prop :=
  digits.contains x = false ∧ CharSet.contains (.single '.') x = false ∧ blanks.contains x = false

instance (x : Char) : Decidable (Stops x) := by
  unfold Stops
  infer_instance

theorem stable_numeral {x : Char} (digit : digits.contains x = false)
    (point : CharSet.contains (.single '.') x = false) : Stable x numeralLength? :=
  ((stable_several digit).followed ((stable_opt point).followed (stable_many digit))).or
    ((stable_one point).followed (stable_several digit))

theorem local_numeral : Local numeralLength? := by
  refine .or (.followed local_several (.followed local_opt local_many))
    (.followed local_one local_several) fun text k h => ?_
  -- What may follow the digits in front of a point may be nothing, so they themselves are missing.
  rcases followed_eq_none h with none | ⟨m, _, h⟩
  · rw [followed, several_take_of_none none k, Option.bind_none]
  · rcases followed_eq_none h with h | ⟨_, _, h⟩ <;> cases h

theorem local_taken? (name : Symbol) : Local (taken? name) := by
  unfold taken?
  split
  next => exact local_numeral
  next =>
    split
    next => exact local_several
    next => exact local_word _

/-- What a token takes it still takes when a character that stops it comes behind the text. -/
theorem taken?_append {name : Symbol} {text : List Char} {n : Nat}
    (taken : taken? name text = some n) {x : Char} (stops : Stops x) (more : List Char) :
    taken? name (text ++ x :: more) = some n := by
  unfold taken? at taken ⊢
  split at taken
  next named => rw [if_pos named, (stable_numeral stops.1 stops.2.1).append, taken]
  next other =>
    rw [if_neg other]
    split at taken
    next named => rw [if_pos named, (stable_several stops.2.2).append, taken]
    next other' => rw [if_neg other', wordLength?_append taken]

section Pieces

variable {position n : Nat} {text behind : List Char} {pieces : List Token} {name : Symbol}

theorem select_of_taken (mem : name ∈ scanner.definitions.map TokenDefinition.name)
    (taken : taken? name text = some n) (pos : 0 < n) :
    ∃ d, d.name = name ∧ scanner.select text = some (d, n) := by
  obtain ⟨d, hd, rfl⟩ := List.mem_map.mp mem
  have matched := (matchLength?_scanner hd text).trans taken
  exact ⟨d, rfl, (Lexer.select_eq_some_iff (unambiguous text)).mpr ⟨hd, matched, pos⟩⟩

theorem taken_of_select {d : TokenDefinition} (selected : scanner.select text = some (d, n)) :
    d.name ∈ scanner.definitions.map TokenDefinition.name ∧ taken? d.name text = some n ∧
      0 < n := by
  obtain ⟨mem, matched, pos⟩ := Lexer.select_some selected
  rw [matchLength?_scanner mem] at matched
  exact ⟨List.mem_map_of_mem mem, matched, pos⟩

theorem piece_of_taken (position : Nat)
    (mem : name ∈ scanner.definitions.map TokenDefinition.name)
    (front : List Char) (taken : taken? name (front ++ text) = some front.length)
    (filled : front ≠ []) :
    scanner.Pieces position (front ++ text) [⟨name, String.ofList front, position⟩] text := by
  obtain ⟨d, rfl, selected⟩ := select_of_taken mem taken (List.length_pos_iff.mpr filled)
  have piece : scanner.Pieces position _ _ _ := .one selected
  rwa [List.take_left, List.drop_left] at piece

theorem piece_word {w : Symbol} (mem : w ∈ words) (text : List Char) :
    scanner.Pieces position (w.toList ++ text) [⟨w, w, position⟩] text := by
  have named : ∀ w ∈ words, w ∈ scanner.definitions.map TokenDefinition.name := by decide
  have filled : ∀ w ∈ words, w.toList ≠ [] := by decide
  have taken : taken? w (w.toList ++ text) = some w.toList.length := by
    rw [taken?_word mem]
    exact if_pos (List.prefix_append _ _)
  have piece := piece_of_taken position (named w mem) w.toList taken (filled w mem)
  rwa [String.ofList_toList] at piece

/-- A text goes on the same in front of a character that stops its tokens. -/
theorem pieces_append (h : scanner.Pieces position text pieces []) {x : Char} (stops : Stops x)
    (more : List Char) : scanner.Pieces position (text ++ x :: more) pieces (x :: more) := by
  generalize empty : ([] : List Char) = behind at h
  induction h with
  | nil position text =>
    subst empty
    exact .nil _ _
  | @cons position n text _ pieces d selected _ ih =>
    have within := (Lexer.le_of_select selected).2
    obtain ⟨mem, taken, pos⟩ := taken_of_select selected
    obtain ⟨d', same, selected'⟩ := select_of_taken mem (taken?_append taken stops more) pos
    have tail := ih empty
    rw [← List.drop_append_of_le_length within] at tail
    have piece := Lexer.Pieces.cons selected' tail
    rwa [List.take_append_of_le_length within, same] at piece

end Pieces

/-- The tokens without those between the others. -/
def solid (pieces : List Token) : List Token := pieces.filter fun t => t.name ≠ whitespace

/-- What counts of a token for the value of a formula. -/
def key (t : Token) : Symbol × String := (t.name, t.value)

theorem key_moved (more : Nat) (pieces : List Token) :
    (solid (pieces.map (Token.moved more))).map key = (solid pieces).map key := by
  rw [solid, List.filter_map, List.map_map]
  rfl

/-- Wherever the text stands, it is cut into tokens that count for these, up to the rest. -/
def Scans (text : List Char) (keys : List (Symbol × String)) (rest : List Char) : Prop :=
  ∀ position, ∃ pieces, scanner.Pieces position text pieces rest ∧ (solid pieces).map key = keys

namespace Scans

variable {text middle rest : List Char} {keys keys' : List (Symbol × String)}

theorem nil (text : List Char) : Scans text [] text := fun _ => ⟨[], .nil _ _, rfl⟩

theorem trans (h : Scans text keys middle) (h' : Scans middle keys' rest) :
    Scans text (keys ++ keys') rest := by
  intro position
  obtain ⟨pieces, cut, rfl⟩ := h position
  obtain ⟨pieces', cut', rfl⟩ := h' (position + (spelled pieces).length)
  refine ⟨_, cut.trans cut', ?_⟩
  rw [solid, List.filter_append, List.map_append]
  rfl

theorem of_pieces {pieces : List Token} (h : scanner.Pieces 0 text pieces rest) :
    Scans text ((solid pieces).map key) rest := by
  intro position
  have moved := h.move position
  rw [Nat.zero_add] at moved
  exact ⟨_, moved, key_moved position pieces⟩

theorem word {w : Symbol} (mem : w ∈ words) (text : List Char) :
    Scans (w.toList ++ text) [(w, w)] text := by
  have solid_word : ∀ w ∈ words, w ≠ whitespace := by decide
  refine fun position => ⟨_, piece_word mem text, ?_⟩
  rw [solid, List.filter_cons_of_pos (by simpa using solid_word w mem)]
  rfl

/-- A text goes on the same in front of a character that stops its tokens. -/
theorem append (h : Scans text keys []) {x : Char} (stops : Stops x) (more : List Char) :
    Scans (text ++ x :: more) keys (x :: more) := by
  intro position
  obtain ⟨pieces, cut, same⟩ := h position
  exact ⟨pieces, pieces_append cut stops more, same⟩

end Scans

end ShiftFirst.Formula
