import Mathlib.Data.List.TakeWhile
import Mathlib.Data.Option.Basic
import ShiftFirst.Binary64.Decimal

namespace ShiftFirst.Binary64

/-- Decimal digits, with or without a point among them. -/
inductive IsNumeral : List Char → Prop
  | digits {digits : List Char} (filled : digits ≠ []) (all : ∀ c ∈ digits, c.isDigit) :
      IsNumeral digits
  | point {whole fraction : List Char} (filled : whole ++ fraction ≠ [])
      (all : ∀ c ∈ whole ++ fraction, c.isDigit) : IsNumeral (whole ++ '.' :: fraction)

theorem IsNumeral.digit {c : Char} (digit : c.isDigit) : IsNumeral [c] :=
  .digits (List.cons_ne_nil c []) (List.forall_mem_singleton.mpr digit)

theorem takeWhile_digits {digits : List Char} (all : ∀ c ∈ digits, c.isDigit) :
    digits.takeWhile Char.isDigit = digits ∧ digits.dropWhile Char.isDigit = [] :=
  ⟨List.takeWhile_eq_self_iff.mpr all, List.dropWhile_eq_nil_iff.mpr all⟩

theorem readDecimal?_digits {digits : List Char} (filled : digits ≠ [])
    (all : ∀ c ∈ digits, c.isDigit) : readDecimal? digits = some ⟨digitsValue digits, 0⟩ := by
  obtain ⟨taken, dropped⟩ := takeWhile_digits all
  have given : (guard (digits ≠ [] ∨ ([] : List Char) ≠ []) : Option Unit) = some () :=
    if_pos (Or.inl filled)
  unfold readDecimal?
  rw [taken, dropped]
  dsimp only
  rw [given, List.append_nil]
  rfl

theorem readDecimal?_point {whole fraction : List Char} (filled : whole ++ fraction ≠ [])
    (all : ∀ c ∈ whole ++ fraction, c.isDigit) :
    readDecimal? (whole ++ '.' :: fraction) =
      some ⟨digitsValue (whole ++ fraction), 0 - fraction.length⟩ := by
  simp only [List.mem_append, or_imp, forall_and] at all
  have before : (whole ++ '.' :: fraction).takeWhile Char.isDigit = whole := by
    rw [List.takeWhile_append_of_pos all.1]
    exact List.append_nil _
  have behind : (whole ++ '.' :: fraction).dropWhile Char.isDigit = '.' :: fraction := by
    rw [List.dropWhile_append_of_pos all.1]
    rfl
  obtain ⟨taken, dropped⟩ := takeWhile_digits all.2
  have filled : whole ≠ [] ∨ fraction ≠ [] := by
    by_contra none
    obtain ⟨hw, hf⟩ := not_or.mp none
    exact filled (by rw [not_not.mp hw, not_not.mp hf]; rfl)
  have given : (guard (whole ≠ [] ∨ fraction ≠ []) : Option Unit) = some () := if_pos filled
  unfold readDecimal?
  rw [before, behind]
  change (do
    guard (whole ≠ [] ∨ fraction.takeWhile Char.isDigit ≠ [])
    let exponent ← readExponent? (fraction.dropWhile Char.isDigit)
    return (⟨digitsValue (whole ++ fraction.takeWhile Char.isDigit),
      exponent - (fraction.takeWhile Char.isDigit).length⟩ : Decimal)) = _
  rw [taken, dropped, given]
  rfl

theorem readDecimal?_of_numeral {s : List Char} (h : IsNumeral s) :
    ∃ d, readDecimal? s = some d := by
  cases h with
  | digits filled all => exact ⟨_, readDecimal?_digits filled all⟩
  | point filled all => exact ⟨_, readDecimal?_point filled all⟩

theorem IsNumeral.begins {s : List Char} (h : IsNumeral s) :
    ∃ c rest, s = c :: rest ∧ (c.isDigit ∨ c = '.') := by
  cases h with
  | digits filled all =>
    obtain ⟨c, rest, rfl⟩ := List.exists_cons_of_ne_nil filled
    exact ⟨c, rest, rfl, Or.inl (all c List.mem_cons_self)⟩
  | @point whole fraction filled all =>
    cases whole with
    | nil => exact ⟨'.', fraction, rfl, Or.inr rfl⟩
    | cons c whole =>
      exact ⟨c, whole ++ '.' :: fraction, rfl, Or.inl (all c List.mem_cons_self)⟩

theorem IsNumeral.unsigned {s : List Char} (h : IsNumeral s) :
    ∃ c rest, s = c :: rest ∧ c ≠ '-' ∧ c ≠ '+' := by
  obtain ⟨c, rest, hs, digit | rfl⟩ := h.begins
  · refine ⟨c, rest, hs, ?_, ?_⟩ <;> rintro rfl <;> exact absurd digit (by decide)
  · exact ⟨'.', rest, hs, by decide, by decide⟩

theorem toLower_of_isDigit {c : Char} (digit : c.isDigit) : c.toLower = c := by
  have most := UInt32.le_iff_toNat_le.mp (of_decide_eq_true ((Bool.and_eq_true _ _).mp digit).2)
  refine dif_neg fun upper => ?_
  have least := UInt32.le_iff_toNat_le.mp upper.1
  exact absurd (least.trans most) (by decide)

/-- A numeral is read as the decimal that it spells. -/
theorem read_of_decimal {s : String} {d : Decimal} (h : IsNumeral s.toList)
    (hd : readDecimal? s.toList = some d) : read s = .ok (ofMagnitude false (ofDecimal d)) := by
  obtain ⟨c, rest, hs, begins⟩ := h.begins
  have lower : c.toLower ≠ 'i' ∧ c.toLower ≠ 'n' := by
    rcases begins with digit | rfl
    · rw [toLower_of_isDigit digit]
      constructor <;> rintro rfl <;> exact absurd digit (by decide)
    · decide
  obtain ⟨c', rest', hs', minus, plus⟩ := h.unsigned
  cases hs.symm.trans hs'
  have unnamed (name : String) (other : name.toList.head? ≠ some c.toLower) :
      String.ofList ((c :: rest).map Char.toLower) ≠ name := by
    rintro rfl
    rw [String.toList_ofList] at other
    exact other rfl
  have filled : s ≠ "" := by
    rintro rfl
    cases hs
  have infinite := not_or.mpr ⟨unnamed "inf" (by simpa using lower.1.symm),
    unnamed "infinity" (by simpa using lower.1.symm)⟩
  have nan := unnamed "nan" (by simpa using lower.2.symm)
  rw [hs] at hd
  unfold read
  rw [hs]
  split
  next negative body signed =>
    have unsigned : (false, c :: rest) = (negative, body) := by
      split at signed
      next he => exact absurd (List.cons.inj he).1 minus
      next he => exact absurd (List.cons.inj he).1 plus
      next => exact signed
    cases unsigned
    dsimp only
    rw [if_neg filled, if_neg infinite, if_neg nan, hd]

theorem read_of_numeral {s : String} (h : IsNumeral s.toList) : ∃ x, read s = .ok x := by
  obtain ⟨d, hd⟩ := readDecimal?_of_numeral h
  exact ⟨_, read_of_decimal h hd⟩

/-- The characters that texts of numbers are made of beside the digits, in lower case. -/
def letters : List Char := ['+', '-', '.', 'e', 'i', 'n', 'f', 't', 'y', 'a']

theorem readExponent?_chars {s : List Char} {n : Int} (h : readExponent? s = some n) :
    ∀ c ∈ s, c.isDigit ∨ c.toLower ∈ letters := by
  fun_cases readExponent? s with
  | case1 => simp
  | case2 e s negative digits signed invalid =>
    unfold readExponent? at h
    dsimp only at h
    rw [signed] at h
    dsimp only at h
    rw [if_pos invalid] at h
    cases h
  | case3 e s negative digits signed valid =>
    obtain ⟨lower, _, all⟩ : e.toLower = 'e' ∧ digits ≠ [] ∧ digits.all Char.isDigit := by
      simpa using valid
    have behind : ∀ c ∈ digits, c.isDigit ∨ c.toLower ∈ letters := fun c mem =>
      Or.inl (List.all_eq_true.mp all c mem)
    refine List.forall_mem_cons.mpr ⟨Or.inr (lower ▸ by decide), ?_⟩
    split at signed
    next =>
      cases signed
      exact List.forall_mem_cons.mpr ⟨Or.inr (by decide), behind⟩
    next =>
      cases signed
      exact List.forall_mem_cons.mpr ⟨Or.inr (by decide), behind⟩
    next =>
      cases signed
      exact behind

theorem readDecimal?_chars {s : List Char} {d : Decimal} (h : readDecimal? s = some d) :
    ∀ c ∈ s, c.isDigit ∨ c.toLower ∈ letters := by
  have digits (s : List Char) : ∀ c ∈ s.takeWhile Char.isDigit,
      c.isDigit ∨ c.toLower ∈ letters := fun c mem => Or.inl (List.mem_takeWhile_imp mem)
  have whole := digits s
  rw [← List.takeWhile_append_dropWhile (p := Char.isDigit) (l := s)]
  unfold readDecimal? at h
  dsimp only at h
  generalize s.takeWhile Char.isDigit = front at whole h ⊢
  refine List.forall_mem_append.mpr ⟨whole, ?_⟩
  have exponent {rest : List Char} {α : Type} {given : Option Unit} {made : Int → Option α}
      {a : α} (h : (given >>= fun _ => readExponent? rest >>= made) = some a) :
      ∀ c ∈ rest, c.isDigit ∨ c.toLower ∈ letters := by
    obtain ⟨_, _, h⟩ := Option.bind_eq_some_iff.mp h
    obtain ⟨n, read, _⟩ := Option.bind_eq_some_iff.mp h
    exact readExponent?_chars read
  split at h
  next tail behind =>
    rw [behind, ← List.takeWhile_append_dropWhile (p := Char.isDigit) (l := tail)]
    exact List.forall_mem_cons.mpr ⟨Or.inr (by decide),
      List.forall_mem_append.mpr ⟨digits tail, exponent h⟩⟩
  next => exact exponent h

/-- A text with a character that no text of a number has spells none. -/
theorem read_foreign {s : String} {c : Char} (mem : c ∈ s.toList) (digit : ¬ c.isDigit)
    (foreign : c.toLower ∉ letters) : read s = .error .invalid := by
  have behind {x : Char} {rest : List Char} (known : x.toLower ∈ letters)
      (mem : c ∈ x :: rest) : c ∈ rest := by
    refine (List.mem_cons.mp mem).resolve_left ?_
    rintro rfl
    exact foreign known
  unfold read
  split
  next negative body signed =>
    have mem : c ∈ body := by
      split at signed
      next hs =>
        cases signed
        exact behind (by decide) (hs ▸ mem)
      next hs =>
        cases signed
        exact behind (by decide) (hs ▸ mem)
      next =>
        cases signed
        exact mem
    have unnamed {name : String} (known : name.toList.all (· ∈ letters)) :
        String.ofList (body.map Char.toLower) ≠ name := by
      rintro rfl
      rw [String.toList_ofList] at known
      exact foreign (of_decide_eq_true (List.all_eq_true.mp known _ (List.mem_map_of_mem mem)))
    have filled : s ≠ "" := by
      rintro rfl
      cases ‹c ∈ "".toList›
    have infinite : ¬ (String.ofList (body.map Char.toLower) = "inf" ∨
        String.ofList (body.map Char.toLower) = "infinity") :=
      not_or.mpr ⟨unnamed (by decide), unnamed (by decide)⟩
    have spells : readDecimal? body = none := by
      cases read : readDecimal? body with
      | none => rfl
      | some d =>
        rcases readDecimal?_chars read c mem with known | known
        · exact absurd known digit
        · exact absurd known foreign
    dsimp only
    rw [if_neg filled, if_neg infinite, if_neg (unnamed (by decide)), spells]

end ShiftFirst.Binary64
