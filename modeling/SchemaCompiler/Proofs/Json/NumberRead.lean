import SchemaCompiler.Proofs.Decimal.Nearest
import SchemaCompiler.Proofs.Json.Literal
import SchemaCompiler.Proofs.Json.NumberText

/-
Numbers that are read back.

The written form of a number that JSON can denote is a literal of that number.  It need not be
the literal that the number was read from: many literals denote one number, and one of them is
its written form.
-/

namespace SchemaCompiler
namespace Json

open Decimal (Binary64 Magnitude Scaled digits value)

/-! ### Doubles -/

namespace Number

/-- The number that a word denotes, if it is a literal. -/
def ofWord? (word : List Char) : Option Number :=
  (NumberLiteral.read? word).bind ofLiteral?

/-- The power of ten that an exponent stands for. -/
def powerOf : Option (Bool × List Char) → Int
  | none => 0
  | some (true, ds) => -(value ds : Int)
  | some (false, ds) => value ds

theorem powerOf_digits (power : Int) :
    powerOf (some (decide (power < 0), digits power.natAbs)) = power := by
  by_cases negative : power < 0
  · rw [decide_eq_true negative, powerOf, Decimal.value_digits]
    omega
  · rw [decide_eq_false negative, powerOf, Decimal.value_digits]
    omega

/-- The decimal that a literal stands for, without its sign. -/
def scaledOf (literal : NumberLiteral) : Scaled :=
  ⟨value (literal.whole ++ literal.fraction), powerOf literal.exponent - literal.fraction.length⟩

theorem doubleOf?_eq (literal : NumberLiteral) : doubleOf? literal =
    Binary64.ofDecimal? literal.negative (scaledOf literal).coefficient
      (scaledOf literal).exponent := by
  rw [doubleOf?, scaledOf]
  rfl

/-- Characters that are a literal of a decimal and of no whole number. -/
structure Spells (negative : Bool) (x : Scaled) (literal : NumberLiteral) (cs : List Char) :
    Prop where
  wellFormed : literal.WellFormed
  sign : literal.negative = negative
  chars : literal.chars = cs
  noWhole : literal.fraction ≠ [] ∨ literal.exponent ≠ none
  denotes : (scaledOf literal).value = x.value

section Layouts

variable (negative : Bool) {x : Scaled} (positive : 0 < x.coefficient)

include positive

/-- A whole number has zeros after its digits and one after the point. -/
theorem spells_whole (whole : 0 ≤ x.exponent) : ∃ literal, Spells negative x literal
    (layout.positionalChars (digits x.coefficient) x.exponent) := by
  obtain ⟨d, rest, written, leading, _⟩ := exists_cons_of_digits positive
  have zeros := isDigit_of_mem_zeros
  refine ⟨⟨negative, digits x.coefficient ++ List.replicate x.exponent.toNat '0', ['0'], none⟩,
    ⟨?_, ?_, zeros 1, nofun⟩, rfl, ?_, .inl (List.cons_ne_nil _ _), ?_⟩
  · rw [written]
    exact isWholePart_of_leading leading _
  · intro c member
    exact (List.mem_append.mp member).elim Decimal.isDigit_of_mem_digits (zeros _ c)
  · rw [Decimal.Layout.positionalChars, if_pos whole]
    rfl
  · have power : (10 : ℚ) ^ x.exponent = 10 ^ x.exponent.toNat := by
      rw [← zpow_natCast, Int.toNat_of_nonneg whole]
    have coefficient : value (digits x.coefficient ++ List.replicate x.exponent.toNat '0' ++
        List.replicate 1 '0') = x.coefficient * 10 ^ x.exponent.toNat * 10 ^ 1 := by
      rw [Decimal.value_append_zeros, Decimal.value_append_zeros, Decimal.value_digits]
      rfl
    show ((value (_ ++ List.replicate 1 '0') : ℕ) : ℚ) * 10 ^ (0 - 1 : Int) = _
    rw [coefficient, Scaled.value, power]
    push_cast
    norm_num
    ring

theorem spells_inside (fraction : x.exponent < 0)
    (inside : 0 < (digits x.coefficient).length + x.exponent) :
    ∃ literal, Spells negative x literal
      (layout.positionalChars (digits x.coefficient) x.exponent) := by
  obtain ⟨d, rest, written, leading, _⟩ := exists_cons_of_digits positive
  obtain ⟨before, count⟩ : ∃ before : ℕ,
      (digits x.coefficient).length + x.exponent = (before + 1 : ℕ) :=
    ⟨((digits x.coefficient).length + x.exponent - 1).toNat, by omega⟩
  have after : (digits x.coefficient).drop (before + 1) ≠ [] := by
    rw [← List.length_pos_iff, List.length_drop]
    omega
  refine ⟨⟨negative, (digits x.coefficient).take (before + 1),
    (digits x.coefficient).drop (before + 1), none⟩, ⟨?_, ?_, ?_, nofun⟩, rfl, ?_, .inl after, ?_⟩
  · rw [written, List.take_succ_cons]
    exact isWholePart_of_leading leading _
  · exact fun c member => Decimal.isDigit_of_mem_digits (List.mem_of_mem_take member)
  · exact fun c member => Decimal.isDigit_of_mem_digits (List.mem_of_mem_drop member)
  · rw [NumberLiteral.chars, NumberLiteral.fractionChars_of_ne_nil after,
      Decimal.Layout.positionalChars, if_neg (not_le.mpr fraction), if_pos inside, count]
    exact congrArg _ (List.append_nil _)
  · have places : (0 : Int) - ((digits x.coefficient).drop (before + 1)).length = x.exponent := by
      rw [List.length_drop]
      omega
    rw [scaledOf, List.take_append_drop, Decimal.value_digits, powerOf, places]

omit positive in
/-- A number below one has zeros before its digits. -/
theorem spells_below (below : (digits x.coefficient).length + x.exponent ≤ 0) :
    ∃ literal, Spells negative x literal
      (layout.positionalChars (digits x.coefficient) x.exponent) := by
  have written := List.length_pos_iff.mpr (Decimal.digits_ne_nil x.coefficient)
  let zeros := List.replicate (-((digits x.coefficient).length + x.exponent)).toNat '0'
  have nonempty : zeros ++ digits x.coefficient ≠ [] :=
    List.append_ne_nil_of_right_ne_nil _ (Decimal.digits_ne_nil _)
  refine ⟨⟨negative, ['0'], zeros ++ digits x.coefficient, none⟩,
    ⟨rfl, isDigit_of_mem_zeros 1, ?_, nofun⟩, rfl, ?_, .inl nonempty, ?_⟩
  · intro c member
    exact (List.mem_append.mp member).elim (isDigit_of_mem_zeros _ c)
      Decimal.isDigit_of_mem_digits
  · rw [NumberLiteral.chars, NumberLiteral.fractionChars_of_ne_nil nonempty,
      Decimal.Layout.positionalChars, if_neg (by omega), if_neg (by omega)]
    exact congrArg _ (List.append_nil _)
  · have places : (0 : Int) - (zeros ++ digits x.coefficient).length = x.exponent := by
      rw [List.length_append, List.length_replicate]
      omega
    have coefficient : value (['0'] ++ (zeros ++ digits x.coefficient)) = x.coefficient := by
      rw [← List.append_assoc, ← List.replicate_one, List.replicate_append_replicate,
        Decimal.value_zeros_append, Decimal.value_digits]
    rw [scaledOf, coefficient, powerOf, places]

theorem spells_positional : ∃ literal, Spells negative x literal
    (layout.positionalChars (digits x.coefficient) x.exponent) := by
  rcases le_or_gt 0 x.exponent with whole | fraction
  · exact spells_whole negative positive whole
  · rcases le_or_gt ((digits x.coefficient).length + x.exponent) 0 with below | inside
    · exact spells_below negative below
    · exact spells_inside negative positive fraction inside

/-- A number with an exponent has one digit before the point. -/
theorem spells_scientific : ∃ literal, Spells negative x literal
    (Decimal.Layout.scientificChars (digits x.coefficient) x.exponent) := by
  obtain ⟨d, rest, written, leading, each⟩ := exists_cons_of_digits positive
  obtain ⟨digit, others⟩ := List.forall_mem_cons.mp each
  let power := (digits x.coefficient).length + x.exponent - 1
  have mark : NumberLiteral.exponentChars (some (decide (power < 0), digits power.natAbs)) =
      'e' :: (if power < 0 then '-' else '+') :: digits power.natAbs := by
    simp only [NumberLiteral.exponentChars, decide_eq_true_eq]
  refine ⟨⟨negative, [d], rest, some (decide (power < 0), digits power.natAbs)⟩,
    ⟨isWholePart_of_leading leading [], ?_, others, ?_⟩, rfl, ?_, .inr nofun, ?_⟩
  · exact List.forall_mem_singleton.mpr digit
  · rintro sign ds same
    cases same
    exact ⟨Decimal.digits_ne_nil _, fun c member => Decimal.isDigit_of_mem_digits member⟩
  · rw [NumberLiteral.chars, mark]
    unfold Decimal.Layout.scientificChars
    simp only [power, written]
    cases rest with
    | nil => rfl
    | cons next rest => rfl
  · have places : power - rest.length = x.exponent := by
      simp only [power, written, List.length_cons]
      omega
    rw [scaledOf, powerOf_digits, places, List.singleton_append, ← written, Decimal.value_digits]

theorem spells_scaledChars : ∃ literal, Spells negative x literal (layout.scaledChars x) := by
  rw [scaledChars_eq]
  split_ifs
  · exact spells_positional negative positive
  · exact spells_scientific negative positive

end Layouts

theorem ofLiteral?_of_spells {negative : Bool} {x : Scaled} {literal : NumberLiteral}
    {cs : List Char} (spells : Spells negative x literal cs) :
    ofLiteral? literal = (Binary64.ofDecimal? negative (scaledOf literal).coefficient
      (scaledOf literal).exponent).map .double := by
  have noWhole : wholeOf? literal = none := by
    rw [wholeOf?]
    rcases spells.noWhole with fraction | exponent
    · simp [fraction]
    · simp [Option.isNone_iff_eq_none, exponent]
  rw [ofLiteral?, noWhole, doubleOf?_eq, spells.sign]

theorem ofWord?_of_spells {negative : Bool} {x : Scaled} {literal : NumberLiteral}
    {cs : List Char} (spells : Spells negative x literal cs) :
    ofWord? (NumberLiteral.signed negative cs) = ofLiteral? literal := by
  have read := NumberLiteral.read?_signed spells.wellFormed
  rw [spells.sign, spells.chars] at read
  rw [ofWord?, read]
  rfl

theorem ofWord?_zero {x : Binary64} {exponent : Int} (denotes : x.magnitude = .finite 0 exponent) :
    ofWord? (NumberLiteral.signed x.isNegative ['0', '.', '0']) = some (.double x) := by
  have zeros : value ['0', '0'] = 0 := by decide
  have empty : x.pattern = 0 := by
    have finite := Decimal.isFinite_of_magnitude denotes
    obtain rfl : exponent = -1074 := finite.normal.resolve_left (by decide)
    exact Decimal.pattern_eq_patternOf denotes
  have spells : Spells x.isNegative ⟨0, 0⟩ ⟨x.isNegative, ['0'], ['0'], none⟩ ['0', '.', '0'] := by
    refine ⟨⟨rfl, isDigit_of_mem_zeros 1, isDigit_of_mem_zeros 1, nofun⟩, rfl, rfl,
      .inl (List.cons_ne_nil _ _), ?_⟩
    show ((value ['0', '0'] : ℕ) : ℚ) * _ = ((0 : ℕ) : ℚ) * _
    rw [zeros, Nat.cast_zero, zero_mul, zero_mul]
  have coefficient : (scaledOf ⟨x.isNegative, ['0'], ['0'], none⟩).coefficient = 0 := zeros
  rw [ofWord?_of_spells spells, ofLiteral?_of_spells spells, coefficient,
    Decimal.ofDecimal?_zero, ← empty, Decimal.ofPattern_pattern]
  rfl

theorem ofWord?_double {x : Binary64} {significand : Nat} {exponent : Int}
    (denotes : x.magnitude = .finite significand exponent) :
    ofWord? (Number.double x).text.toList = some (.double x) := by
  have finite := Decimal.isFinite_of_magnitude denotes
  have signed : (Number.double x).text.toList =
      NumberLiteral.signed x.isNegative (layout.magnitudeChars x.magnitude) := by
    rw [text, Decimal.Layout.text, String.toList_ofList, denotes]
    have number : (Magnitude.finite significand exponent != .notANumber) = true := by
      simp
    rw [number, Bool.and_true]
    rfl
  rw [signed, denotes]
  rcases Nat.eq_zero_or_pos significand with rfl | positive
  · exact ofWord?_zero denotes
  · rw [magnitudeChars_of_pos positive]
    have coefficient := Decimal.coefficient_shortest_pos .even finite positive
    obtain ⟨literal, spells⟩ := spells_scaledChars x.isNegative coefficient
    have inside := Decimal.inside_shortest .even finite positive
    rw [← spells.denotes] at inside
    rw [ofWord?_of_spells spells, ofLiteral?_of_spells spells,
      Decimal.ofDecimal?_of_inside finite positive inside,
      ← Decimal.pattern_eq_patternOf denotes, Decimal.ofPattern_pattern]
    rfl

/-! ### Numbers -/

/-- Whether a literal can denote a number. -/
def IsHeld : Number → Prop
  | .whole value => -2 ^ 63 ≤ value ∧ value < 2 ^ 64
  | .double x => ∃ significand exponent, x.magnitude = .finite significand exponent

/-- The literal that a whole number is written as. -/
def literalOfWhole (number : Int) : NumberLiteral :=
  ⟨decide (number < 0), digits number.natAbs, [], none⟩

theorem read?_intText (number : Int) :
    NumberLiteral.read? (Number.whole number).text.toList = some (literalOfWhole number) := by
  have wellFormed : (literalOfWhole number).WellFormed :=
    ⟨isWholePart_digits _, fun c member => Decimal.isDigit_of_mem_digits member, nofun, nofun⟩
  have written : (Number.whole number).text.toList =
      NumberLiteral.signed (literalOfWhole number).negative (literalOfWhole number).chars := by
    have chars : (literalOfWhole number).chars = digits number.natAbs := List.append_nil _
    rw [chars, text, Decimal.intText, NumberLiteral.signed, Decimal.natText]
    by_cases negative : number < 0 <;> simp [literalOfWhole, negative]
  rw [written, NumberLiteral.read?_signed wellFormed]

theorem ofLiteral?_literalOfWhole {number : Int} (fits : -2 ^ 63 ≤ number ∧ number < 2 ^ 64) :
    ofLiteral? (literalOfWhole number) = some (.whole number) := by
  have least : Decimal.twoTo 63 = 2 ^ 63 := rfl
  have greatest : Decimal.twoTo 64 = 2 ^ 64 := rfl
  have whole : wholeOf? (literalOfWhole number) = some number := by
    rw [wholeOf?, literalOfWhole, Decimal.value_digits, least, greatest]
    by_cases negative : number < 0
    · have size : 0 < number.natAbs ∧ number.natAbs ≤ 2 ^ 63 := by omega
      have back : -(number.natAbs : Int) = number := by omega
      simp only [negative, size, back, List.isEmpty_nil, Option.isNone_none, Bool.and_self,
        decide_true, and_self, if_true]
    · have size : number.natAbs < 2 ^ 64 := by omega
      have back : (number.natAbs : Int) = number := by omega
      simp only [negative, size, back, List.isEmpty_nil, Option.isNone_none, Bool.and_self,
        decide_false, if_true, Bool.false_eq_true, if_false]
  rw [ofLiteral?, whole]

/-- The written form of a number that a literal can denote is a literal of that number. -/
theorem ofWord?_text {number : Number} (held : number.IsHeld) :
    ofWord? number.text.toList = some number := by
  cases number with
  | whole value =>
      rw [ofWord?, read?_intText]
      exact ofLiteral?_literalOfWhole held
  | double x =>
      obtain ⟨significand, exponent, denotes⟩ := held
      exact ofWord?_double denotes

theorem bounded_of_wholeOf? {literal : NumberLiteral} {number : Int}
    (whole : wholeOf? literal = some number) : -2 ^ 63 ≤ number ∧ number < 2 ^ 64 := by
  have least : Decimal.twoTo 63 = 2 ^ 63 := rfl
  have greatest : Decimal.twoTo 64 = 2 ^ 64 := rfl
  unfold wholeOf? at whole
  extract_lets size at whole
  rw [least, greatest] at whole
  split_ifs at whole <;> cases whole <;> omega

theorem isHeld_of_ofLiteral? {literal : NumberLiteral} {number : Number}
    (denotes : ofLiteral? literal = some number) : number.IsHeld := by
  unfold ofLiteral? at denotes
  split at denotes
  · rename_i whole
    cases denotes
    exact bounded_of_wholeOf? whole
  · obtain ⟨x, read, rfl⟩ := Option.map_eq_some_iff.mp denotes
    exact Decimal.exists_finite_of_ofDecimal? read

/-- A word is the written form of the number that it denotes exactly when it is the written form
of some number. -/
theorem text_eq_iff {word : List Char} {number : Number} (denotes : ofWord? word = some number) :
    number.text.toList = word ↔ ∃ held : Number, held.IsHeld ∧ word = held.text.toList := by
  constructor
  · intro same
    obtain ⟨literal, _, read⟩ := Option.bind_eq_some_iff.mp denotes
    exact ⟨number, isHeld_of_ofLiteral? read, same.symm⟩
  · rintro ⟨held, isHeld, rfl⟩
    rw [ofWord?_text isHeld] at denotes
    rw [Option.some.inj denotes]

/-! ### Whole literals -/

theorem parts_of_wholeOf? {literal : NumberLiteral} {number : Int}
    (whole : wholeOf? literal = some number) :
    literal.fraction = [] ∧ literal.exponent = none ∧ number.natAbs = value literal.whole ∧
      decide (number < 0) = literal.negative := by
  unfold wholeOf? at whole
  extract_lets size at whole
  split_ifs at whole with exact negative positive fits
  all_goals
    cases whole
    have ⟨noFraction, noExponent⟩ := Bool.and_eq_true_iff.mp exact
    refine ⟨List.isEmpty_iff.mp noFraction, Option.isNone_iff_eq_none.mp noExponent, ?_, ?_⟩
  · omega
  · rw [negative, decide_eq_true_eq]
    omega
  · omega
  · rw [Bool.not_eq_true] at negative
    rw [negative, decide_eq_false_iff_not]
    omega

theorem text_of_wholeOf? {word : List Char} {literal : NumberLiteral} {number : Int}
    (read : NumberLiteral.read? word = some literal) (whole : wholeOf? literal = some number) :
    (Number.whole number).text.toList = word := by
  obtain ⟨fraction, exponent, size, sign⟩ := parts_of_wholeOf? whole
  have written : (Number.whole number).text.toList =
      NumberLiteral.signed literal.negative (digits (value literal.whole)) := by
    rw [text, Decimal.intText, NumberLiteral.signed, ← sign, ← size]
    by_cases negative : number < 0 <;> simp [negative, Decimal.natText]
  rw [written]
  unfold NumberLiteral.read? at read
  split at read
  · obtain ⟨negative, same, kept⟩ := eq_of_readUnsigned? read fraction exponent
    rw [negative, same, kept]
    rfl
  · obtain ⟨negative, same, kept⟩ := eq_of_readUnsigned? read fraction exponent
    rw [negative, same, kept]
    rfl

end Number
end Json
end SchemaCompiler
