import SchemaCompiler.Json.Number
import SchemaCompiler.Proofs.Decimal.Shortest
import SchemaCompiler.Proofs.Text.Pattern
import SchemaCompiler.Proofs.TypeScript.Quoting

/-
Which numbers are written as decimal numbers.

The written form of a number is a decimal number, in the sense of the pattern of that name,
unless it has an exponent.  Whether it has one is decided by the place of the decimal point
in the shortest digits, and that by the number itself.
-/

namespace SchemaCompiler

open Text.Pattern (decimalNumber unsignedNumber)

namespace Json
namespace Number

open Decimal (Magnitude Scaled digits)

section Notation

variable {ds : List Char}

theorem isDigit_of_mem_zeros (count : Nat) :
    ∀ c ∈ List.replicate count '0', c.isDigit = true := by
  intro c member
  rw [List.eq_of_mem_replicate member]
  rfl

theorem positionalChars_mem (nonempty : ds ≠ []) (each : ∀ c ∈ ds, c.isDigit = true)
    (exponent : Int) : layout.positionalChars ds exponent ∈ unsignedNumber.language := by
  have some := List.length_pos_iff.mpr nonempty
  unfold Decimal.Layout.positionalChars
  dsimp only
  split_ifs with whole inside
  · have ending : layout.wholeEnding = ['.', '0'] := rfl
    rw [ending]
    apply Text.Pattern.mem_unsignedNumber_of_fraction
    · exact List.append_ne_nil_of_left_ne_nil nonempty _
    · intro c member
      exact (List.mem_append.mp member).elim (each c) (isDigit_of_mem_zeros _ c)
    · exact List.cons_ne_nil _ _
    · exact isDigit_of_mem_zeros 1
  · apply Text.Pattern.mem_unsignedNumber_of_fraction
    · rw [← List.length_pos_iff, List.length_take]
      omega
    · exact fun c member => each c (List.mem_of_mem_take member)
    · rw [← List.length_pos_iff, List.length_drop]
      omega
    · exact fun c member => each c (List.mem_of_mem_drop member)
  · apply Text.Pattern.mem_unsignedNumber_of_fraction (List.cons_ne_nil '0' [])
    · exact isDigit_of_mem_zeros 1
    · exact List.append_ne_nil_of_right_ne_nil _ nonempty
    · intro c member
      exact (List.mem_append.mp member).elim (isDigit_of_mem_zeros _ c) (each c)

theorem positionalChars_ne_nil (nonempty : ds ≠ []) (exponent : Int) :
    layout.positionalChars ds exponent ≠ [] := by
  unfold Decimal.Layout.positionalChars
  dsimp only
  split_ifs
  · exact List.append_ne_nil_of_left_ne_nil (List.append_ne_nil_of_left_ne_nil nonempty _) _
  · exact List.append_ne_nil_of_right_ne_nil _ (List.cons_ne_nil _ _)
  · exact List.cons_ne_nil _ _

theorem exponent_mem_scientificChars (ds : List Char) (exponent : Int) :
    'e' ∈ Decimal.Layout.scientificChars ds exponent :=
  List.mem_append_right _ List.mem_cons_self

end Notation

/-- Whether a number is a whole one, a zero, or from `0.00001` up to below ten to the
sixteenth. -/
def IsPlain : Number → Prop
  | .whole _ => True
  | .double x => ∃ value, x.magnitude.value? = some value ∧
      (value = 0 ∨ 10 ^ (-5 : Int) ≤ value ∧ value < 10 ^ 16)

section Scaled

variable {x : Scaled}

theorem positional_iff (positive : 0 < x.coefficient) :
    (-4 ≤ (digits x.coefficient).length + x.exponent ∧
        (digits x.coefficient).length + x.exponent ≤ 16) ↔
      10 ^ (-5 : Int) ≤ x.value ∧ x.value < 10 ^ 16 := by
  apply and_congr
  · rw [← not_lt, ← not_lt, ← Decimal.point_le_iff positive (-5)]
    omega
  · exact Decimal.point_le_iff positive 16

theorem scaledChars_eq (x : Scaled) : layout.scaledChars x =
    if -4 ≤ (digits x.coefficient).length + x.exponent ∧
      (digits x.coefficient).length + x.exponent ≤ 16 then
    layout.positionalChars (digits x.coefficient) x.exponent
  else
    Decimal.Layout.scientificChars (digits x.coefficient) x.exponent :=
  rfl

theorem scaledChars_mem (positive : 0 < x.coefficient)
    (inRange : 10 ^ (-5 : Int) ≤ x.value ∧ x.value < 10 ^ 16) :
    layout.scaledChars x ∈ unsignedNumber.language := by
  rw [scaledChars_eq, if_pos ((positional_iff positive).mpr inRange)]
  exact positionalChars_mem (Decimal.digits_ne_nil _)
    (fun c member => Decimal.isDigit_of_mem_digits member) _

theorem exponent_mem_scaledChars (positive : 0 < x.coefficient)
    (outside : ¬(10 ^ (-5 : Int) ≤ x.value ∧ x.value < 10 ^ 16)) :
    'e' ∈ layout.scaledChars x := by
  rw [scaledChars_eq, if_neg (mt (positional_iff positive).mp outside)]
  exact exponent_mem_scientificChars _ _

end Scaled

section Magnitude

variable {x : Decimal.Binary64}

theorem magnitudeChars_of_pos {significand : Nat} {exponent : Int} (positive : 0 < significand) :
    layout.magnitudeChars (.finite significand exponent) =
      layout.scaledChars (Decimal.shortest .even significand exponent) := by
  rw [Decimal.Layout.magnitudeChars]
  · rfl
  · exact positive.ne'

theorem magnitudeChars_mem (plain : IsPlain (.double x)) :
    layout.magnitudeChars x.magnitude ∈ unsignedNumber.language := by
  obtain ⟨value, denotes, range⟩ := plain
  cases held : x.magnitude with
  | infinite =>
      rw [held] at denotes
      cases denotes
  | notANumber =>
      rw [held] at denotes
      cases denotes
  | finite significand exponent =>
      rw [held] at denotes
      obtain rfl := Option.some.inj denotes
      rcases Nat.eq_zero_or_pos significand with rfl | positive
      · show layout.positionalChars ['0'] 0 ∈ unsignedNumber.language
        exact positionalChars_mem (List.cons_ne_nil _ _) (isDigit_of_mem_zeros 1) 0
      · have finite := Decimal.isFinite_of_magnitude held
        rw [magnitudeChars_of_pos positive]
        apply scaledChars_mem (Decimal.coefficient_shortest_pos _ finite positive)
        apply (Decimal.shortest_in_range_iff _ finite positive).mpr
        exact range.resolve_left (by positivity)

theorem magnitudeChars_ne_nil (magnitude : Magnitude) : layout.magnitudeChars magnitude ≠ [] := by
  cases magnitude with
  | infinite => exact List.cons_ne_nil _ _
  | notANumber => exact List.cons_ne_nil _ _
  | finite significand exponent =>
      rcases Nat.eq_zero_or_pos significand with rfl | positive
      · exact List.cons_ne_nil _ _
      · rw [magnitudeChars_of_pos positive, scaledChars_eq]
        split_ifs
        · exact positionalChars_ne_nil (Decimal.digits_ne_nil _) _
        · exact List.append_ne_nil_of_right_ne_nil _ (List.cons_ne_nil _ _)

theorem exists_mem_magnitudeChars (exceptional : ¬IsPlain (.double x)) :
    ∃ c ∈ layout.magnitudeChars x.magnitude, decimalNumber.mayContain c = false := by
  cases held : x.magnitude with
  | infinite => exact ⟨'i', by decide, by decide⟩
  | notANumber => exact ⟨'N', by decide, by decide⟩
  | finite significand exponent =>
      have denotes : x.magnitude.value? = some (significand * (2 : ℚ) ^ exponent) := by
        rw [held]
        rfl
      have positive : 0 < significand := by
        by_contra none
        obtain rfl := Nat.eq_zero_of_not_pos none
        exact exceptional ⟨_, denotes, .inl (by rw [Nat.cast_zero, zero_mul])⟩
      have finite := Decimal.isFinite_of_magnitude held
      rw [magnitudeChars_of_pos positive]
      refine ⟨'e', ?_, by decide⟩
      apply exponent_mem_scaledChars (Decimal.coefficient_shortest_pos _ finite positive)
      intro inRange
      have range := (Decimal.shortest_in_range_iff _ finite positive).mp inRange
      exact exceptional ⟨_, denotes, .inr range⟩

end Magnitude

theorem text_whole_mem (value : Int) :
    (Number.whole value).text.toList ∈ decimalNumber.language := by
  have unsigned : digits value.natAbs ∈ unsignedNumber.language :=
    Text.Pattern.mem_unsignedNumber_of_whole (Decimal.digits_ne_nil _)
      fun c member => Decimal.isDigit_of_mem_digits member
  rw [text, Decimal.intText]
  split_ifs with negative
  · simp only [String.toList_append, Decimal.natText, String.toList_ofList]
    exact (Text.Pattern.mem_decimalNumber_of_unsigned unsigned).2
  · rw [Decimal.natText, String.toList_ofList]
    exact (Text.Pattern.mem_decimalNumber_of_unsigned unsigned).1

theorem text_ne_nil (number : Number) : number.text.toList ≠ [] := by
  cases number with
  | whole value =>
      rw [text, Decimal.intText]
      split_ifs
      · rw [String.toList_append]
        exact List.append_ne_nil_of_left_ne_nil (List.cons_ne_nil _ _) _
      · rw [Decimal.natText, String.toList_ofList]
        exact Decimal.digits_ne_nil _
  | double x =>
      rw [text, Decimal.Layout.text, String.toList_ofList]
      split
      · exact List.cons_ne_nil _ _
      · exact magnitudeChars_ne_nil _

/-- A number is written as a decimal number exactly when it needs no exponent. -/
theorem text_mem_iff (number : Number) :
    number.text.toList ∈ decimalNumber.language ↔ number.IsPlain := by
  cases number with
  | whole value => exact iff_of_true (text_whole_mem value) trivial
  | double x =>
      rw [text, Decimal.Layout.text, String.toList_ofList]
      constructor
      · intro matched
        by_contra exceptional
        obtain ⟨c, occurs, excluded⟩ := exists_mem_magnitudeChars exceptional
        have allowed := Text.Pattern.mayContain_of_mem matched (c := c) (by
          split
          · exact List.mem_cons_of_mem _ occurs
          · exact occurs)
        rw [excluded] at allowed
        cases allowed
      · intro plain
        have unsigned := Text.Pattern.mem_decimalNumber_of_unsigned (magnitudeChars_mem plain)
        split
        · exact unsigned.2
        · exact unsigned.1

/-! ### Quoted numbers -/

section Quoted

variable {c : Char}

/-- Whether a number may be written with a character. -/
def isNumeral (c : Char) : Bool :=
  c.isDigit || "-+.einfNa".toList.contains c

theorem escapeChar_of_isNumeral (numeral : isNumeral c = true) :
    TypeScript.escapeChar c = [c] := by
  unfold TypeScript.escapeChar
  split
  all_goals first
    | rfl
    | exact absurd numeral (by decide)

theorem isNumeral_of_isDigit (digit : c.isDigit = true) : isNumeral c = true := by
  rw [isNumeral, digit, Bool.true_or]

theorem isNumeral_of_mem_decimalNumber {content : List Char}
    (matched : content ∈ decimalNumber.language) (member : c ∈ content) : isNumeral c = true := by
  have allowed := Text.Pattern.mayContain_of_mem matched member
  simp only [decimalNumber, unsignedNumber, Text.Pattern.mayContain, Bool.or_eq_true,
    beq_iff_eq] at allowed
  rcases allowed with rfl | digit | rfl | digit
  · decide
  · exact isNumeral_of_isDigit digit
  · decide
  · exact isNumeral_of_isDigit digit

theorem isNumeral_of_mem_scientificChars {ds : List Char} {exponent : Int}
    (each : ∀ c ∈ ds, c.isDigit = true)
    (member : c ∈ Decimal.Layout.scientificChars ds exponent) : isNumeral c = true := by
  rcases List.mem_append.mp member with inMantissa | inPower
  · cases ds with
    | nil => cases inMantissa
    | cons first rest =>
        cases rest with
        | nil => exact isNumeral_of_isDigit (each c inMantissa)
        | cons second others =>
            rcases List.mem_cons.mp inMantissa with rfl | later
            · exact isNumeral_of_isDigit (each _ List.mem_cons_self)
            · rcases List.mem_cons.mp later with rfl | inRest
              · decide
              · exact isNumeral_of_isDigit (each c (List.mem_cons_of_mem first inRest))
  · rcases List.mem_cons.mp inPower with rfl | afterMark
    · decide
    · rcases List.mem_cons.mp afterMark with rfl | digit
      · split <;> decide
      · exact isNumeral_of_isDigit (Decimal.isDigit_of_mem_digits digit)

theorem isNumeral_of_mem_scaledChars {x : Scaled} (member : c ∈ layout.scaledChars x) :
    isNumeral c = true := by
  have each : ∀ d ∈ digits x.coefficient, d.isDigit = true :=
    fun d digit => Decimal.isDigit_of_mem_digits digit
  rw [scaledChars_eq] at member
  split_ifs at member
  · have matched := positionalChars_mem (Decimal.digits_ne_nil x.coefficient) each x.exponent
    exact isNumeral_of_mem_decimalNumber
      (Text.Pattern.mem_decimalNumber_of_unsigned matched).1 member
  · exact isNumeral_of_mem_scientificChars each member

theorem isNumeral_of_mem_magnitudeChars {magnitude : Magnitude}
    (member : c ∈ layout.magnitudeChars magnitude) : isNumeral c = true := by
  cases magnitude with
  | infinite =>
      have all : ['i', 'n', 'f'].all isNumeral = true := by decide
      exact List.all_eq_true.mp all c member
  | notANumber =>
      have all : ['N', 'a', 'N'].all isNumeral = true := by decide
      exact List.all_eq_true.mp all c member
  | finite significand exponent =>
      rcases Nat.eq_zero_or_pos significand with rfl | positive
      · have all : ['0', '.', '0'].all isNumeral = true := by decide
        exact List.all_eq_true.mp all c member
      · rw [magnitudeChars_of_pos positive] at member
        exact isNumeral_of_mem_scaledChars member

theorem isNumeral_of_mem_text {number : Number} (member : c ∈ number.text.toList) :
    isNumeral c = true := by
  cases number with
  | whole value => exact isNumeral_of_mem_decimalNumber (text_whole_mem value) member
  | double x =>
      rw [text, Decimal.Layout.text, String.toList_ofList] at member
      split at member
      · rcases List.mem_cons.mp member with rfl | later
        · decide
        · exact isNumeral_of_mem_magnitudeChars later
      · exact isNumeral_of_mem_magnitudeChars member

/-- A number stands between quotes as it is written. -/
theorem quote_text (number : Number) : TypeScript.quote number.text = "'" ++ number.text ++ "'" :=
  TypeScript.quote_of_plain fun _ member => escapeChar_of_isNumeral (isNumeral_of_mem_text member)

end Quoted

end Number
end Json
end SchemaCompiler
