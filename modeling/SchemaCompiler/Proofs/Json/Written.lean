import SchemaCompiler.Json.Quoted
import SchemaCompiler.Json.Tree
import SchemaCompiler.Proofs.Json.Literal
import SchemaCompiler.Text.Joined

/-
JSON as it is written, and read back.

What a piece of text is read as depends on what comes before it: inside a string it is
content, and after a digit it goes on with the number.  Pieces that end where a token ends
can be put together, and their tokens with them.  A quoted string is such a piece, and so
are the digits of a number together with the space after them.
-/

namespace SchemaCompiler

namespace Json

/-- A text that is read as whole tokens wherever it stands between tokens. -/
def Spells (written : String) (tokens : List Token) : Prop :=
  ∀ done rest, tokensFrom? .between done (written.toList ++ rest) =
    tokensFrom? .between (tokens.reverse ++ done) rest

/-- Tokens that are read as a tree wherever a value may stand. -/
def Builds (tokens : List Token) (tree : Tree) : Prop :=
  ∀ frames, tokens.foldlM Reading.step? ⟨frames, .value⟩ = some ⟨frames, .after tree⟩

theorem read?_of_spells {written : String} {tokens : List Token} {tree : Tree}
    (spells : Spells written tokens) (builds : Builds tokens tree) :
    Tree.read? written = some tree := by
  have cut : tokens? written = some tokens := by
    have whole := spells [] []
    rw [List.append_nil, List.append_nil] at whole
    rw [tokens?, whole, tokensFrom?]
    simp [endTokens?]
  rw [Tree.read?, cut]
  dsimp only
  rw [Reading.start, builds []]
  rfl

theorem Spells.append {first second : String} {tokens others : List Token}
    (spellsFirst : Spells first tokens) (spellsSecond : Spells second others) :
    Spells (first ++ second) (tokens ++ others) := by
  intro done rest
  rw [String.toList_append, List.append_assoc, spellsFirst, spellsSecond, List.reverse_append,
    List.append_assoc]

/-- Tokens with a comma between neighbours. -/
def commaSeparated : List (List Token) → List Token
  | [] => []
  | first :: others => first ++ others.flatMap fun tokens => .mark .comma :: tokens

section Lists

variable {α : Type} {items : List α}

theorem spells_separated {separator : String} (comma : Spells separator [.mark .comma])
    (written : α → String) (tokens : α → List Token)
    (each : ∀ item ∈ items, Spells (written item) (tokens item)) :
    Spells (Text.separated separator (items.map written))
      (commaSeparated (items.map tokens)) := by
  induction items with
  | nil =>
      intro done rest
      rfl
  | cons item others ih =>
      obtain ⟨first, later⟩ := List.forall_mem_cons.mp each
      cases others with
      | nil =>
          rw [List.map_singleton, List.map_singleton, commaSeparated, List.flatMap_nil,
            List.append_nil]
          exact first
      | cons next others =>
          have whole := (first.append comma).append (ih later)
          rw [List.append_assoc] at whole
          exact whole

/-- The first item of an array is read as any later one. -/
theorem foldlM_firstItem {tokens : List Token} {tree : Tree} (builds : Builds tokens tree)
    (done : List Tree) (frames : List Frame) :
    tokens.foldlM Reading.step? ⟨.items done :: frames, .firstItem⟩ =
      some ⟨.items done :: frames, .after tree⟩ := by
  rw [← builds]
  cases tokens with
  | nil => cases builds []
  | cons token rest =>
      cases token with
      | scalar scalar => rfl
      | mark mark =>
          cases mark with
          | closeArray => cases builds []
          | _ => rfl

theorem foldlM_items (tokens : α → List Token) (tree : α → Tree)
    (each : ∀ item ∈ items, Builds (tokens item) (tree item)) (last : Tree) (done : List Tree)
    (frames : List Frame) :
    (items.flatMap (fun item => Token.mark .comma :: tokens item) ++
        [Token.mark .closeArray]).foldlM Reading.step? ⟨.items done :: frames, .after last⟩ =
      some ⟨frames, .after (.array (done.reverse ++ last :: items.map tree))⟩ := by
  induction items generalizing last done with
  | nil =>
      show some (Reading.mk frames (.after (.array (last :: done).reverse))) = _
      rw [List.reverse_cons]
      rfl
  | cons item others ih =>
      obtain ⟨first, later⟩ := List.forall_mem_cons.mp each
      rw [List.flatMap_cons, List.append_assoc, List.cons_append, List.foldlM_cons]
      show (tokens item ++ _).foldlM Reading.step? ⟨.items (last :: done) :: frames, .value⟩ = _
      rw [List.foldlM_append, first]
      show List.foldlM Reading.step? _ _ = _
      rw [ih later, List.reverse_cons, List.append_assoc]
      rfl

theorem builds_array (tokens : α → List Token) (tree : α → Tree)
    (each : ∀ item ∈ items, Builds (tokens item) (tree item)) :
    Builds (.mark .openArray :: commaSeparated (items.map tokens) ++ [.mark .closeArray])
      (.array (items.map tree)) := by
  intro frames
  cases items with
  | nil => rfl
  | cons item others =>
      obtain ⟨first, later⟩ := List.forall_mem_cons.mp each
      rw [List.map_cons, commaSeparated, List.flatMap_map, List.cons_append,
        List.append_assoc, List.foldlM_cons]
      show (tokens item ++ _).foldlM Reading.step? ⟨.items [] :: frames, .firstItem⟩ = _
      rw [List.foldlM_append, foldlM_firstItem first]
      exact foldlM_items tokens tree later (tree item) [] frames

end Lists

/-! ### Strings -/

theorem hexDigit?_hexDigit (n : Nat) : hexDigit? (hexDigit n) = some (n % 16) := by
  have all : ∀ d < 16, hexDigit? (Nat.digitChar d) = some d := by decide
  exact all _ (Nat.mod_lt n (by decide))

theorem tokensFrom?_hexDigit (body : Quoted) (count unit n : Nat) (done : List Token)
    (rest : List Char) :
    tokensFrom? (.unit body count unit) done (hexDigit n :: rest) =
      if count = 3 then tokensFrom? (.text (body.pushUnit (16 * unit + n % 16))) done rest
      else tokensFrom? (.unit body (count + 1) (16 * unit + n % 16)) done rest := by
  rw [tokensFrom?, stepToken, hexDigit?_hexDigit]
  by_cases last : count = 3
  · rw [if_pos last]
    simp [last]
  · rw [if_neg last]
    simp [last]

theorem pushUnit_of_control (body : Quoted) {c : Char} (control : c.toNat < 0x20) :
    body.pushUnit (16 * (c.toNat / 16 % 16) + c.toNat % 16) = body.push c := by
  have unit : 16 * (c.toNat / 16 % 16) + c.toNat % 16 = c.toNat := by omega
  rw [unit, Quoted.pushUnit, if_neg (by omega), if_neg (by omega), Char.ofNat_toNat]

/-- Inside a string, an escaped character is read as itself. -/
theorem tokensFrom?_escapeChar (body : Quoted) (c : Char) (done : List Token)
    (rest : List Char) :
    tokensFrom? (.text body) done (escapeChar c ++ rest) =
      tokensFrom? (.text (body.push c)) done rest := by
  unfold escapeChar
  split_ifs with quote backslash backspace feed newline return_ tab control
  · rw [quote]
    rfl
  · rw [backslash]
    rfl
  · rw [backspace]
    rfl
  · rw [feed]
    rfl
  · rw [newline]
    rfl
  · rw [return_]
    rfl
  · rw [tab]
    rfl
  · show tokensFrom? (.unit body 2 0) done
      (hexDigit (c.toNat / 16) :: hexDigit c.toNat :: rest) = _
    rw [tokensFrom?_hexDigit, if_neg (by decide), tokensFrom?_hexDigit, if_pos rfl,
      Nat.mul_zero, Nat.zero_add, pushUnit_of_control body control]
  · simp only [List.cons_append, List.nil_append, tokensFrom?, stepToken, if_neg quote,
      if_neg backslash, if_neg control]
    rfl

theorem tokensFrom?_escaped (content : List Char) (reversed : List Char) (done : List Token)
    (rest : List Char) :
    tokensFrom? (.text ⟨reversed, none, true⟩) done
        (content.flatMap escapeChar ++ '"' :: rest) =
      tokensFrom? .between
        (.scalar (.text (some (String.ofList (reversed.reverse ++ content)))) :: done) rest := by
  induction content generalizing reversed with
  | nil =>
      rw [List.append_nil]
      rfl
  | cons c content ih =>
      have next : Quoted.push ⟨reversed, none, true⟩ c = ⟨c :: reversed, none, true⟩ := rfl
      rw [List.flatMap_cons, List.append_assoc, tokensFrom?_escapeChar, next, ih,
        List.reverse_cons, List.append_assoc]
      rfl

theorem spells_quote (content : String) :
    Spells (quote content) [.scalar (.text (some content))] := by
  intro done rest
  rw [quote, String.toList_ofList, List.cons_append, List.cons_append, List.append_assoc]
  show tokensFrom? (.text ⟨[], none, true⟩) done (_ ++ '"' :: rest) = _
  rw [tokensFrom?_escaped, List.reverse_nil, List.nil_append,
    String.ofList_toList]
  rfl

/-! ### Numbers -/

/-- The literal of a number without sign, fraction and exponent. -/
def NumberLiteral.ofNat (n : Nat) : NumberLiteral :=
  ⟨false, Decimal.digits n, [], none⟩

theorem ne_of_isDigit {c other : Char} (digit : c.isDigit = true)
    (noDigit : other.isDigit = false) : c ≠ other := by
  intro same
  rw [same, noDigit] at digit
  cases digit

theorem read?_digits (n : Nat) :
    NumberLiteral.read? (Decimal.digits n) = some (.ofNat n) := by
  have wellFormed : (NumberLiteral.ofNat n).WellFormed :=
    ⟨isWholePart_digits n, fun c member => Decimal.isDigit_of_mem_digits member, nofun, nofun⟩
  have chars : (NumberLiteral.ofNat n).chars = Decimal.digits n := List.append_nil _
  rw [← chars]
  exact NumberLiteral.read?_signed wellFormed

theorem wordScalar?_digits (n : Nat) :
    wordScalar? (Decimal.digits n) = some (.number (.ofNat n)) := by
  have noLetter (c : Char) (rest : List Char) (noDigit : c.isDigit = false) :
      Decimal.digits n ≠ c :: rest := by
    intro same
    have digit := Decimal.isDigit_of_mem_digits (same ▸ List.mem_cons_self)
    exact ne_of_isDigit digit noDigit rfl
  rw [wordScalar?, if_neg (noLetter 'n' _ rfl), if_neg (noLetter 't' _ rfl),
    if_neg (noLetter 'f' _ rfl), read?_digits]
  rfl

theorem markOf?_of_isDigit {c : Char} (digit : c.isDigit = true) : markOf? c = none := by
  unfold markOf?
  split
  case h_7 => rfl
  all_goals cases digit

theorem isSpace_of_isDigit {c : Char} (digit : c.isDigit = true) : isSpace c = false := by
  simp [isSpace, ne_of_isDigit digit]

/-- A word of digits ends with the space after it. -/
theorem tokensFrom?_word {word : List Char} (allDigits : ∀ c ∈ word, c.isDigit = true)
    {scalar : Scalar} (reversed : List Char)
    (read : wordScalar? (reversed.reverse ++ word) = some scalar) (done : List Token)
    (rest : List Char) :
    tokensFrom? (.word reversed) done (word ++ '\n' :: rest) =
      tokensFrom? .between (.scalar scalar :: done) rest := by
  induction word generalizing reversed with
  | nil =>
      rw [List.append_nil] at read
      rw [List.nil_append, tokensFrom?, stepToken, read]
      rfl
  | cons c word ih =>
      obtain ⟨digit, later⟩ := List.forall_mem_cons.mp allDigits
      have noQuote : (c == '"') = false := beq_eq_false_iff_ne.mpr (ne_of_isDigit digit rfl)
      rw [List.cons_append, tokensFrom?, stepToken, isSpace_of_isDigit digit, noQuote,
        markOf?_of_isDigit digit, Bool.or_self, Option.isSome_none, Bool.or_self,
        if_neg Bool.false_ne_true]
      apply ih later (c :: reversed)
      rw [List.reverse_cons, List.append_assoc]
      exact read

theorem spells_natText (n : Nat) :
    Spells (Decimal.natText n ++ "\n") [.scalar (.number (.ofNat n))] := by
  intro done rest
  have newline : "\n".toList = ['\n'] := rfl
  have read := wordScalar?_digits n
  have allDigits : ∀ c ∈ Decimal.digits n, c.isDigit = true :=
    fun c member => Decimal.isDigit_of_mem_digits member
  rw [String.toList_append, Decimal.natText, String.toList_ofList, newline, List.append_assoc]
  cases written : Decimal.digits n with
  | nil => exact absurd written (Decimal.digits_ne_nil n)
  | cons c word =>
      rw [written] at read allDigits
      obtain ⟨digit, later⟩ := List.forall_mem_cons.mp allDigits
      rw [List.cons_append, tokensFrom?, stepToken, stepBetween, isSpace_of_isDigit digit,
        if_neg Bool.false_ne_true, if_neg (ne_of_isDigit digit rfl), markOf?_of_isDigit digit]
      exact tokensFrom?_word later [c] read done rest

end Json
end SchemaCompiler
