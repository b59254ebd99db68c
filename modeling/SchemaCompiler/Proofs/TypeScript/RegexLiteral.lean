import Mathlib.Algebra.Ring.Parity
import Mathlib.Data.List.DropRight
import Mathlib.Data.List.Infix
import SchemaCompiler.TypeScript.Literal

/-
Where a regular expression literal ends.

A slash is escaped when an odd number of backslashes comes right before it.  The writer
keeps the parity of that number as one bit while it puts in backslashes of its own.  What it
has written so far and what it has read so far need not end in as many backslashes, but the
parities stay the same, and all else follows from that.
-/

namespace SchemaCompiler
namespace TypeScript

/-- The number of backslashes that a text ends in. -/
def backslashesAtEnd (text : List Char) : Nat :=
  (text.rtakeWhile (· == '\\')).length

/-- A character of a pattern after those in `before`, with a backslash if it is a slash that
an even number of backslashes precedes. -/
def slashEscaped (before : List Char) (c : Char) : List Char :=
  if c = '/' ∧ Even (backslashesAtEnd before) then ['\\', c] else [c]

/-- A pattern with a backslash before each slash that an even number of backslashes
precedes. -/
def regexBody (pattern : List Char) : List Char :=
  (List.zipWith slashEscaped pattern.inits pattern).flatten

/-- The first slash of a text that an even number of backslashes precedes, with what comes
before it and after it. -/
structure FirstBareSlash (text before after : List Char) : Prop where
  split : text = before ++ '/' :: after
  bare : ¬Odd (backslashesAtEnd before)
  first (earlier later : List Char) : before = earlier ++ '/' :: later →
    Odd (backslashesAtEnd earlier)

/-- How the literal of a pattern is delimited. -/
structure DelimitsRegex (pattern : String) : Prop where
  body : regex pattern = "/" ++ String.ofList (regexBody pattern.toList) ++ "/"
  escaped (before after : List Char) : regexBody pattern.toList = before ++ '/' :: after →
    Odd (backslashesAtEnd before)
  stable : regex (String.ofList (regexBody pattern.toList)) = regex pattern
  closes_iff : (∃ before, FirstBareSlash (regex pattern).toList.tail before []) ↔
    ¬Odd (backslashesAtEnd pattern.toList)

section Parity

variable {text : List Char} {c : Char}

theorem odd_backslashesAtEnd_append_singleton :
    Odd (backslashesAtEnd (text ++ [c])) ↔ c = '\\' ∧ ¬Odd (backslashesAtEnd text) := by
  unfold backslashesAtEnd
  by_cases backslash : c = '\\'
  · rw [List.rtakeWhile_concat, if_pos (beq_iff_eq.mpr backslash), List.length_append,
      List.length_singleton, Nat.odd_add_one, and_iff_right backslash]
  · rw [List.rtakeWhile_concat, if_neg (mt beq_iff_eq.mp backslash)]
    simp [backslash]

/-- The bit that the writer keeps is the parity of the backslashes just read. -/
theorem tracks_next {escaped : Bool} (tracks : escaped = true ↔ Odd (backslashesAtEnd text)) :
    (c == '\\' && !escaped) = true ↔ Odd (backslashesAtEnd (text ++ [c])) := by
  rw [odd_backslashesAtEnd_append_singleton, ← tracks]
  simp

/-- After a slash the bit is unset, whatever came before it. -/
theorem tracks_slash {escaped : Bool} (slash : c = '/') :
    (c == '\\' && !escaped) = true ↔ Odd (backslashesAtEnd (text ++ [c])) := by
  rw [odd_backslashesAtEnd_append_singleton, slash]
  simp

end Parity

section Slashes

/-- Every slash of a text after `before` is preceded by an odd number of backslashes. -/
def SlashesEscaped (before : List Char) : List Char → Prop
  | [] => True
  | c :: rest => (c = '/' → Odd (backslashesAtEnd before)) ∧ SlashesEscaped (before ++ [c]) rest

theorem slashesEscaped_iff {before text : List Char} : SlashesEscaped before text ↔
    ∀ earlier later, text = earlier ++ '/' :: later →
      Odd (backslashesAtEnd (before ++ earlier)) := by
  induction text generalizing before with
  | nil => simp [SlashesEscaped]
  | cons c rest ih =>
      rw [SlashesEscaped, ih]
      constructor
      · intro each earlier later split
        cases earlier with
        | nil =>
            rw [List.append_nil]
            exact each.1 (List.cons.inj split).1
        | cons first earlier =>
            rw [List.cons_append] at split
            obtain ⟨rfl, tail⟩ := List.cons.inj split
            rw [List.append_cons]
            exact each.2 earlier later tail
      · intro each
        constructor
        · rintro rfl
          have here := each [] rest rfl
          rwa [List.append_nil] at here
        · intro earlier later split
          have there := each (c :: earlier) later (by rw [split]; rfl)
          rwa [List.append_cons] at there

end Slashes

section Writer

variable {escaped : Bool} {before done text : List Char}

/-- The writer puts in the backslashes that the parity before each slash asks for. -/
theorem escapeSlashes_eq (tracks : escaped = true ↔ Odd (backslashesAtEnd before)) :
    escapeSlashes escaped text =
      (List.zipWith slashEscaped (text.inits.map (before ++ ·)) text).flatten := by
  induction text generalizing before escaped with
  | nil => rfl
  | cons c rest ih =>
      have later := ih (tracks_next (c := c) tracks)
      have moved : (rest.inits.map (c :: ·)).map (before ++ ·) =
          rest.inits.map (before ++ [c] ++ ·) := by
        rw [List.map_map]
        exact List.map_congr_left fun _ _ => List.append_cons _ _ _
      have asked : (c == '/' && !escaped) = true ↔ c = '/' ∧ Even (backslashesAtEnd before) := by
        rw [← Nat.not_odd_iff_even, ← tracks]
        simp
      rw [List.inits_cons, List.map_cons, moved, List.zipWith_cons_cons, List.flatten_cons,
        List.append_nil, ← later, escapeSlashes, slashEscaped]
      by_cases bare : c = '/' ∧ Even (backslashesAtEnd before)
      · rw [if_pos bare, if_pos (asked.mpr bare)]
        rfl
      · rw [if_neg bare, if_neg (mt asked.mp bare)]
        rfl

/-- Every slash that is written is escaped, counted in what is written. -/
theorem slashesEscaped_escapeSlashes (tracks : escaped = true ↔ Odd (backslashesAtEnd done)) :
    SlashesEscaped done (escapeSlashes escaped text) := by
  induction text generalizing done escaped with
  | nil => trivial
  | cons c rest ih =>
      rw [escapeSlashes]
      by_cases bare : (c == '/' && !escaped) = true
      · rw [if_pos bare]
        rw [Bool.and_eq_true, beq_iff_eq, Bool.not_eq_true'] at bare
        have odd : Odd (backslashesAtEnd (done ++ ['\\'])) := by
          rw [odd_backslashesAtEnd_append_singleton, ← tracks, bare.2]
          exact ⟨rfl, Bool.false_ne_true⟩
        refine ⟨fun slash => ?_, fun _ => odd, ih (tracks_slash bare.1)⟩
        exact absurd slash (by decide)
      · rw [if_neg bare]
        refine ⟨fun slash => ?_, ih (tracks_next tracks)⟩
        rw [← tracks]
        simpa [slash] using bare

/-- What is written ends in an odd number of backslashes exactly if what is read does. -/
theorem odd_backslashesAtEnd_escapeSlashes
    (tracksRead : escaped = true ↔ Odd (backslashesAtEnd before))
    (tracksWritten : escaped = true ↔ Odd (backslashesAtEnd done)) :
    Odd (backslashesAtEnd (done ++ escapeSlashes escaped text)) ↔
      Odd (backslashesAtEnd (before ++ text)) := by
  induction text generalizing before done escaped with
  | nil => rw [escapeSlashes, List.append_nil, List.append_nil, ← tracksRead, ← tracksWritten]
  | cons c rest ih =>
      have read := tracks_next (c := c) tracksRead
      rw [escapeSlashes, List.append_cons before]
      by_cases bare : (c == '/' && !escaped) = true
      · have slash : c = '/' := by
          rw [Bool.and_eq_true, beq_iff_eq] at bare
          exact bare.1
        -- The backslash put in is not read, but the slash after it ends both runs.
        rw [if_pos bare, List.append_cons, List.append_cons]
        exact ih read (tracks_slash slash)
      · rw [if_neg bare, List.append_cons]
        exact ih read (tracks_next tracksWritten)

/-- A text whose slashes are escaped is written as it is. -/
theorem escapeSlashes_of_slashesEscaped
    (tracks : escaped = true ↔ Odd (backslashesAtEnd before))
    (each : SlashesEscaped before text) : escapeSlashes escaped text = text := by
  induction text generalizing before escaped with
  | nil => rfl
  | cons c rest ih =>
      have notBare : ¬(c == '/' && !escaped) = true := by
        intro bare
        rw [Bool.and_eq_true, beq_iff_eq, Bool.not_eq_true'] at bare
        have odd := tracks.mpr (each.1 bare.1)
        rw [bare.2] at odd
        cases odd
      rw [escapeSlashes, if_neg notBare, ih (tracks_next tracks) each.2]

end Writer

/-- Before the first character no backslash has been read. -/
theorem tracks_start : false = true ↔ Odd (backslashesAtEnd []) := by
  decide

theorem escapeSlashes_eq_regexBody (pattern : List Char) :
    escapeSlashes false pattern = regexBody pattern := by
  have same : pattern.inits.map ([] ++ ·) = pattern.inits := List.map_id _
  rw [escapeSlashes_eq tracks_start, same, regexBody]

theorem slashesEscaped_regexBody (pattern : List Char) :
    SlashesEscaped [] (regexBody pattern) := by
  rw [← escapeSlashes_eq_regexBody]
  exact slashesEscaped_escapeSlashes tracks_start

theorem odd_backslashesAtEnd_regexBody (pattern : List Char) :
    Odd (backslashesAtEnd (regexBody pattern)) ↔ Odd (backslashesAtEnd pattern) := by
  rw [← escapeSlashes_eq_regexBody]
  exact odd_backslashesAtEnd_escapeSlashes tracks_start tracks_start

theorem toList_regex (pattern : String) :
    (regex pattern).toList = '/' :: regexBody pattern.toList ++ ['/'] := by
  rw [regex, String.toList_ofList, escapeSlashes_eq_regexBody]

theorem regex_delimited (pattern : String) : DelimitsRegex pattern where
  body := by
    apply String.toList_injective
    rw [toList_regex]
    simp only [String.toList_append, String.toList_ofList]
    rfl
  escaped before after split :=
    slashesEscaped_iff.mp (slashesEscaped_regexBody pattern.toList) before after split
  stable := by
    have written := escapeSlashes_of_slashesEscaped tracks_start
      (slashesEscaped_regexBody pattern.toList)
    rw [regex, regex, String.toList_ofList, written, escapeSlashes_eq_regexBody]
  closes_iff := by
    rw [toList_regex, List.cons_append, List.tail_cons, ← odd_backslashesAtEnd_regexBody]
    constructor
    · intro closes
      obtain ⟨before, split, bare, _⟩ := closes
      obtain ⟨rfl, _⟩ := List.append_inj' split rfl
      exact bare
    · intro bare
      refine ⟨regexBody pattern.toList, rfl, bare, ?_⟩
      exact slashesEscaped_iff.mp (slashesEscaped_regexBody pattern.toList)

example : regex "a/b\\/c\\\\/d" = "/a\\/b\\/c\\\\\\/d/" := by decide

end TypeScript
end SchemaCompiler
