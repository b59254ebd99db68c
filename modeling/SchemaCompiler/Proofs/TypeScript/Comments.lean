import Mathlib.Data.List.Infix
import SchemaCompiler.Text.Blank
import SchemaCompiler.TypeScript.Module

/-
Comments as they are read.

A comment of the one kind is closed by the first closing mark after its opening mark, and a
comment of the other kind ends with its line, where more characters end a line than a line
feed.  The texts of both are written as they are.  So a documentation holds its text unless
a closing mark occurs in it, and a banner holds its text unless something ends a line inside
one of its lines.
-/

namespace SchemaCompiler
namespace TypeScript

/-! ### Comments with a closing mark -/

/-- The mark that closes a comment. -/
def closingMark : List Char := ['*', '/']

/-- What follows a comment, from what follows its opening mark. -/
def afterComment? : List Char → Option (List Char)
  | '*' :: '/' :: rest => some rest
  | _ :: rest => afterComment? rest
  | [] => none

theorem afterComment?_cons {c : Char} {rest : List Char} (open_ : ¬closingMark <+: c :: rest) :
    afterComment? (c :: rest) = afterComment? rest := by
  rw [afterComment?]
  rintro others rfl rfl
  exact open_ (List.prefix_append closingMark others)

/-- A comment ends with its last two characters exactly when no closing mark occurs before
these. -/
theorem afterComment?_eq_iff (content after : List Char) :
    afterComment? (content ++ closingMark ++ after) = some after ↔
      ¬closingMark <:+: content ++ ['*'] := by
  induction content with
  | nil =>
      have short : ¬closingMark <:+: ['*'] := by decide
      exact iff_of_true rfl short
  | cons c content ih =>
      -- Whether the comment is closed here, which a star before the last two characters can do.
      by_cases closed : closingMark <+: c :: (content ++ ['*'])
      · obtain ⟨rfl, later⟩ := List.cons_prefix_cons.mp closed
        refine iff_of_false ?_ (not_not_intro closed.isInfix)
        cases content with
        | nil => exact absurd later (by decide)
        | cons d content =>
            obtain ⟨rfl, _⟩ := List.cons_prefix_cons.mp later
            intro same
            have shorter : content ++ closingMark ++ after = after := Option.some.inj same
            have length := congrArg List.length shorter
            rw [List.length_append, List.length_append] at length
            have two : closingMark.length = 2 := rfl
            omega
      · rw [List.cons_append, List.cons_append, List.cons_append, List.infix_cons_iff,
          not_or, and_iff_right closed, ← ih, afterComment?_cons]
        intro early
        apply closed
        refine List.prefix_of_prefix_length_le early ⟨'/' :: after, ?_⟩ ?_
        · simp [closingMark]
        · simp [closingMark]

/-- Where a mark has no blank characters, those at the ends of a text do not matter to it. -/
theorem infix_dropWhile_iff {mark : List Char} {c : Char} (visible : Text.isBlank c = false)
    (content : List Char) :
    c :: mark <:+: content.dropWhile Text.isBlank ↔ c :: mark <:+: content := by
  induction content with
  | nil => rfl
  | cons first rest ih =>
      by_cases blank : Text.isBlank first = true
      · have apart : ¬c :: mark <+: first :: rest := by
          intro begins
          rw [(List.cons_prefix_cons.mp begins).1, blank] at visible
          cases visible
        rw [List.dropWhile_cons_of_pos blank, ih, List.infix_cons_iff, or_iff_right apart]
      · rw [List.dropWhile_cons_of_neg blank]

theorem closingMark_infix_trim_iff (s : String) :
    closingMark <:+: (Text.trim s).toList ↔ closingMark <:+: s.toList := by
  have star : Text.isBlank '*' = false := by decide
  have slash : Text.isBlank '/' = false := by decide
  rw [Text.trim, String.toList_ofList, Text.trimChars, Text.trimEndChars, ← List.reverse_infix,
    List.reverse_reverse]
  calc closingMark.reverse <:+:
        (List.dropWhile Text.isBlank s.toList).reverse.dropWhile Text.isBlank
      ↔ closingMark.reverse <:+: (List.dropWhile Text.isBlank s.toList).reverse :=
        infix_dropWhile_iff slash _
    _ ↔ closingMark <:+: List.dropWhile Text.isBlank s.toList := List.reverse_infix
    _ ↔ closingMark <:+: s.toList := infix_dropWhile_iff star _

/-- What a documentation comment holds after its opening mark, up to its closing mark. -/
def commented (text : String) : List Char :=
  ('*' :: ' ' :: text.toList) ++ [' ']

theorem toList_documentationComment (text : String) :
    (Statement.documentationComment text).toList =
      '/' :: '*' :: commented text ++ closingMark ++ ['\n'] := by
  simp [Statement.documentationComment, commented, closingMark]

/-- A documentation comment is closed by its own mark exactly when no other one is in the
text. -/
theorem afterComment?_commented_iff (text : String) (after : List Char) :
    afterComment? (commented text ++ closingMark ++ after) = some after ↔
      ¬closingMark <:+: text.toList := by
  have notLast {content : List Char} {c : Char} (other : c ≠ '/') :
      ¬closingMark <:+ content ++ [c] := by
    intro ends
    have last := ends.getLast (List.cons_ne_nil _ _)
    rw [List.getLast_concat] at last
    exact other last.symm
  have apart : ¬closingMark <+: '*' :: ' ' :: text.toList := by
    intro begins
    cases (List.cons_prefix_cons.mp (List.cons_prefix_cons.mp begins).2).1
  have blank : ¬closingMark <+: ' ' :: text.toList := by
    intro begins
    cases (List.cons_prefix_cons.mp begins).1
  rw [afterComment?_eq_iff, commented, List.infix_concat_iff, or_iff_right (notLast (by decide)),
    List.infix_concat_iff, or_iff_right (notLast (by decide)), List.infix_cons_iff,
    or_iff_right apart, List.infix_cons_iff, or_iff_right blank]

/-! ### Comments that end with their line -/

/-- The mark that opens a comment up to the end of the line. -/
def lineMark : List Char := ['/', '/']

/-- Whether a character ends a line. -/
def endsLine (c : Char) : Bool :=
  c == '\n' || c == '\r' || c == '\u2028' || c == '\u2029'

/-- Whether the end of a line goes on with the next character. -/
def endsWithNext (c : Char) (rest : List Char) : Bool :=
  c == '\r' && rest.head? == some '\n'

/-- Adds a character in front of the first line. -/
def ontoFirst (c : Char) : List (List Char) → List (List Char)
  | [] => [[c]]
  | line :: others => (c :: line) :: others

/-- The lines of a text without their endings, where a carriage return and a line feed after
it are one ending. -/
def sourceLines : List Char → List (List Char)
  | [] => []
  | c :: rest =>
      if endsLine c then
        if endsWithNext c rest then sourceLines rest else [] :: sourceLines rest
      else ontoFirst c (sourceLines rest)

/-- Whether what follows the end of a line starts a comment again, wherever a line ends
within some text.  A carriage return may also come last. -/
def StaysComment (line : List Char) : Prop :=
  ∀ before c after, line = before ++ c :: after → endsLine c = true →
    lineMark <+: after ∨ c = '\r' ∧ after = []

theorem staysComment_cons_iff {c : Char} {rest : List Char} : StaysComment (c :: rest) ↔
    (endsLine c = true → lineMark <+: rest ∨ c = '\r' ∧ rest = []) ∧ StaysComment rest := by
  constructor
  · intro stays
    constructor
    · exact stays [] c rest rfl
    · intro before d after split
      exact stays (c :: before) d after (congrArg (c :: ·) split)
  · rintro ⟨here, later⟩ before d after split
    cases before with
    | nil =>
        cases split
        exact here
    | cons first before =>
        cases split
        exact later before d after rfl

section Lines

theorem sourceLines_ne_nil (cs rest : List Char) : sourceLines (cs ++ '\n' :: rest) ≠ [] := by
  induction cs with
  | nil => exact List.cons_ne_nil _ _
  | cons c cs ih =>
      rw [List.cons_append, sourceLines]
      split_ifs
      · exact ih
      · exact List.cons_ne_nil _ _
      · cases sourceLines (cs ++ '\n' :: rest) <;> exact List.cons_ne_nil _ _

theorem ontoFirst_append (c : Char) {lines : List (List Char)} (some : lines ≠ [])
    (others : List (List Char)) : ontoFirst c (lines ++ others) = ontoFirst c lines ++ others := by
  cases lines with
  | nil => exact absurd rfl some
  | cons line rest => rfl

/-- A line feed ends a line whatever comes after it. -/
theorem sourceLines_append (cs rest : List Char) :
    sourceLines (cs ++ '\n' :: rest) = sourceLines (cs ++ ['\n']) ++ sourceLines rest := by
  induction cs with
  | nil => rfl
  | cons c cs ih =>
      have next : endsWithNext c (cs ++ '\n' :: rest) = endsWithNext c (cs ++ ['\n']) := by
        cases cs <;> rfl
      rw [List.cons_append, List.cons_append, sourceLines, sourceLines, next, ih,
        ontoFirst_append c (sourceLines_ne_nil cs [])]
      split_ifs <;> rfl

theorem lineMark_prefix_takeWhile_iff {line : List Char} :
    lineMark <+: line.takeWhile (fun c => !endsLine c) ↔ lineMark <+: line := by
  constructor
  · exact fun begins => begins.trans (List.takeWhile_prefix _)
  · rintro ⟨rest, rfl⟩
    exact ⟨rest.takeWhile fun c => !endsLine c, rfl⟩

/-- A line of the banner is cut where a line ends within it, and the lines after the first
cut are comments exactly when they start as such. -/
theorem exists_sourceLines {line : List Char} (whole : '\n' ∉ line) :
    ∃ others, sourceLines (line ++ ['\n']) = line.takeWhile (fun c => !endsLine c) :: others ∧
      ((∀ other ∈ others, lineMark <+: other) ↔ StaysComment line) := by
  induction line with
  | nil =>
      refine ⟨[], rfl, iff_of_true nofun ?_⟩
      intro before c after split
      cases before <;> cases split
  | cons c line ih =>
      have later : '\n' ∉ line := fun member => whole (List.mem_cons_of_mem c member)
      obtain ⟨others, cut, marked⟩ := ih later
      rw [List.cons_append, sourceLines, cut, staysComment_cons_iff]
      by_cases ends : endsLine c = true
      · rw [if_pos ends, List.takeWhile_cons_of_neg (by simp [ends])]
        -- A carriage return at the very end is one ending together with the line feed after it.
        by_cases last : c = '\r' ∧ line = []
        · obtain ⟨rfl, rfl⟩ := last
          refine ⟨others, rfl, ?_⟩
          rw [marked, and_iff_right fun _ => .inr ⟨rfl, rfl⟩]
        · have apart : endsWithNext c (line ++ ['\n']) = false := by
            cases line with
            | nil => simpa [endsWithNext] using last
            | cons d line =>
                have other : d ≠ '\n' := fun same => later (same ▸ List.mem_cons_self)
                simp [endsWithNext, other]
          rw [apart, if_neg Bool.false_ne_true]
          refine ⟨_, rfl, ?_⟩
          rw [List.forall_mem_cons, lineMark_prefix_takeWhile_iff, marked, or_iff_left last,
            forall_prop_of_true ends]
      · rw [if_neg ends, List.takeWhile_cons_of_pos (by simpa using ends)]
        refine ⟨others, rfl, ?_⟩
        rw [marked, and_iff_right fun here => absurd here ends]

end Lines

/-! ### Banners -/

/-- The comment that a banner is written as. -/
def bannerComment (banner : String) : String :=
  Text.concat ((Text.lines banner).map Module.bannerLine)

theorem renderBanner_eq (banner : String) : Module.renderBanner banner =
    bannerComment banner ++ (if Text.lines banner = [] then "" else "\n") := by
  unfold Module.renderBanner bannerComment
  split
  · next none => rw [none]; rfl
  · next some => rw [if_neg some]

theorem newline_not_mem_linesFrom {reversed cs line : List Char} (whole : '\n' ∉ reversed)
    (member : line ∈ Text.linesFrom reversed cs) : '\n' ∉ line := by
  fun_induction Text.linesFrom reversed cs with
  | case1 reversed none => cases member
  | case2 reversed some =>
      rw [List.mem_singleton.mp member, List.mem_reverse]
      exact whole
  | case3 reversed rest ih =>
      rcases List.mem_cons.mp member with rfl | later
      · have shorter : Text.dropReturn reversed ⊆ reversed := by
          unfold Text.dropReturn
          split
          · exact List.subset_cons_self _ _
          · exact List.Subset.refl _
        rw [List.mem_reverse]
        exact fun inLine => whole (shorter inLine)
      · exact ih List.not_mem_nil later
  | case4 reversed c rest other ih =>
      refine ih ?_ member
      intro inLine
      rcases List.mem_cons.mp inLine with rfl | before
      · exact other rfl
      · exact whole before

theorem newline_not_mem_lines {banner line : String} (member : line ∈ Text.lines banner) :
    '\n' ∉ line.toList := by
  obtain ⟨chars, found, rfl⟩ := List.mem_map.mp member
  rw [String.toList_ofList]
  exact newline_not_mem_linesFrom List.not_mem_nil found

/-- What stands between the mark of a line of the banner and its end. -/
def bannerContent (line : String) : List Char :=
  if line.isEmpty then [] else ' ' :: line.toList

theorem toList_bannerLine (line : String) :
    (Module.bannerLine line).toList = lineMark ++ bannerContent line ++ ['\n'] := by
  unfold Module.bannerLine bannerContent
  split_ifs <;> simp [lineMark]

theorem staysComment_bannerContent_iff (line : String) :
    StaysComment (lineMark ++ bannerContent line) ↔ StaysComment line.toList := by
  have plain {c : Char} (inside : endsLine c = false) (rest : List Char) :
      StaysComment (c :: rest) ↔ StaysComment rest := by
    rw [staysComment_cons_iff, inside, and_iff_right nofun]
  have slash : endsLine '/' = false := by decide
  rw [lineMark, List.cons_append, List.cons_append, List.nil_append, plain slash, plain slash,
    bannerContent]
  split_ifs with empty
  · rw [String.isEmpty_iff.mp empty]
    rfl
  · exact plain (by decide) _

/-- A line of the banner is read as comments only exactly when it stays one. -/
theorem marked_bannerLine_iff {line : String} (whole : '\n' ∉ line.toList) :
    (∀ read ∈ sourceLines (Module.bannerLine line).toList, lineMark <+: read) ↔
      StaysComment line.toList := by
  have inside : '\n' ∉ lineMark ++ bannerContent line := by
    unfold bannerContent lineMark
    split_ifs <;> simp [whole]
  obtain ⟨others, cut, marked⟩ := exists_sourceLines inside
  rw [toList_bannerLine, cut, List.forall_mem_cons, marked, staysComment_bannerContent_iff,
    lineMark_prefix_takeWhile_iff, and_iff_right (List.prefix_append _ _)]

theorem sourceLines_bannerLine_append (line : String) (rest : List Char) :
    sourceLines ((Module.bannerLine line).toList ++ rest) =
      sourceLines (Module.bannerLine line).toList ++ sourceLines rest := by
  rw [toList_bannerLine, List.append_assoc]
  exact sourceLines_append _ rest

/-- The lines of a file are those of its banner, and then the others. -/
theorem sourceLines_bannerComment_append (banner : String) (rest : List Char) :
    sourceLines ((bannerComment banner).toList ++ rest) =
      sourceLines (bannerComment banner).toList ++ sourceLines rest := by
  unfold bannerComment
  induction Text.lines banner with
  | nil => rfl
  | cons line others ih =>
      rw [List.map_cons, Text.concat, String.toList_append, List.append_assoc,
        sourceLines_bannerLine_append, ih, sourceLines_bannerLine_append, List.append_assoc]

theorem marked_bannerLines_iff {lines : List String}
    (whole : ∀ line ∈ lines, '\n' ∉ line.toList) :
    (∀ read ∈ sourceLines (Text.concat (lines.map Module.bannerLine)).toList,
        lineMark <+: read) ↔
      ∀ line ∈ lines, StaysComment line.toList := by
  induction lines with
  | nil => exact iff_of_true nofun nofun
  | cons line others ih =>
      obtain ⟨here, later⟩ := List.forall_mem_cons.mp whole
      have rest := ih later
      rw [List.map_cons, Text.concat, String.toList_append, sourceLines_bannerLine_append,
        List.forall_mem_append, List.forall_mem_cons, marked_bannerLine_iff here, rest]

/-- Every line of the banner is read as a comment exactly when each line that it was made
from stays one. -/
theorem marked_bannerComment_iff (banner : String) :
    (∀ read ∈ sourceLines (bannerComment banner).toList, lineMark <+: read) ↔
      ∀ line ∈ Text.lines banner, StaysComment line.toList :=
  marked_bannerLines_iff fun _ member => newline_not_mem_lines member

end TypeScript
end SchemaCompiler
