import SchemaCompiler.TypeScript.Module

/-
Exports in the text of a file.

What a file exports is read off its statements.  Here it is found again in the
text: each exported name stands in an export declaration at the start of a line,
because everything that is written before a statement ends with a line feed.
-/

namespace SchemaCompiler
namespace TypeScript

/-- A text that is made of whole lines. -/
def WholeLines (text : String) : Prop :=
  text = "" ∨ ∃ line, text = line ++ "\n"

theorem WholeLines.append {left right : String} (leftWhole : WholeLines left)
    (rightWhole : WholeLines right) : WholeLines (left ++ right) := by
  rcases rightWhole with rfl | ⟨line, rfl⟩
  · rw [String.append_empty]
    exact leftWhole
  · exact .inr ⟨left ++ line, (String.append_assoc ..).symm⟩

theorem wholeLines_of_ending {text ending : String} (before : String)
    (ends : ending = before ++ "\n") : WholeLines (text ++ ending) := by
  rw [ends]
  exact .inr ⟨text ++ before, (String.append_assoc ..).symm⟩

theorem wholeLines_concat {pieces : List String} (whole : ∀ piece ∈ pieces, WholeLines piece) :
    WholeLines (Text.concat pieces) := by
  induction pieces with
  | nil => exact .inl rfl
  | cons piece rest ih =>
      have later := ih fun other member => whole other (List.mem_cons_of_mem piece member)
      exact (whole piece List.mem_cons_self).append later

/-- How the declaration of an exported name starts. -/
inductive Declares (name : String) : String → Prop
  | constant : Declares name ("export const " ++ name ++ " = ")
  | typedConstant : Declares name ("export const " ++ name ++ ": ")
  | typeAlias : Declares name ("export type " ++ name ++ " = ")
  | interface : Declares name ("export interface " ++ name ++ " ")
  | genericInterface : Declares name ("export interface " ++ name ++ "<")
  | listed {names : List String} (member : name ∈ names) :
      Declares name ("export type \x7b " ++ Text.separated ", " names ++ " \x7d;\n")

/-- A text in which the declaration of an exported name starts a line. -/
def ExportsIn (text name : String) : Prop :=
  ∃ before declaration after, text = before ++ declaration ++ after ∧ WholeLines before ∧
    Declares name declaration

theorem ExportsIn.after {text name : String} (exported : ExportsIn text name) {earlier : String}
    (whole : WholeLines earlier) : ExportsIn (earlier ++ text) name := by
  obtain ⟨before, declaration, after, rfl, wholeBefore, declares⟩ := exported
  refine ⟨earlier ++ before, declaration, after, ?_, whole.append wholeBefore, declares⟩
  simp only [String.append_assoc]

theorem ExportsIn.before {text name : String} (exported : ExportsIn text name)
    (later : String) : ExportsIn (text ++ later) name := by
  obtain ⟨before, declaration, after, rfl, wholeBefore, declares⟩ := exported
  refine ⟨before, declaration, after ++ later, ?_, wholeBefore, declares⟩
  simp only [String.append_assoc]

theorem exportsIn_concat {pieces : List String} {piece name : String}
    (whole : ∀ other ∈ pieces, WholeLines other) (member : piece ∈ pieces)
    (exported : ExportsIn piece name) : ExportsIn (Text.concat pieces) name := by
  induction pieces with
  | nil => cases member
  | cons first rest ih =>
      rcases List.mem_cons.mp member with rfl | inRest
      · exact exported.before _
      · have later := ih (fun other inside => whole other (List.mem_cons_of_mem first inside))
          inRest
        exact later.after (whole first List.mem_cons_self)

theorem exportsIn_separated {pieces : List String} {piece name : String}
    (whole : ∀ other ∈ pieces, WholeLines other) (member : piece ∈ pieces)
    (exported : ExportsIn piece name) : ExportsIn (Text.separated "\n" pieces) name := by
  induction pieces with
  | nil => cases member
  | cons first rest ih =>
      cases rest with
      | nil =>
          cases List.mem_singleton.mp member
          exact exported
      | cons second rest =>
          change ExportsIn (first ++ "\n" ++ Text.separated "\n" (second :: rest)) name
          rcases List.mem_cons.mp member with rfl | inRest
          · rw [String.append_assoc]
            exact exported.before _
          · have later := ih
              (fun other inside => whole other (List.mem_cons_of_mem first inside)) inRest
            exact later.after ((whole first List.mem_cons_self).append (.inr ⟨"", rfl⟩))

namespace Statement

theorem wholeLines_documentation (documentation : Option String) :
    WholeLines (documentation.elim "" documentationComment) := by
  cases documentation with
  | none => exact .inl rfl
  | some text => exact wholeLines_of_ending " */" rfl

theorem wholeLines_render (statement : Statement) : WholeLines statement.render := by
  cases statement with
  | constant => exact wholeLines_of_ending ";" rfl
  | typeAlias => exact wholeLines_of_ending ";" rfl
  | interface => exact wholeLines_of_ending "\x7d" rfl
  | types => exact wholeLines_of_ending " \x7d;" rfl
  | everything => exact wholeLines_of_ending "';" rfl
  | nothing => exact .inr ⟨"export \x7b\x7d;", rfl⟩

private theorem exportsIn_constant (documentation : Option String) (name : String)
    (type : Option String) (value : Expr) :
    ExportsIn (constant documentation name type value).render name := by
  have whole := wholeLines_documentation documentation
  cases type with
  | none =>
      change ExportsIn (documentation.elim "" documentationComment ++ "export const " ++ name
        ++ "" ++ " = " ++ value.render 0 ++ ";\n") name
      refine ⟨_, _, value.render 0 ++ ";\n", ?_, whole, .constant⟩
      simp only [String.append_assoc, String.empty_append]
  | some written =>
      change ExportsIn (documentation.elim "" documentationComment ++ "export const " ++ name
        ++ (": " ++ written) ++ " = " ++ value.render 0 ++ ";\n") name
      refine ⟨_, _, written ++ " = " ++ value.render 0 ++ ";\n", ?_, whole, .typedConstant⟩
      simp only [String.append_assoc]

private theorem exportsIn_interface (name : String) (parameters base : Option String)
    (items : List InterfaceItem) :
    ExportsIn (interface name parameters base items).render name := by
  cases parameters with
  | some written =>
      change ExportsIn ("export interface " ++ name ++ ("<" ++ written ++ ">")
        ++ (base.elim "" fun extended => " extends " ++ extended) ++ " \x7b\n"
        ++ Text.concat (items.map itemLines) ++ "\x7d\n") name
      refine ⟨"", _, written ++ ">" ++ (base.elim "" fun extended => " extends " ++ extended)
        ++ " \x7b\n" ++ Text.concat (items.map itemLines) ++ "\x7d\n", ?_, .inl rfl,
        .genericInterface⟩
      simp only [String.append_assoc, String.empty_append]
  | none =>
      cases base with
      | some extended =>
          change ExportsIn ("export interface " ++ name ++ "" ++ (" extends " ++ extended)
            ++ " \x7b\n" ++ Text.concat (items.map itemLines) ++ "\x7d\n") name
          refine ⟨"", _, "extends " ++ extended ++ " \x7b\n"
            ++ Text.concat (items.map itemLines) ++ "\x7d\n", ?_, .inl rfl, .interface⟩
          have blank : " extends " = " " ++ "extends " := rfl
          simp only [blank, String.append_assoc, String.empty_append]
      | none =>
          change ExportsIn ("export interface " ++ name ++ "" ++ ""
            ++ " \x7b\n" ++ Text.concat (items.map itemLines) ++ "\x7d\n") name
          refine ⟨"", _, "\x7b\n" ++ Text.concat (items.map itemLines) ++ "\x7d\n", ?_,
            .inl rfl, .interface⟩
          have blank : " \x7b\n" = " " ++ "\x7b\n" := rfl
          simp only [blank, String.append_assoc, String.empty_append]

/-- A statement declares what it exports at the start of a line of its text. -/
theorem exportsIn_render {statement : Statement} {name : String}
    (member : name ∈ statement.exports) : ExportsIn statement.render name := by
  cases statement with
  | constant documentation own type value =>
      have same : name = own := List.mem_singleton.mp member
      subst same
      exact exportsIn_constant documentation name type value
  | typeAlias own definition =>
      have same : name = own := List.mem_singleton.mp member
      subst same
      change ExportsIn ("export type " ++ name ++ " = " ++ definition ++ ";\n") name
      refine ⟨"", _, definition ++ ";\n", ?_, .inl rfl, .typeAlias⟩
      simp only [String.append_assoc, String.empty_append]
  | interface own parameters base items =>
      have same : name = own := List.mem_singleton.mp member
      subst same
      exact exportsIn_interface name parameters base items
  | types names =>
      have listed : name ∈ names := member
      change ExportsIn ("export type \x7b " ++ Text.separated ", " names ++ " \x7d;\n") name
      refine ⟨"", _, "", ?_, .inl rfl, .listed listed⟩
      rw [String.empty_append, String.append_empty]
  | everything source => cases member
  | nothing => cases member

end Statement

theorem Imports.wholeLines_render (imports : List Import) :
    WholeLines (Imports.render imports) := by
  unfold Imports.render
  split
  · exact .inl rfl
  · exact .inr ⟨_, rfl⟩

namespace Module

theorem wholeLines_renderBanner (banner : String) : WholeLines (renderBanner banner) := by
  unfold renderBanner
  split
  · exact .inl rfl
  · exact .inr ⟨_, rfl⟩

theorem wholeLines_renderParagraph (statements : List Statement) :
    WholeLines (renderParagraph statements) := by
  apply wholeLines_concat
  intro piece member
  obtain ⟨statement, _, rfl⟩ := List.mem_map.mp member
  exact statement.wholeLines_render

/-- The text of a file declares what the file exports. -/
theorem exports_in_text {file : Module} {name : String} (member : name ∈ file.exports) :
    ExportsIn file.render name := by
  obtain ⟨statement, inFile, exported⟩ := List.mem_flatMap.mp member
  obtain ⟨paragraph, inParagraphs, inParagraph⟩ := List.mem_flatten.mp inFile
  have inParagraphText : ExportsIn (renderParagraph paragraph) name := by
    refine exportsIn_concat ?_ (List.mem_map_of_mem inParagraph)
      (Statement.exportsIn_render exported)
    intro piece inside
    obtain ⟨other, _, rfl⟩ := List.mem_map.mp inside
    exact other.wholeLines_render
  have inParagraphs : ExportsIn
      (Text.separated "\n" (file.paragraphs.map renderParagraph)) name := by
    refine exportsIn_separated ?_ (List.mem_map_of_mem inParagraphs) inParagraphText
    intro piece inside
    obtain ⟨other, _, rfl⟩ := List.mem_map.mp inside
    exact wholeLines_renderParagraph other
  have header : WholeLines (renderBanner file.banner ++ Imports.render file.imports) :=
    (wholeLines_renderBanner file.banner).append (Imports.wholeLines_render file.imports)
  exact inParagraphs.after header

end Module
end TypeScript
end SchemaCompiler
