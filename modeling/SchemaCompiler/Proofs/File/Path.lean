import SchemaCompiler.File.Path
import SchemaCompiler.Proofs.Text.Pieces

/-
Places that paths lead to.

A place is where one stands below a root: the names of the directories on the way there, and
of a file at its end.  A path is followed step by step.  Two dots leave the directory at hand;
nobody leaves the root, since what lies around it is not known.
-/

namespace SchemaCompiler
namespace Path

/-- Where steps lead from a place. -/
def walk : List String → List String → Option (List String)
  | place, [] => some place
  | place, step :: rest =>
      if step = ".." then
        if place = [] then none else walk place.dropLast rest
      else walk (place ++ [step]) rest

/-- The place of a path below the root. -/
def place? (path : String) : Option (List String) :=
  walk [] (steps path)

/-- The place that a path leads to from a directory. -/
def placeFrom? (directory path : String) : Option (List String) :=
  (place? directory).bind fun place => walk place (steps path)

theorem walk_append (place first second : List String) :
    walk place (first ++ second) = (walk place first).bind fun reached => walk reached second := by
  induction first generalizing place with
  | nil => rfl
  | cons step rest ih =>
      rw [List.cons_append, walk, walk]
      split
      · split
        · rfl
        · exact ih _
      · exact ih _

theorem walk_of_inside {steps : List String} (inside : ".." ∉ steps) (place : List String) :
    walk place steps = some (place ++ steps) := by
  induction steps generalizing place with
  | nil => rw [walk, List.append_nil]
  | cons step rest ih =>
      rw [List.mem_cons, not_or] at inside
      rw [walk, if_neg (Ne.symm inside.1), ih inside.2, List.append_assoc, List.singleton_append]

/-- Going up takes names off the end of the place, as long as there are any. -/
theorem walk_up (levels : Nat) (place rest : List String) :
    walk place (List.replicate levels ".." ++ rest) =
      if levels ≤ place.length then walk (place.take (place.length - levels)) rest else none := by
  induction levels generalizing place with
  | zero =>
      rw [if_pos (Nat.zero_le _), Nat.sub_zero, List.take_length]
      rfl
  | succ levels ih =>
      rw [List.replicate_succ, List.cons_append, walk, if_pos rfl]
      by_cases atRoot : place = []
      · rw [if_pos atRoot, atRoot, List.length_nil, if_neg (Nat.not_succ_le_zero levels)]
      · have positive := List.length_pos_iff.mpr atRoot
        have fewer : min (place.length - 1 - levels) (place.length - 1) =
            place.length - (levels + 1) := by omega
        have reached : levels ≤ place.length - 1 ↔ levels + 1 ≤ place.length := by omega
        rw [if_neg atRoot, ih, List.length_dropLast, List.dropLast_eq_take, List.take_take, fewer]
        simp only [reached]

theorem steps_append (before after : String) :
    steps (before ++ "/" ++ after) = steps before ++ steps after := by
  rw [steps, Text.segments_append, List.filter_append]
  rfl

theorem steps_of_no_slash {s : String} (whole : '/' ∉ s.toList) (nonempty : s ≠ "")
    (noDot : s ≠ ".") : steps s = [s] := by
  have kept : (s != "" && s != ".") = true := by
    rw [bne_iff_ne.mpr nonempty, bne_iff_ne.mpr noDot, Bool.and_self]
  simp only [steps, Text.segments_of_no_slash whole, List.filter_cons, kept, List.filter_nil,
    if_true]

theorem mem_steps_of_mem_segments {path segment : String} (named : segment ≠ "" ∧ segment ≠ ".") :
    segment ∈ steps path ↔ segment ∈ Text.segments path := by
  simp [steps, List.mem_filter, named]

theorem place?_of_inside {path : String} (inside : ".." ∉ Text.segments path) :
    place? path = some (steps path) := by
  rw [place?, walk_of_inside, List.nil_append]
  rwa [mem_steps_of_mem_segments (by decide)]

end Path
end SchemaCompiler
