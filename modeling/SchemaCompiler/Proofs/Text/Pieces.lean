import SchemaCompiler.Text.Pieces

/-
Pieces of texts.

A separating character between two texts keeps their pieces apart, and a text without one
is a single piece.  The pieces have the characters of the text, less the separating ones.
-/

namespace SchemaCompiler
namespace Text

theorem split_eq_splitOnP (separates : Char → Bool) (cs : List Char) :
    split separates cs = cs.splitOnP separates := by
  induction cs with
  | nil => rfl
  | cons c rest ih =>
      rw [List.splitOnP_cons_eq_if_modifyHead, ← ih]
      simp only [split]
      split
      · rfl
      · cases found : split separates rest with
        | nil =>
            rw [ih] at found
            exact absurd found (List.splitOnP_ne_nil separates rest)
        | cons piece pieces => rfl

theorem split_append_of_separates {separates : Char → Bool} {c : Char}
    (separating : separates c = true) (before after : List Char) :
    split separates (before ++ c :: after) = split separates before ++ split separates after := by
  simp only [split_eq_splitOnP]
  exact List.splitOnP_append_cons before after separating

theorem split_of_none_separates {separates : Char → Bool} {cs : List Char}
    (joined : ∀ c ∈ cs, separates c = false) : split separates cs = [cs] := by
  rw [split_eq_splitOnP]
  exact List.splitOnP_eq_singleton joined

theorem subset_of_mem_split {separates : Char → Bool} {cs piece : List Char}
    (member : piece ∈ split separates cs) : piece ⊆ cs := by
  induction cs generalizing piece with
  | nil =>
      rw [List.mem_singleton.mp member]
      exact List.Subset.refl []
  | cons c rest ih =>
      unfold split at member
      split at member
      · rcases List.mem_cons.mp member with rfl | later
        · exact List.nil_subset _
        · exact List.subset_cons_of_subset c (ih later)
      · split at member
        · rw [List.mem_singleton.mp member]
          exact List.cons_subset_cons c (List.nil_subset rest)
        · rename_i first pieces found
          rw [found] at ih
          rcases List.mem_cons.mp member with rfl | later
          · exact List.cons_subset_cons c (ih List.mem_cons_self)
          · exact List.subset_cons_of_subset c (ih (List.mem_cons_of_mem first later))

theorem joined_of_mem_split {separates : Char → Bool} {cs piece : List Char}
    (member : piece ∈ split separates cs) : ∀ c ∈ piece, separates c = false := by
  induction cs generalizing piece with
  | nil =>
      rw [List.mem_singleton.mp member]
      exact List.forall_mem_nil _
  | cons c rest ih =>
      unfold split at member
      split at member
      case isTrue =>
        rcases List.mem_cons.mp member with rfl | later
        · exact List.forall_mem_nil _
        · exact ih later
      case isFalse joins =>
        have joined : separates c = false := Bool.eq_false_iff.mpr joins
        split at member
        · rw [List.mem_singleton.mp member, List.forall_mem_singleton]
          exact joined
        · rename_i first pieces found
          rw [found] at ih
          rcases List.mem_cons.mp member with rfl | later
          · rw [List.forall_mem_cons]
            exact ⟨joined, ih List.mem_cons_self⟩
          · exact ih (List.mem_cons_of_mem first later)

theorem segments_append (before after : String) :
    segments (before ++ "/" ++ after) = segments before ++ segments after := by
  have chars : (before ++ "/" ++ after).toList = before.toList ++ '/' :: after.toList := by
    simp
  rw [segments, chars, split_append_of_separates rfl, List.map_append]
  rfl

theorem segments_of_no_slash {s : String} (whole : '/' ∉ s.toList) : segments s = [s] := by
  have joined : ∀ c ∈ s.toList, (c == '/') = false := by
    intro c member
    rw [beq_eq_false_iff_ne]
    rintro rfl
    exact whole member
  rw [segments, split_of_none_separates joined, List.map_singleton, String.ofList_toList]

theorem eq_append_of_beforeEnding? {ending text before : List Char}
    (found : beforeEnding? ending text = some before) : text = before ++ ending := by
  unfold beforeEnding? at found
  split at found
  case isTrue ends =>
    obtain ⟨start, rfl⟩ := List.isSuffixOf_iff_suffix.mp ends
    cases found
    rw [List.length_append, Nat.add_sub_cancel, List.take_left]
  case isFalse => cases found

theorem segments_injective {left right : String} (same : segments left = segments right) :
    left = right := by
  have pieces : left.toList.splitOn '/' = right.toList.splitOn '/' := by
    simp only [segments, split_eq_splitOnP] at same
    exact (List.map_inj_right fun _ _ equal => String.ofList_injective equal).mp same
  have joined (s : String) : ['/'].intercalate (s.toList.splitOn '/') = s.toList :=
    List.intercalate_splitOn '/'
  apply String.toList_injective
  rw [← joined left, pieces, joined]

end Text
end SchemaCompiler
