import SchemaCompiler.File.Tree
import SchemaCompiler.Proofs.Text.Bytes
import Mathlib.Data.List.Nodup

/-
The files that are taken from a directory.

Which files are taken, and in which order, can be said of the directory alone: the regular
files with the ending, in the order of the bytes of their names.  There is one such list, since
no two entries of a directory have one name, and so the order in which the entries were
enumerated is of no account.
-/

namespace SchemaCompiler
namespace Directory

/-- No two entries have one name. -/
def Distinct (directory : Directory) : Prop :=
  (directory.map DirectoryEntry.name).Nodup

/-- The files that are to be taken from a directory, in order. -/
structure Takes (extension : String) (directory : Directory) (files : List DirectoryEntry) :
    Prop where
  ordered : files.Pairwise fun left right => Text.bytes left.name < Text.bytes right.name
  taken_iff (entry : DirectoryEntry) : entry ∈ files ↔
    entry ∈ directory ∧ entry.isFile = true ∧ ∃ stem, entry.name = stem ++ "." ++ extension

theorem isWanted_iff {extension : String} {entry : DirectoryEntry} :
    isWanted extension entry = true ↔
      entry.isFile = true ∧ ∃ stem, entry.name = stem ++ "." ++ extension := by
  rw [isWanted, Bool.and_eq_true, List.isSuffixOf_iff_suffix]
  apply and_congr_right
  intro _
  constructor
  · intro ends
    obtain ⟨stem, chars⟩ := ends
    refine ⟨String.ofList stem, String.toList_injective ?_⟩
    rw [← chars]
    simp
  · intro named
    obtain ⟨stem, name⟩ := named
    refine ⟨stem.toList, ?_⟩
    rw [name]
    simp

variable {extension : String} {directory other : Directory} {files others : List DirectoryEntry}

theorem Takes.nodup (takes : Takes extension directory files) : files.Nodup := by
  apply takes.ordered.imp
  intro left right less same
  rw [same] at less
  exact List.lt_irrefl _ less

theorem Takes.unique (takes : Takes extension directory files)
    (takesOthers : Takes extension directory others) : files = others := by
  have same : files.Perm others := by
    rw [List.perm_ext_iff_of_nodup takes.nodup takesOthers.nodup]
    intro entry
    rw [takes.taken_iff, takesOthers.taken_iff]
  apply List.Perm.eq_of_pairwise _ takes.ordered takesOthers.ordered same
  intro left right _ _ less greater
  exact absurd greater (List.lt_asymm less)

/-- What is taken does not depend on the order of enumeration. -/
theorem Takes.of_perm (reordered : directory.Perm other)
    (takes : Takes extension directory files) : Takes extension other files := by
  constructor
  · exact takes.ordered
  · intro entry
    rw [takes.taken_iff, reordered.mem_iff]

/-- The files that the filter and the sort give are those to be taken. -/
theorem takes_filesWith (distinct : directory.Distinct) :
    Takes extension directory (filesWith extension directory) := by
  have reordered : (filesWith extension directory).Perm
      (directory.filter (isWanted extension)) := List.mergeSort_perm _ _
  have sorted : (filesWith extension directory).Pairwise fun left right =>
      left.name ≤ right.name := by
    have ascending : (filesWith extension directory).Pairwise fun left right =>
        decide (left.name ≤ right.name) = true := by
      apply List.pairwise_mergeSort
      · intro first second third
        simp only [decide_eq_true_eq]
        exact le_trans
      · intro first second
        simp only [Bool.or_eq_true, decide_eq_true_eq]
        exact le_total _ _
    apply ascending.imp
    intro left right
    exact of_decide_eq_true
  have apart : (filesWith extension directory).Pairwise fun left right =>
      left.name ≠ right.name := by
    have kept : ((directory.filter (isWanted extension)).map DirectoryEntry.name).Nodup :=
      (List.filter_sublist.map _).nodup distinct
    exact List.pairwise_map.mp ((reordered.map DirectoryEntry.name).nodup_iff.mpr kept)
  constructor
  · apply (sorted.and apart).imp
    intro left right both
    exact Text.bytes_lt_iff.mpr (lt_of_le_of_ne both.1 both.2)
  · intro entry
    rw [reordered.mem_iff, List.mem_filter, isWanted_iff]

theorem takes_iff (distinct : directory.Distinct) :
    Takes extension directory files ↔ files = filesWith extension directory := by
  constructor
  · intro takes
    exact takes.unique (takes_filesWith distinct)
  · intro same
    rw [same]
    exact takes_filesWith distinct

theorem filesWith_of_perm (distinct : directory.Distinct) (reordered : directory.Perm other) :
    filesWith extension directory = filesWith extension other := by
  have distinctOther : other.Distinct := (reordered.map DirectoryEntry.name).nodup_iff.mp distinct
  exact (takes_iff distinctOther).mp ((takes_filesWith distinct).of_perm reordered)

end Directory

namespace FileTree

theorem nodup_eraseDups (names : List String) : names.eraseDups.Nodup := by
  induction size : names.length using Nat.strong_induction_on generalizing names with
  | h n ih =>
      cases names with
      | nil => exact List.nodup_nil
      | cons name rest =>
          have fewer : (rest.filter fun other => !other == name).length < n := by
            have atMost := List.length_filter_le (fun other => !other == name) rest
            rw [List.length_cons] at size
            omega
          rw [List.eraseDups_cons, List.nodup_cons, List.mem_eraseDups, List.mem_filter]
          refine ⟨?_, ih _ fewer _ rfl⟩
          intro kept
          rw [beq_self_eq_true] at kept
          cases kept.2

/-- Listings of a tree have no name twice. -/
theorem distinct_of_directory? {tree : FileTree} {path : String} {listing : Directory}
    (found : tree.directory? path = some listing) : listing.Distinct := by
  unfold directory? at found
  split at found
  · rename_i place _
    split at found
    · cases found
      have names : (tree.entries place).map DirectoryEntry.name =
          (tree.places.filterMap (childOf? place)).eraseDups := by
        rw [entries, List.map_map]
        apply List.map_id''
        intro name
        dsimp only [Function.comp]
        split
        · rfl
        · rfl
      rw [Directory.Distinct, names]
      exact nodup_eraseDups _
    · cases found
  · cases found

end FileTree
end SchemaCompiler
