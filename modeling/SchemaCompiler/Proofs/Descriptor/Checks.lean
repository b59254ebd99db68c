import Mathlib.Data.List.Nodup
import SchemaCompiler.Descriptor.Load

/-
Checks that descriptors have passed.

Loading is a chain of steps, each of which reads something or checks it, and a result is
only given after all of them.  So from a result it is read back, step by step, what was
found and what holds of it.
-/

namespace SchemaCompiler

theorem bind_eq_ok_iff {ε α β : Type} {result : Except ε α} {next : α → Except ε β}
    {last : β} : result >>= next = .ok last ↔ ∃ a, result = .ok a ∧ next a = .ok last := by
  cases result with
  | error error => simp [bind, Except.bind]
  | ok a => simp [bind, Except.bind]

theorem pure_eq_ok_iff {ε α : Type} {a last : α} :
    (pure a : Except ε α) = .ok last ↔ a = last := by
  simp [pure, Except.pure]

theorem mapError_eq_ok_iff {ε ε' α : Type} {wrap : ε → ε'} {result : Except ε α} {a : α} :
    result.mapError wrap = .ok a ↔ result = .ok a := by
  cases result with
  | error error => simp [Except.mapError]
  | ok found => simp [Except.mapError]

theorem bind_eq_error_iff {ε α β : Type} {result : Except ε α} {next : α → Except ε β}
    {error : ε} : result >>= next = .error error ↔
      result = .error error ∨ ∃ a, result = .ok a ∧ next a = .error error := by
  cases result with
  | error other => simp [bind, Except.bind]
  | ok a => simp [bind, Except.bind]

namespace Descriptor

theorem wellFormed_eq_ok_iff {α : Type} {content : Option α} {a : α} :
    wellFormed content = .ok a ↔ content = some a := by
  cases content with
  | none => simp [wellFormed]
  | some found => simp [wellFormed]

theorem unlessBreach_eq_ok_iff {condition : Bool} {breach : Breach} {done : Unit} :
    unlessBreach condition breach = .ok done ↔ condition = true := by
  cases condition with
  | false => simp [unlessBreach]
  | true => simp [unlessBreach]

theorem inFile_eq_ok_iff {α : Type} {path : String} {result : Except Problem α} {a : α} :
    inFile path result = .ok a ↔ result = .ok a := by
  cases result with
  | error problem => simp [inFile, Except.mapError]
  | ok found => simp [inFile, Except.mapError]

theorem inFile_eq_error_iff {α : Type} {path : String} {result : Except Problem α}
    {error : LoadError} : inFile path result = .error error ↔
      ∃ problem, result = .error problem ∧ error = ⟨path, problem⟩ := by
  cases result with
  | error problem => simp [inFile, Except.mapError, eq_comm]
  | ok found => simp [inFile, Except.mapError]

theorem nodup_of_checkNew {breach : String → Breach} {seen names : List String}
    {done : Unit} (distinct : seen.Nodup) (passes : checkNew breach seen names = .ok done) :
    (seen ++ names).Nodup := by
  induction names generalizing seen with
  | nil => simpa using distinct
  | cons name rest ih =>
      simp only [checkNew, bind_eq_ok_iff, unlessBreach_eq_ok_iff, exists_const] at passes
      obtain ⟨new, later⟩ := passes
      have fresh : name ∉ seen := by simpa using new
      exact List.nodup_middle.mpr (ih (List.nodup_cons.mpr ⟨fresh, distinct⟩) later)

theorem checkNew_eq_ok_iff {breach : String → Breach} {seen names : List String} {done : Unit}
    (distinct : seen.Nodup) : checkNew breach seen names = .ok done ↔ (seen ++ names).Nodup := by
  constructor
  · exact nodup_of_checkNew distinct
  · intro apart
    induction names generalizing seen with
    | nil => rfl
    | cons name rest ih =>
        obtain ⟨fresh, others⟩ := List.nodup_cons.mp (List.nodup_middle.mp apart)
        have new : name ∉ seen := fun member => fresh (List.mem_append_left rest member)
        simp only [checkNew, bind_eq_ok_iff, unlessBreach_eq_ok_iff, exists_const]
        refine ⟨by simpa using new, ih (List.nodup_cons.mpr ⟨new, distinct⟩) ?_⟩
        exact List.nodup_cons.mpr ⟨fresh, others⟩

/-- The first of some names that is not new, among those seen and those before it. -/
def FirstRepeated (seen names : List String) (name : String) : Prop :=
  ∃ before after, names = before ++ name :: after ∧ (seen ++ before).Nodup ∧
    name ∈ seen ++ before

theorem firstRepeated_cons_iff {seen rest : List String} {first name : String}
    (new : first ∉ seen) :
    FirstRepeated seen (first :: rest) name ↔ FirstRepeated (first :: seen) rest name := by
  have moved (before : List String) : (seen ++ first :: before).Perm (first :: seen ++ before) :=
    List.perm_middle
  constructor
  · intro repeated
    obtain ⟨before, after, split, apart, again⟩ := repeated
    cases before with
    | nil =>
        obtain ⟨rfl, _⟩ := List.cons.inj split
        rw [List.append_nil] at again
        exact absurd again new
    | cons head before =>
        obtain ⟨rfl, later⟩ := List.cons.inj split
        exact ⟨before, after, later, (moved before).nodup_iff.mp apart,
          (moved before).mem_iff.mp again⟩
  · intro repeated
    obtain ⟨before, after, split, apart, again⟩ := repeated
    refine ⟨first :: before, after, ?_, (moved before).nodup_iff.mpr apart,
      (moved before).mem_iff.mpr again⟩
    rw [split, List.cons_append]

theorem firstRepeated_of_mem_iff {seen rest : List String} {first name : String}
    (distinct : seen.Nodup) (taken : first ∈ seen) :
    FirstRepeated seen (first :: rest) name ↔ name = first := by
  constructor
  · intro repeated
    obtain ⟨before, after, split, apart, _⟩ := repeated
    cases before with
    | nil => exact (List.cons.inj split).1.symm
    | cons head before =>
        obtain ⟨rfl, _⟩ := List.cons.inj split
        have fresh := (List.nodup_cons.mp (List.nodup_middle.mp apart)).1
        exact absurd (List.mem_append_left before taken) fresh
  · intro same
    rw [same]
    refine ⟨[], rest, rfl, ?_, ?_⟩
    · rwa [List.append_nil]
    · rwa [List.append_nil]

theorem checkNew_eq_error_iff {breach : String → Breach} {seen names : List String}
    {problem : Problem} (distinct : seen.Nodup) :
    checkNew breach seen names = .error problem ↔
      ∃ name, FirstRepeated seen names name ∧ problem = .breach (breach name) := by
  induction names generalizing seen with
  | nil =>
      constructor
      · intro fails
        cases fails
      · intro repeated
        obtain ⟨name, ⟨before, after, split, _⟩, _⟩ := repeated
        cases before <;> cases split
  | cons first rest ih =>
      rw [checkNew]
      by_cases taken : first ∈ seen
      · have known : (!seen.contains first) = false := by simpa using taken
        simp only [known, unlessBreach, firstRepeated_of_mem_iff distinct taken, exists_eq_left,
          Bool.false_eq_true, if_false, bind, Except.bind, Except.error.injEq]
        exact eq_comm
      · have new : (!seen.contains first) = true := by simpa using taken
        simp only [firstRepeated_cons_iff taken]
        rw [← ih (List.nodup_cons.mpr ⟨taken, distinct⟩), new]
        rfl

theorem members_of_checkMembers {name : String} {seen : List String} {members : List Member}
    {done : Unit} (distinct : seen.Nodup) (passes : checkMembers name seen members = .ok done) :
    (∀ value ∈ members.map Member.value, Name.isEnumMember value = true) ∧
      (seen ++ members.map Member.value).Nodup := by
  induction members generalizing seen with
  | nil => exact ⟨nofun, by simpa using distinct⟩
  | cons member rest ih =>
      simp only [checkMembers, bind_eq_ok_iff, unlessBreach_eq_ok_iff, exists_const] at passes
      obtain ⟨safe, new, later⟩ := passes
      have fresh : member.value ∉ seen := by simpa using new
      have ⟨others, apart⟩ := ih (List.nodup_cons.mpr ⟨fresh, distinct⟩) later
      exact ⟨List.forall_mem_cons.mpr ⟨safe, others⟩, List.nodup_middle.mpr apart⟩

end Descriptor
end SchemaCompiler
