import Mathlib.Logic.Function.Iterate
import SchemaCompiler.Proofs.Relation.Names

/-
The search for a free name, one look at a time.

The search looks at the preferred name, then at the qualified one, then at the qualified one
with the numbers from two on, and nothing but a free property ends it.  It counts in 32 bits
with a sign, so there is a number that has no next one.  No bound is built into the search; it
ends because the least free number is among one more number than there are taken properties.
Its end is the name that `freeName` gives.
-/

namespace SchemaCompiler

/-- The greatest number that a search counts to. -/
def greatestNumber : Nat := 2 ^ 31 - 1

/-- A search between two looks. -/
inductive NameSearch where
  | atPreferred
  | atQualified
  | atNumber (n : Nat)
  /-- A name was free, and its property is now taken with those before. -/
  | chosen (name : String) (taken : List String)
  /-- The greatest number was not free. -/
  | overflowed
deriving DecidableEq, Repr

namespace NameSearch

/-- The search after a look at a name, which goes on to `next` unless the name is free. -/
def look (taken : List String) (name : String) (next : NameSearch) : NameSearch :=
  if isFree taken name then .chosen name (taken ++ [Name.camel name]) else next

def step (taken : List String) (preferred qualified : String) : NameSearch → NameSearch
  | .atPreferred => look taken preferred .atQualified
  | .atQualified => look taken qualified (.atNumber 2)
  | .atNumber n =>
      look taken (numbered qualified n)
        (if n < greatestNumber then .atNumber (n + 1) else .overflowed)
  | .chosen name after => .chosen name after
  | .overflowed => .overflowed

end NameSearch

section Search

variable {taken : List String} {preferred qualified name : String}

namespace NameSearch

theorem look_of_free {next : NameSearch} (free : Name.camel name ∉ taken) :
    look taken name next = .chosen name (taken ++ [Name.camel name]) :=
  if_pos (isFree_iff.mpr free)

theorem look_of_taken {next : NameSearch} (occupied : Name.camel name ∈ taken) :
    look taken name next = next :=
  if_neg (not_isFree_iff.mpr occupied)

theorem iterate_chosen (steps : Nat) (after : List String) :
    (step taken preferred qualified)^[steps] (.chosen name after) = .chosen name after :=
  Function.iterate_fixed rfl steps

/-- As long as the numbers are taken, the search counts them. -/
theorem iterate_atNumber {first steps : Nat}
    (occupied : ∀ n, first ≤ n → n < first + steps → Name.camel (numbered qualified n) ∈ taken)
    (held : first + steps ≤ greatestNumber) :
    (step taken preferred qualified)^[steps] (.atNumber first) = .atNumber (first + steps) := by
  induction steps with
  | zero => rfl
  | succ steps ih =>
      have counted := ih (fun n lower upper => occupied n lower (by omega)) (by omega)
      rw [Function.iterate_succ_apply', counted, step,
        look_of_taken (occupied _ (by omega) (by omega)), if_pos (by omega), Nat.add_assoc]

theorem exists_tries (first : FirstFree taken preferred qualified name)
    (short : taken.length < 2 ^ 31 - 2) :
    ∃ tries ≤ taken.length + 1,
      (step taken preferred qualified)^[2 + tries] .atPreferred =
        .chosen name (taken ++ [Name.camel name]) := by
  cases first with
  | preferred free =>
      refine ⟨0, Nat.zero_le _, ?_⟩
      rw [Nat.add_zero, Function.iterate_succ_apply, step, look_of_free free, iterate_chosen]
  | qualified before free =>
      refine ⟨0, Nat.zero_le _, ?_⟩
      rw [Nat.add_zero, Function.iterate_succ_apply, step, look_of_taken before,
        Function.iterate_one, step, look_of_free free]
  | numbered before next least =>
      have counting : (step taken preferred qualified)^[2] .atPreferred = .atNumber 2 := by
        rw [Function.iterate_succ_apply, step, look_of_taken before, Function.iterate_one, step,
          look_of_taken next]
      obtain ⟨occupied, rfl⟩ := Nat.exists_eq_add_of_le least.1.1
      have within := least_number_le least
      have held : 2 + occupied ≤ greatestNumber := by
        unfold greatestNumber
        omega
      refine ⟨occupied + 1, by omega, ?_⟩
      rw [Nat.add_comm, Function.iterate_add_apply, counting, Function.iterate_succ_apply',
        iterate_atNumber (fun _ => taken_below_least least) held, step, look_of_free least.1.2]

end NameSearch

/-- With fewer than `2 ^ 31 - 2` taken properties every search ends, at the name that is free
first.  Two looks and at most as many tries of numbers as there are taken properties, and one
more, bring it there, and the property of that name joins the taken ones. -/
theorem search_ends (taken : List String) (preferred qualified : String)
    (short : taken.length < 2 ^ 31 - 2) :
    FirstFree taken preferred qualified (freeName taken preferred qualified) ∧
      Name.camel (freeName taken preferred qualified) ∉ taken ∧
      ∃ tries ≤ taken.length + 1,
        (NameSearch.step taken preferred qualified)^[2 + tries] .atPreferred =
          .chosen (freeName taken preferred qualified)
            (taken ++ [Name.camel (freeName taken preferred qualified)]) := by
  have first := firstFree_freeName taken preferred qualified
  exact ⟨first, first.free, NameSearch.exists_tries first short⟩

theorem search_ends_of_guest :
    ["guest", "guestRecord", "guestRecord2"].length < 2 ^ 31 - 2 ∧
      FirstFree ["guest", "guestRecord", "guestRecord2"] "guest" "guest_record" "guest_record_3" ∧
      "guestRecord3" ∉ ["guest", "guestRecord", "guestRecord2"] ∧
      ∃ tries ≤ 4,
        (NameSearch.step ["guest", "guestRecord", "guestRecord2"] "guest" "guest_record")^[2 + tries]
            .atPreferred =
          .chosen "guest_record_3" ["guest", "guestRecord", "guestRecord2", "guestRecord3"] := by
  have short : ["guest", "guestRecord", "guestRecord2"].length < 2 ^ 31 - 2 := by decide
  have found :
      freeName ["guest", "guestRecord", "guestRecord2"] "guest" "guest_record" =
        "guest_record_3" := by decide
  have property : Name.camel "guest_record_3" = "guestRecord3" := by decide
  have ends := search_ends ["guest", "guestRecord", "guestRecord2"] "guest" "guest_record" short
  rw [found, property] at ends
  exact ⟨short, ends⟩

end Search

end SchemaCompiler
