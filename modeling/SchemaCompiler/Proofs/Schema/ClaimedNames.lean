import Mathlib.Data.List.Infix
import SchemaCompiler.Proofs.Name.Case
import SchemaCompiler.Proofs.Schema.Collisions

/-
What the scan of claims reports.

The scan keeps the first claim of each name and use, and every later claim is held
against it.  So a claim is reported exactly when its name was claimed before for its use,
whether that earlier claim was itself reported or not, and the claim that it is held
against is the earliest.  The order in which the kept claims are stored has no part in it.
Names that are made from a name by one rule for all differ when the stems of type names do.
-/

namespace SchemaCompiler

/-- The fault of a claim of a name that another claim has. -/
def NameClaim.takenBy (claim holder : NameClaim) : Fault :=
  .nameCollision claim.owner claim.use claim.name holder.owner

namespace Schema

/-- The claimed names differ, use by use, and no table has a name that is reserved. -/
structure NamesApart (schema : Schema) : Prop where
  modules : (schema.tables.map fun table => (TableNames.ofTable table.name).stem).Nodup
  reserved : ∀ table ∈ schema.tables,
    (TableNames.ofTable table.name).stem ≠ enumsStem ∧
      (TableNames.ofTable table.name).stem ≠ indexStem
  constants : ((schema.enumerations.map fun enumeration =>
      (EnumNames.ofEnumeration enumeration).storageConst) ++
    schema.tables.map fun table => (TableNames.ofTable table.name).tableConst).Nodup
  types : ((schema.enumerations.map fun enumeration =>
      (EnumNames.ofEnumeration enumeration).typeName) ++
    schema.tables.map fun table => (TableNames.ofTable table.name).pascal).Nodup

/-- The names made from stems and constants differ, role by role. -/
structure DerivedNamesApart (schema : Schema) : Prop where
  schemas : ((schema.tables.map fun table => (TableNames.ofTable table.name).baseSchema) ++
    schema.enumerations.map fun enumeration =>
      (EnumNames.ofEnumeration enumeration).schemaConst).Nodup
  inserts : (schema.tables.map fun table => (TableNames.ofTable table.name).insertSchema).Nodup
  updates : (schema.tables.map fun table => (TableNames.ofTable table.name).updateSchema).Nodup
  relations : (schema.tables.map fun table =>
    (TableNames.ofTable table.name).relationsConst).Nodup
  seeds : (schema.tables.map fun table => (TableNames.ofTable table.name).seedConst).Nodup

/-- A run of the scan with a store of claims whose order is arbitrary and may change at any
time, as that of a hash table.  A claim is entered when no claim of its name and use is in
the store, and refused in favour of one that is. -/
inductive ClaimRun : List NameClaim → List NameClaim → List Fault → Prop
  | done {store : List NameClaim} : ClaimRun store [] []
  | reordered {store other claims : List NameClaim} {faults : List Fault}
      (same : store.Perm other) (run : ClaimRun other claims faults) :
      ClaimRun store claims faults
  | entered {store rest : List NameClaim} {claim : NameClaim} {faults : List Fault}
      (vacant : ∀ other ∈ store, other.key ≠ claim.key)
      (run : ClaimRun (claim :: store) rest faults) :
      ClaimRun store (claim :: rest) faults
  | refused {store rest : List NameClaim} {claim holder : NameClaim} {faults : List Fault}
      (stored : holder ∈ store) (same : holder.key = claim.key)
      (run : ClaimRun store rest faults) :
      ClaimRun store (claim :: rest) (claim.takenBy holder :: faults)

/-- What is said by the collisions of a schema. -/
structure CollisionsExact (schema : Schema) : Prop where
  none_iff : schema.collisions = [] ↔ schema.NamesApart
  derived : schema.collisions = [] → schema.DerivedNamesApart
  /-- Each claim, in order, is held against the earliest before it of its name and use. -/
  reported : schema.collisions =
    (schema.nameClaims.zip schema.nameClaims.inits).filterMap fun entry =>
      ((reservedClaims ++ entry.2).find? fun other => decide (other.key = entry.1.key)).map
        entry.1.takenBy
  unordered (faults : List Fault) :
    ClaimRun reservedClaims schema.nameClaims faults ↔ faults = schema.collisions

/-! ### Reported claims -/

section Scan

variable {earlier claims : List NameClaim}

theorem find?_claim_eq (earlier : List NameClaim) (claim : NameClaim) :
    (earlier.find? fun other => other.use == claim.use && other.name == claim.name) =
      earlier.find? fun other => decide (other.key = claim.key) := by
  congr 1
  funext other
  rw [Bool.eq_iff_iff, Bool.and_eq_true, beq_iff_eq, beq_iff_eq, decide_eq_true_eq,
    NameClaim.key, NameClaim.key, Prod.mk.injEq]

/-- The scan may keep all claims instead of the first of each name and use. -/
theorem collisionsAfter_eq {all : List NameClaim}
    (same : ∀ key, (earlier.find? fun other => decide (other.key = key)) =
      all.find? fun other => decide (other.key = key)) :
    collisionsAfter earlier claims =
      (claims.zip claims.inits).filterMap fun entry =>
        ((all ++ entry.2).find? fun other => decide (other.key = entry.1.key)).map
          entry.1.takenBy := by
  induction claims generalizing earlier all with
  | nil => rfl
  | cons claim rest ih =>
      rw [collisionsAfter, find?_claim_eq, List.inits_cons, List.zip_cons_cons,
        List.filterMap_cons, List.zip_map_right, List.filterMap_map, List.append_nil, ← same]
      -- What is kept may change, but it finds what all claims up to here would find.
      have later {kept : List NameClaim}
          (keeps : ∀ key, (kept.find? fun other => decide (other.key = key)) =
            (all ++ [claim]).find? fun other => decide (other.key = key)) :
          collisionsAfter kept rest = (rest.zip rest.inits).filterMap
            ((fun entry =>
              ((all ++ entry.2).find? fun other => decide (other.key = entry.1.key)).map
                entry.1.takenBy) ∘ Prod.map id fun before => claim :: before) := by
        rw [ih keeps]
        simp only [Function.comp_def, Prod.map, id_eq, List.append_assoc, List.singleton_append]
      cases found : earlier.find? fun other => decide (other.key = claim.key) with
      | some first =>
          refine congrArg (claim.takenBy first :: ·) (later ?_)
          intro key
          rw [List.find?_append, ← same key]
          cases known : earlier.find? fun other => decide (other.key = key) with
          | some other => rfl
          | none =>
              have different : claim.key ≠ key := by
                rintro rfl
                rw [found] at known
                cases known
              rw [Option.none_or, List.find?_singleton, decide_eq_false different]
              rfl
      | none =>
          apply later
          intro key
          rw [List.find?_append, List.find?_append, same key]

/-- Whatever the order in which claims are stored, the scan reports the same. -/
theorem eq_collisionsAfter_of_run {store : List NameClaim} {faults : List Fault}
    (run : ClaimRun store claims faults) (same : store.Perm earlier)
    (distinct : (earlier.map NameClaim.key).Nodup) :
    faults = collisionsAfter earlier claims := by
  induction run generalizing earlier with
  | done => rfl
  | reordered moved _ ih => exact ih (moved.symm.trans same) distinct
  | @entered store rest claim faults vacant _ ih =>
      have unclaimed : claim.key ∉ earlier.map NameClaim.key := by
        intro known
        obtain ⟨other, member, sameKey⟩ := List.mem_map.mp known
        exact vacant other (same.mem_iff.mpr member) sameKey
      have moved : (claim :: store).Perm (earlier ++ [claim]) :=
        (same.cons claim).trans (List.perm_append_singleton claim earlier).symm
      have apart : ((earlier ++ [claim]).map NameClaim.key).Nodup := by
        rw [List.map_append, List.map_singleton, ← List.concat_eq_append]
        exact distinct.concat unclaimed
      rw [collisionsAfter, find?_claim_eq_none_iff.mpr unclaimed]
      exact ih moved apart
  | @refused store rest claim holder faults stored sameKey _ ih =>
      have known : claim.key ∈ earlier.map NameClaim.key :=
        List.mem_map.mpr ⟨holder, same.mem_iff.mp stored, sameKey⟩
      rw [collisionsAfter, find?_claim_eq]
      cases found : earlier.find? fun other => decide (other.key = claim.key) with
      | none =>
          rw [← find?_claim_eq] at found
          exact absurd known (find?_claim_eq_none_iff.mp found)
      | some first =>
          have firstKey : first.key = claim.key := by simpa using List.find?_some found
          have one : first = holder :=
            List.inj_on_of_nodup_map distinct (List.mem_of_find?_eq_some found)
              (same.mem_iff.mp stored) (firstKey.trans sameKey.symm)
          rw [one, ih same distinct]
          rfl

theorem run_collisionsAfter (earlier claims : List NameClaim) :
    ClaimRun earlier claims (collisionsAfter earlier claims) := by
  induction claims generalizing earlier with
  | nil => exact .done
  | cons claim rest ih =>
      rw [collisionsAfter]
      cases found : earlier.find? fun other => other.use == claim.use && other.name == claim.name with
      | none =>
          have unclaimed := find?_claim_eq_none_iff.mp found
          refine .entered ?_ (.reordered (List.perm_append_singleton claim earlier).symm (ih _))
          intro other stored sameKey
          exact unclaimed (List.mem_map.mpr ⟨other, stored, sameKey⟩)
      | some first =>
          rw [find?_claim_eq] at found
          have sameKey : first.key = claim.key := by simpa using List.find?_some found
          exact .refused (List.mem_of_find?_eq_some found) sameKey (ih earlier)

end Scan

/-! ### Names that differ -/

section Names

variable {schema : Schema}

theorem key_notMem_reserved (free : ∀ table ∈ schema.tables,
      (TableNames.ofTable table.name).stem ≠ enumsStem ∧
        (TableNames.ofTable table.name).stem ≠ indexStem)
    {claim : NameClaim} (member : claim ∈ schema.nameClaims) :
    claim.key ∉ reservedClaims.map NameClaim.key := by
  -- Only modules are reserved, and only tables claim modules.
  simp only [reservedClaims, List.map_cons, List.map_nil, NameClaim.key, List.mem_cons,
    List.not_mem_nil, or_false, not_or, Prod.mk.injEq, not_and]
  rcases List.mem_append.mp member with ofEnum | ofTable
  · obtain ⟨enumeration, _, claimed⟩ := List.mem_flatMap.mp ofEnum
    simp only [enumClaims, List.mem_cons, List.not_mem_nil, or_false] at claimed
    rcases claimed with rfl | rfl <;> constructor <;> intro same <;> cases same
  · obtain ⟨table, known, claimed⟩ := List.mem_flatMap.mp ofTable
    simp only [tableClaims, List.mem_cons, List.not_mem_nil, or_false] at claimed
    rcases claimed with rfl | rfl | rfl
    · exact ⟨fun _ => (free table known).1, fun _ => (free table known).2⟩
    · constructor <;> intro same <;> cases same
    · constructor <;> intro same <;> cases same

theorem collisions_eq_nil_iff : schema.collisions = [] ↔ schema.NamesApart := by
  constructor
  · intro clean
    constructor
    · exact nodup_stems clean
    · exact fun table member => stem_not_reserved clean member
    · rw [← claimed_storageConstant]
      exact nodup_claimed clean .storageConstant
    · rw [← claimed_typeStem]
      exact nodup_claimed clean .typeStem
  · intro apart
    apply collisionsAfter_eq_nil_iff.mpr
    constructor
    · apply nodup_pairs_iff.mpr
      intro use
      show (schema.claimed use).Nodup
      cases use with
      | module =>
          rw [claimed_module]
          exact apart.modules
      | storageConstant =>
          rw [claimed_storageConstant]
          exact apart.constants
      | typeStem =>
          rw [claimed_typeStem]
          exact apart.types
    · exact fun claim member => key_notMem_reserved apart.reserved member

/-- Type stems that differ have different camelCase, so no schema has the name of another. -/
theorem NamesApart.nodup_schemas (apart : schema.NamesApart) :
    ((schema.tables.map fun table => (TableNames.ofTable table.name).baseSchema) ++
      schema.enumerations.map fun enumeration =>
        (EnumNames.ofEnumeration enumeration).schemaConst).Nodup := by
  let stems := (schema.tables.map fun table => Name.singular table.name) ++
    schema.enumerations.map Enumeration.baseName
  have distinct : (stems.map Name.pascal).Nodup := by
    rw [List.map_append, List.map_map, List.map_map]
    exact List.nodup_append_comm.mp apart.types
  have finer : (stems.map fun stem => Name.camel stem ++ "Schema").Nodup := by
    apply nodup_map_of_finer distinct
    intro left right _ _ same
    exact Name.pascal_eq_of_camel_eq ((String.append_left_inj _).mp same)
  rw [List.map_append, List.map_map, List.map_map] at finer
  exact finer

theorem NamesApart.derived (apart : schema.NamesApart) : schema.DerivedNamesApart where
  schemas := apart.nodup_schemas
  inserts := by
    apply nodup_map_of_finer (List.nodup_append.mp apart.types).2.1
    intro left right _ _ same
    exact (String.append_right_inj _).mp ((String.append_left_inj _).mp same)
  updates := by
    apply nodup_map_of_finer (List.nodup_append.mp apart.types).2.1
    intro left right _ _ same
    exact (String.append_right_inj _).mp ((String.append_left_inj _).mp same)
  relations := by
    apply nodup_map_of_finer (List.nodup_append.mp apart.constants).2.1
    intro left right _ _ same
    exact (String.append_left_inj _).mp same
  seeds := by
    apply nodup_map_of_finer (List.nodup_append.mp apart.types).2.1
    intro left right _ _ same
    exact Name.pascal_eq_of_camel_eq ((String.append_left_inj _).mp same)

end Names

/-- The collisions of a schema are exact, in whatever order claims are stored. -/
theorem collisions_exact (schema : Schema) : schema.CollisionsExact where
  none_iff := collisions_eq_nil_iff
  derived clean := (collisions_eq_nil_iff.mp clean).derived
  reported := collisionsAfter_eq fun _ => rfl
  unordered faults := by
    constructor
    · intro run
      exact eq_collisionsAfter_of_run run (List.Perm.refl _) (by decide)
    · rintro rfl
      exact run_collisionsAfter _ _

end Schema
end SchemaCompiler
