import SchemaCompiler.Proofs.Schema.Lookup
import SchemaCompiler.Schema.Collision

/-
Schemas without collisions.

Claims collide when they have use and name in common.  The scan of claims comes
back empty exactly when no claim collides with an earlier one, and then the names
claimed for each use differ.
-/

namespace SchemaCompiler

/-- What two claims that collide have in common. -/
def NameClaim.key (claim : NameClaim) : NameUse × String :=
  (claim.use, claim.name)

namespace Schema

theorem find?_claim_eq_none_iff {claim : NameClaim} {earlier : List NameClaim} :
    (earlier.find? fun other => other.use == claim.use && other.name == claim.name) = none ↔
      claim.key ∉ earlier.map NameClaim.key := by
  simp only [List.find?_eq_none, Bool.and_eq_true, beq_iff_eq, List.mem_map, NameClaim.key,
    Prod.mk.injEq, not_exists, not_and]

theorem collisionsAfter_eq_nil_iff {earlier claims : List NameClaim} :
    collisionsAfter earlier claims = [] ↔
      (claims.map NameClaim.key).Nodup ∧
        ∀ claim ∈ claims, claim.key ∉ earlier.map NameClaim.key := by
  induction claims generalizing earlier with
  | nil => simp only [collisionsAfter, List.map_nil, List.nodup_nil, List.not_mem_nil,
      false_implies, implies_true, and_self]
  | cons claim rest ih =>
      rw [List.map_cons, List.nodup_cons, collisionsAfter]
      cases found : earlier.find? fun other =>
          other.use == claim.use && other.name == claim.name with
      | some first =>
          constructor
          · intro none
            cases none
          · rintro ⟨_, unclaimed⟩
            have missing := find?_claim_eq_none_iff.mpr (unclaimed claim List.mem_cons_self)
            rw [found] at missing
            cases missing
      | none =>
          have unclaimed := find?_claim_eq_none_iff.mp found
          simp only [ih, List.map_append, List.map_cons, List.map_nil, List.mem_append,
            List.mem_singleton, not_or]
          constructor
          · rintro ⟨distinct, apart⟩
            refine ⟨⟨?_, distinct⟩, ?_⟩
            · intro inRest
              obtain ⟨other, member, same⟩ := List.mem_map.mp inRest
              exact (apart other member).2 same
            · intro other member
              rcases List.mem_cons.mp member with rfl | later
              · exact unclaimed
              · exact (apart other later).1
          · rintro ⟨⟨fresh, distinct⟩, apart⟩
            refine ⟨distinct, ?_⟩
            intro other member
            refine ⟨apart other (List.mem_cons_of_mem claim member), ?_⟩
            intro same
            exact fresh (List.mem_map.mpr ⟨other, member, same⟩)

/-- The names that are claimed for a use, in order. -/
def claimed (schema : Schema) (use : NameUse) : List String :=
  (schema.nameClaims.filter fun claim => claim.use == use).map NameClaim.name

private theorem names_of_one_claim {α : Type} {claims : α → List NameClaim}
    {keep : NameClaim → Bool} {name : α → String}
    (one : ∀ item, ((claims item).filter keep).map NameClaim.name = [name item])
    (items : List α) :
    ((items.flatMap claims).filter keep).map NameClaim.name = items.map name := by
  rw [List.filter_flatMap, List.map_flatMap, List.map_eq_flatMap]
  exact List.flatMap_congr fun item _ => one item

theorem claimed_module (schema : Schema) :
    schema.claimed .module =
      schema.tables.map fun table => (TableNames.ofTable table.name).stem := by
  have enums : (schema.enumerations.flatMap enumClaims).filter
      (fun claim => claim.use == .module) = [] := by
    rw [List.filter_flatMap, List.flatMap_eq_nil_iff]
    intro enumeration _
    rfl
  rw [claimed, nameClaims, List.filter_append, enums, List.nil_append]
  exact names_of_one_claim (fun _ => rfl) _

theorem claimed_storageConstant (schema : Schema) :
    schema.claimed .storageConstant =
      (schema.enumerations.map fun enumeration =>
          (EnumNames.ofEnumeration enumeration).storageConst) ++
        schema.tables.map fun table => (TableNames.ofTable table.name).tableConst := by
  rw [claimed, nameClaims, List.filter_append, List.map_append]
  congr 1
  · exact names_of_one_claim (fun _ => rfl) _
  · exact names_of_one_claim (fun _ => rfl) _

theorem claimed_typeStem (schema : Schema) :
    schema.claimed .typeStem =
      (schema.enumerations.map fun enumeration =>
          (EnumNames.ofEnumeration enumeration).typeName) ++
        schema.tables.map fun table => (TableNames.ofTable table.name).pascal := by
  rw [claimed, nameClaims, List.filter_append, List.map_append]
  congr 1
  · exact names_of_one_claim (fun _ => rfl) _
  · exact names_of_one_claim (fun _ => rfl) _

/-- Without collisions, the names claimed for each use differ. -/
theorem nodup_claimed {schema : Schema} (clean : schema.collisions = []) (use : NameUse) :
    (schema.claimed use).Nodup :=
  nodup_pairs_iff.mp (collisionsAfter_eq_nil_iff.mp clean).1 use

theorem nodup_stems {schema : Schema} (clean : schema.collisions = []) :
    (schema.tables.map fun table => (TableNames.ofTable table.name).stem).Nodup := by
  rw [← claimed_module]
  exact nodup_claimed clean .module

theorem nodup_tableConsts {schema : Schema} (clean : schema.collisions = []) :
    (schema.tables.map fun table => (TableNames.ofTable table.name).tableConst).Nodup := by
  have distinct := nodup_claimed clean .storageConstant
  rw [claimed_storageConstant] at distinct
  exact (List.nodup_append.mp distinct).2.1

theorem nodup_pascals {schema : Schema} (clean : schema.collisions = []) :
    (schema.tables.map fun table => (TableNames.ofTable table.name).pascal).Nodup := by
  have distinct := nodup_claimed clean .typeStem
  rw [claimed_typeStem] at distinct
  exact (List.nodup_append.mp distinct).2.1

/-- No table has the stem of a file that belongs to no table. -/
theorem stem_not_reserved {schema : Schema} (clean : schema.collisions = []) {table : Table}
    (member : table ∈ schema.tables) :
    (TableNames.ofTable table.name).stem ≠ enumsStem ∧
      (TableNames.ofTable table.name).stem ≠ indexStem := by
  have claims : (⟨table.name, .module, (TableNames.ofTable table.name).stem⟩ : NameClaim) ∈
      schema.nameClaims := by
    apply List.mem_append_right
    exact List.mem_flatMap.mpr ⟨table, member, List.mem_cons_self⟩
  have unclaimed := (collisionsAfter_eq_nil_iff.mp clean).2 _ claims
  simp only [reservedClaims, List.map_cons, List.map_nil, NameClaim.key, List.mem_cons,
    List.not_mem_nil, or_false, not_or, Prod.mk.injEq, true_and] at unclaimed
  exact unclaimed

end Schema
end SchemaCompiler
