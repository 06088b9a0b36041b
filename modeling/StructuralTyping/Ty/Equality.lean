import StructuralTyping.Ty

namespace StructuralTyping.Ty

/-!
# Equality of type trees

Decidable equality of types, and the relation drawn from it: `sameNode`, which
tells one written node from its copies.
-/

mutual

/-- Whether two types are the same tree, occurrences included. -/
def agree :
    Ty →
    Ty →
    Bool
  | absent, absent => true
  | primitive first, primitive second => first == second
  | literal i first, literal j second => i == j && first == second
  | named first, named second => first == second
  | object i first, object j second =>
      i == j && agreeProperties first.properties second.properties &&
        agreeIndex first.index second.index
  | array i first firstReadonly, array j second secondReadonly =>
      i == j && firstReadonly == secondReadonly && agree first second
  | tuple i first firstReadonly, tuple j second secondReadonly =>
      i == j && firstReadonly == secondReadonly && agreeAll first second
  | function i first, function j second =>
      i == j && first.method == second.method &&
        agreeParameters first.parameters second.parameters &&
        agree first.rest second.rest && agree first.result second.result
  | union i first, union j second => i == j && agreeAll first second
  | intersection i first, intersection j second =>
      i == j && agreeAll first second
  | generic i first, generic j second =>
      i == j && first.utility == second.utility &&
        agree first.base second.base &&
        agreeAll first.arguments second.arguments
  | _, _ => false
termination_by structural first => first

/-- Whether two lists of types agree member by member. -/
def agreeAll :
    List Ty →
    List Ty →
    Bool
  | [], [] => true
  | first :: firstRest, second :: secondRest =>
      agree first second && agreeAll firstRest secondRest
  | _, _ => false
termination_by structural first => first

/-- Whether two property lists agree member by member. -/
def agreeProperties :
    List (Property Ty) →
    List (Property Ty) →
    Bool
  | [], [] => true
  | first :: firstRest, second :: secondRest =>
      first.name == second.name && first.optional == second.optional &&
        first.readonly == second.readonly &&
        agree first.type second.type &&
        agreeProperties firstRest secondRest
  | _, _ => false
termination_by structural first => first

/-- Whether two parameter lists agree member by member. -/
def agreeParameters :
    List (Parameter Ty) →
    List (Parameter Ty) →
    Bool
  | [], [] => true
  | first :: firstRest, second :: secondRest =>
      first.name == second.name && first.optional == second.optional &&
        agree first.type second.type &&
        agreeParameters firstRest secondRest
  | _, _ => false
termination_by structural first => first

/-- Whether two optional index signatures agree. -/
def agreeIndex :
    Option (IndexSignature Ty) →
    Option (IndexSignature Ty) →
    Bool
  | none, none => true
  | some first, some second =>
      agree first.key second.key && agree first.value second.value
  | _, _ => false
termination_by structural first => first

end

mutual

/-- Agreement is equality. -/
theorem eq_of_agree :
    (first second : Ty) →
    agree first second = true →
    first = second
  | absent, second, holds => by
      cases second <;> simp_all [agree]
  | primitive kind, second, holds => by
      cases second <;> simp_all [agree]
  | literal occurrence value, second, holds => by
      cases second <;> simp_all [agree]
  | named reference, second, holds => by
      cases second <;> simp_all [agree]
  | object occurrence ⟨properties, index⟩, second, holds => by
      cases second <;> simp only [agree, Bool.and_eq_true, beq_iff_eq,
        Bool.false_eq_true] at holds
      obtain ⟨⟨same, propertiesAgree⟩, indexAgree⟩ := holds
      rw [same, eq_of_agreeProperties _ _ propertiesAgree,
        eq_of_agreeIndex _ _ indexAgree]
  | array occurrence element readonly, second, holds => by
      cases second <;> simp only [agree, Bool.and_eq_true, beq_iff_eq,
        Bool.false_eq_true] at holds
      obtain ⟨⟨same, flags⟩, elementsAgree⟩ := holds
      rw [same, flags, eq_of_agree _ _ elementsAgree]
  | tuple occurrence elements readonly, second, holds => by
      cases second <;> simp only [agree, Bool.and_eq_true, beq_iff_eq,
        Bool.false_eq_true] at holds
      obtain ⟨⟨same, flags⟩, elementsAgree⟩ := holds
      rw [same, flags, eq_of_agreeAll _ _ elementsAgree]
  | function occurrence ⟨parameters, rest, result, method⟩, second, holds => by
      cases second <;> simp only [agree, Bool.and_eq_true, beq_iff_eq,
        Bool.false_eq_true] at holds
      obtain ⟨⟨⟨⟨same, flags⟩, parametersAgree⟩, restAgree⟩, resultAgree⟩ := holds
      rw [same, flags, eq_of_agreeParameters _ _ parametersAgree,
        eq_of_agree _ _ restAgree, eq_of_agree _ _ resultAgree]
  | union occurrence members, second, holds => by
      cases second <;> simp only [agree, Bool.and_eq_true, beq_iff_eq,
        Bool.false_eq_true] at holds
      rw [holds.1, eq_of_agreeAll _ _ holds.2]
  | intersection occurrence members, second, holds => by
      cases second <;> simp only [agree, Bool.and_eq_true, beq_iff_eq,
        Bool.false_eq_true] at holds
      rw [holds.1, eq_of_agreeAll _ _ holds.2]
  | generic occurrence ⟨utility, base, arguments⟩, second, holds => by
      cases second <;> simp only [agree, Bool.and_eq_true, beq_iff_eq,
        Bool.false_eq_true] at holds
      obtain ⟨⟨⟨same, utilities⟩, basesAgree⟩, argumentsAgree⟩ := holds
      rw [same, utilities, eq_of_agree _ _ basesAgree,
        eq_of_agreeAll _ _ argumentsAgree]
termination_by structural first => first

/-- Agreement of lists is equality. -/
theorem eq_of_agreeAll :
    (first second : List Ty) →
    agreeAll first second = true →
    first = second
  | [], second, holds => by
      cases second <;> simp_all [agreeAll]
  | member :: rest, second, holds => by
      cases second <;> simp only [agreeAll, Bool.and_eq_true,
        Bool.false_eq_true] at holds
      rw [eq_of_agree _ _ holds.1, eq_of_agreeAll _ _ holds.2]
termination_by structural first => first

/-- Agreement of property lists is equality. -/
theorem eq_of_agreeProperties :
    (first second : List (Property Ty)) →
    agreeProperties first second = true →
    first = second
  | [], second, holds => by
      cases second <;> simp_all [agreeProperties]
  | ⟨name, type, optional, readonly⟩ :: rest, second, holds => by
      cases second <;> simp only [agreeProperties, Bool.and_eq_true, beq_iff_eq,
        Bool.false_eq_true] at holds
      obtain ⟨⟨⟨⟨names, optionals⟩, readonlys⟩, typesAgree⟩, restAgree⟩ := holds
      rw [names, optionals, readonlys, eq_of_agree _ _ typesAgree,
        eq_of_agreeProperties _ _ restAgree]
termination_by structural first => first

/-- Agreement of parameter lists is equality. -/
theorem eq_of_agreeParameters :
    (first second : List (Parameter Ty)) →
    agreeParameters first second = true →
    first = second
  | [], second, holds => by
      cases second <;> simp_all [agreeParameters]
  | ⟨name, type, optional⟩ :: rest, second, holds => by
      cases second <;> simp only [agreeParameters, Bool.and_eq_true, beq_iff_eq,
        Bool.false_eq_true] at holds
      obtain ⟨⟨⟨names, optionals⟩, typesAgree⟩, restAgree⟩ := holds
      rw [names, optionals, eq_of_agree _ _ typesAgree,
        eq_of_agreeParameters _ _ restAgree]
termination_by structural first => first

/-- Agreement of index signatures is equality. -/
theorem eq_of_agreeIndex :
    (first second : Option (IndexSignature Ty)) →
    agreeIndex first second = true →
    first = second
  | none, second, holds => by
      cases second <;> simp_all [agreeIndex]
  | some ⟨key, value⟩, second, holds => by
      cases second <;> simp only [agreeIndex, Bool.and_eq_true,
        Bool.false_eq_true] at holds
      rw [eq_of_agree _ _ holds.1, eq_of_agree _ _ holds.2]
termination_by structural first => first

end

mutual

/-- Every type agrees with itself. -/
theorem agree_self :
    (type : Ty) →
    agree type type = true
  | absent => rfl
  | primitive kind => by simp [agree]
  | literal occurrence value => by simp [agree]
  | named reference => by simp [agree]
  | object occurrence ⟨properties, index⟩ => by
      simp [agree, agreeProperties_self properties, agreeIndex_self index]
  | array occurrence element readonly => by
      simp [agree, agree_self element]
  | tuple occurrence elements readonly => by
      simp [agree, agreeAll_self elements]
  | function occurrence ⟨parameters, rest, result, method⟩ => by
      simp [agree, agreeParameters_self parameters, agree_self rest,
        agree_self result]
  | union occurrence members => by
      simp [agree, agreeAll_self members]
  | intersection occurrence members => by
      simp [agree, agreeAll_self members]
  | generic occurrence ⟨utility, base, arguments⟩ => by
      simp [agree, agree_self base, agreeAll_self arguments]
termination_by structural type => type

/-- Every list of types agrees with itself. -/
theorem agreeAll_self :
    (types : List Ty) →
    agreeAll types types = true
  | [] => rfl
  | type :: rest => by
      simp [agreeAll, agree_self type, agreeAll_self rest]
termination_by structural types => types

/-- Every property list agrees with itself. -/
theorem agreeProperties_self :
    (properties : List (Property Ty)) →
    agreeProperties properties properties = true
  | [] => rfl
  | ⟨name, type, optional, readonly⟩ :: rest => by
      simp [agreeProperties, agree_self type, agreeProperties_self rest]
termination_by structural properties => properties

/-- Every parameter list agrees with itself. -/
theorem agreeParameters_self :
    (parameters : List (Parameter Ty)) →
    agreeParameters parameters parameters = true
  | [] => rfl
  | ⟨name, type, optional⟩ :: rest => by
      simp [agreeParameters, agree_self type, agreeParameters_self rest]
termination_by structural parameters => parameters

/-- Every optional index signature agrees with itself. -/
theorem agreeIndex_self :
    (index : Option (IndexSignature Ty)) →
    agreeIndex index index = true
  | none => rfl
  | some ⟨key, value⟩ => by
      simp [agreeIndex, agree_self key, agree_self value]
termination_by structural index => index

end

/-- Agreement decides equality. -/
theorem agree_iff_eq
    {first second : Ty} :
    agree first second = true ↔ first = second :=
  ⟨eq_of_agree first second, fun same => same ▸ agree_self first⟩

instance : DecidableEq Ty :=
  fun _ _ =>
    decidable_of_iff _ agree_iff_eq

/--
Whether a type is one shared node wherever it occurs: a primitive, a reference,
a type left out, or a node with an occurrence number.
-/
def isShared :
    Ty →
    Bool
  | absent => true
  | primitive _ => true
  | named _ => true
  | literal occurrence _ => occurrence.isSome
  | object occurrence _ => occurrence.isSome
  | array occurrence _ _ => occurrence.isSome
  | tuple occurrence _ _ => occurrence.isSome
  | function occurrence _ => occurrence.isSome
  | union occurrence _ => occurrence.isSome
  | intersection occurrence _ => occurrence.isSome
  | generic occurrence _ => occurrence.isSome

/-- Whether two types are one and the same node. -/
def sameNode
    (first second : Ty) :
    Bool :=
  first.isShared && decide (first = second)

end StructuralTyping.Ty
