import StructuralTyping.Arena

namespace StructuralTyping

/-!
# Structural identity

Two types are identical when they have the same structure: members of unions
and intersections are compared as sets and property order is ignored. Names
are replaced by their definitions on the way; meeting a pair of types again
while it is being compared closes a cycle and counts as equal. Trees nested
deeper than a fixed bound are never identical.
-/

/-- The nesting depth beyond which types are no longer identified. -/
def identityDepth : Nat :=
  256

/-- Pairs of types under comparison, at least one of them a name. -/
abbrev OpenPairs :=
  List (Ty × Ty)

/-- What replacing names by their definitions led to. -/
inductive Unfolding where
  /-- The types are one node, or the pair is under comparison already. -/
  | closed
  /-- A type is missing, or a name has no definition. -/
  | stuck
  /-- Two types that are no names, with all pairs met on the way. -/
  | exposed (pairs : OpenPairs) (first second : Ty)
  deriving Repr, DecidableEq

/--
The definition of a name, if it has one; every other type is its own
definition.
-/
def Arena.unfold?
    (arena : Arena) :
    Ty →
    Option Ty
  | .named reference =>
      match arena.definition reference with
      | .absent => none
      | definition => some definition
  | type => some type

/-- Whether a type is a name. -/
def Ty.isNamed :
    Ty →
    Bool
  | .named _ => true
  | _ => false

/-- Replace names on both sides by their definitions, `hops` times at most. -/
def Arena.unfoldPair
    (arena : Arena) :
    (hops : Nat) →
    OpenPairs →
    Ty →
    Ty →
    Unfolding
  | hops, pairs, first, second =>
      if first.sameNode second then
        .closed
      else if first.isAbsent || second.isAbsent then
        .stuck
      else if first.isNamed || second.isNamed then
        if pairs.contains (first, second) then
          .closed
        else
          match hops, arena.unfold? first, arena.unfold? second with
          | hops + 1, some firstDefinition, some secondDefinition =>
              arena.unfoldPair hops ((first, second) :: pairs)
                firstDefinition secondDefinition
          | _, _, _ => .stuck
      else
        .exposed pairs first second

/--
How many steps unfolding two names can take before a pair comes back: each side
runs through the declared names and at most one type that is no name.
-/
def Arena.pairHops
    (arena : Arena) :
    Nat :=
  (arena.size + 1) * (arena.size + 1)

/-- Whether some member of a list is equal to a type. -/
def containsMember
    (equal : Ty → Ty → Bool)
    (members : List Ty)
    (type : Ty) :
    Bool :=
  members.any fun member => equal member type

/-- Whether two member lists are equal as sets. -/
def sameMembers
    (equal : Ty → Ty → Bool)
    (first second : List Ty) :
    Bool :=
  first.all (containsMember equal second) &&
    second.all (containsMember equal first)

/-- Whether two lists of types are equal position by position. -/
def equalLists
    (equal : Ty → Ty → Bool) :
    List Ty →
    List Ty →
    Bool
  | [], [] => true
  | first :: firstRest, second :: secondRest =>
      equal first second && equalLists equal firstRest secondRest
  | _, _ => false

/-- Whether two parameter lists are equal position by position, names aside. -/
def equalParameters
    (equal : Ty → Ty → Bool) :
    List (Parameter Ty) →
    List (Parameter Ty) →
    Bool
  | [], [] => true
  | first :: firstRest, second :: secondRest =>
      first.optional == second.optional && equal first.type second.type &&
        equalParameters equal firstRest secondRest
  | _, _ => false

/-- Whether two optional index signatures are equal. -/
def equalIndex
    (equal : Ty → Ty → Bool) :
    Option (IndexSignature Ty) →
    Option (IndexSignature Ty) →
    Bool
  | none, none => true
  | some first, some second =>
      equal first.key second.key && equal first.value second.value
  | _, _ => false

/-- Whether a property has an equal counterpart of its name in a shape. -/
def equalProperty
    (equal : Ty → Ty → Bool)
    (shape : Shape Ty)
    (property : Property Ty) :
    Bool :=
  match shape.property? property.name with
  | some other =>
      property.optional == other.optional &&
        property.readonly == other.readonly &&
        equal property.type other.type
  | none => false

/-- Compare two nodes that are no names, given the comparison of their parts. -/
def equalNodes
    (equal : Ty → Ty → Bool) :
    Ty →
    Ty →
    Bool
  | .primitive first, .primitive second => first == second
  | .literal _ first, .literal _ second => first.equal second
  | .object _ first, .object _ second =>
      first.properties.length == second.properties.length &&
        first.properties.all (equalProperty equal second) &&
        equalIndex equal first.index second.index
  | .array _ first firstReadonly, .array _ second secondReadonly =>
      firstReadonly == secondReadonly && equal first second
  | .tuple _ first firstReadonly, .tuple _ second secondReadonly =>
      firstReadonly == secondReadonly && equalLists equal first second
  | .function _ first, .function _ second =>
      first.method == second.method &&
        equalParameters equal first.parameters second.parameters &&
        first.rest.isAbsent == second.rest.isAbsent &&
        (first.rest.isAbsent || equal first.rest second.rest) &&
        equal (first.result.orElse .void) (second.result.orElse .void)
  | .union _ first, .union _ second => sameMembers equal first second
  | .intersection _ first, .intersection _ second =>
      sameMembers equal first second
  | .generic _ first, .generic _ second =>
      first.utility == second.utility && equal first.base second.base &&
        equalLists equal first.arguments second.arguments
  | _, _ => false

/-- Structural identity of types nested less than `depth` deep. -/
def Arena.identicalWithin
    (arena : Arena) :
    (depth : Nat) →
    OpenPairs →
    Ty →
    Ty →
    Bool
  | depth, pairs, first, second =>
      match arena.unfoldPair arena.pairHops pairs first second with
      | .closed => true
      | .stuck => false
      | .exposed pairs first second =>
          match depth with
          | 0 => false
          | depth + 1 =>
              equalNodes (arena.identicalWithin depth pairs) first second

/-- Structural identity of types. -/
def Arena.identical
    (arena : Arena)
    (first second : Ty) :
    Bool :=
  arena.identicalWithin identityDepth [] first second

end StructuralTyping
