import StructuralTyping.Identity

namespace StructuralTyping

/-!
# Inference of binding types

The declared type of a binding without a written type is inferred from its
initial value. A policy says which literals survive: none, a literal that is
the whole type, or all of them in a frozen type.
-/

/-- How the literals of an inferred binding widen. -/
inductive WideningPolicy where
  /-- Every literal widens. -/
  | mutable
  /-- A literal that is the whole type stays, nested ones widen. -/
  | preserve
  /-- Every literal stays, and arrays, tuples and properties become readonly. -/
  | asConst
  deriving Repr, DecidableEq

/-- The name of a policy. -/
def WideningPolicy.name :
    WideningPolicy →
    String
  | mutable => "mutable"
  | preserve => "preserve"
  | asConst => "as-const"

/-- Append a type unless an identical one is there. -/
def Arena.appendUnique
    (arena : Arena)
    (types : List Ty)
    (type : Ty) :
    List Ty :=
  if types.any (arena.identical · type) then
    types
  else
    types ++ [type]

/-- A union of types without repetitions; a single type stands for itself. -/
def Arena.unionOfDistinct
    (arena : Arena)
    (types : List Ty) :
    Ty :=
  match types.foldl arena.appendUnique [] with
  | [type] => type
  | types => .ofUnion types

namespace Ty

mutual

/--
Widen literals in unions, properties and elements. Names, functions,
intersections, utility applications and index signatures are left alone.
-/
def widen
    (arena : Arena) :
    Ty →
    Ty
  | literal _ value => primitive value.base
  | union _ members => arena.unionOfDistinct (widenAll arena members)
  | object _ shape =>
      ofShape { shape with properties := widenProperties arena shape.properties }
  | array _ element readonly => array none (widen arena element) readonly
  | tuple _ elements readonly => tuple none (widenAll arena elements) readonly
  | type => type

/-- Widen every type of a list. -/
def widenAll
    (arena : Arena) :
    List Ty →
    List Ty
  | [] => []
  | type :: rest => widen arena type :: widenAll arena rest

/-- Widen every property type. -/
def widenProperties
    (arena : Arena) :
    List (Property Ty) →
    List (Property Ty)
  | [] => []
  | property :: rest =>
      { property with type := widen arena property.type } ::
        widenProperties arena rest

end

mutual

/-- Make properties, arrays and tuples readonly, through all of their parts. -/
def freeze :
    Ty →
    Ty
  | object _ shape =>
      ofShape { shape with properties := freezeProperties shape.properties }
  | array _ element _ => array none (freeze element) true
  | tuple _ elements _ => tuple none (freezeAll elements) true
  | type => type

/-- Freeze every type of a list. -/
def freezeAll :
    List Ty →
    List Ty
  | [] => []
  | type :: rest => freeze type :: freezeAll rest

/-- Freeze every property and mark it readonly. -/
def freezeProperties :
    List (Property Ty) →
    List (Property Ty)
  | [] => []
  | property :: rest =>
      { property with type := freeze property.type, readonly := true } ::
        freezeProperties rest

end

end Ty

/-- The declared type of a binding that starts with a value of a type. -/
def WideningPolicy.infer
    (arena : Arena)
    (policy : WideningPolicy)
    (type : Ty) :
    Ty :=
  match policy, type with
  | asConst, _ => type.freeze
  | preserve, .literal _ _ => type
  | _, _ => type.widen arena

end StructuralTyping
