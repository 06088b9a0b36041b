import StructuralTyping.Checker

namespace StructuralTyping

/-!
# Reasons of a mismatch

Why one type cannot be used where another is expected. A mismatch is explained
by a path of reasons, from the whole types down to the offending part.
-/

/-- One step in the explanation of a mismatch. -/
inductive Reason where
  | depthBound (bound : Nat)
  | unknownSource
  | neverTarget
  | unionMember (member target : Ty)
  | noUnionMember (source target : Ty)
  | intersectionMember (member : Ty)
  | noIntersectionMember (source target : Ty)
  | notAssignable (source target : Ty)
  | notTheLiteral (source target : Ty)
  | undefinedName (name : String)
  | failedEvaluation (error : UtilityError)
  | notAnObject (source : Ty)
  | noProperties (source : Ty)
  | missingProperty (name : String) (source : Ty)
  | optionalProperty (name : String) (source target : Ty)
  | inProperty (name : String)
  | outsideIndex (name : String) (value : Ty)
  | indexValue (source target : Ty)
  | readonlySource (source target : Ty)
  | inArrayElement
  | inTupleElement (position : Nat)
  | notAnArray (source : Ty)
  | notATuple (source : Ty)
  | tupleLength (given required : Nat)
  | notCallable (source : Ty)
  | unsuppliedParameter (position supplied : Nat)
  | inParameter (position : Nat)
  | inRestParameterAt (position : Nat)
  | inRestParameter
  | inReturnType
  deriving Repr, DecidableEq

/-- The wording of a reason. -/
def Reason.message :
    Reason →
    String
  | depthBound bound => "comparison exceeds depth bound " ++ toString bound
  | unknownSource => "unknown is only assignable to unknown and any"
  | neverTarget => "nothing is assignable to never"
  | unionMember member target =>
      "union member " ++ member.shown ++ " is not assignable to " ++
        target.shown
  | noUnionMember source target =>
      source.shown ++ " is not assignable to any member of " ++ target.shown
  | intersectionMember member =>
      "not assignable to intersection member " ++ member.shown
  | noIntersectionMember source target =>
      "no member of " ++ source.shown ++ " is assignable to " ++ target.shown
  | notAssignable source target =>
      source.shown ++ " is not assignable to " ++ target.shown
  | notTheLiteral source target =>
      source.shown ++ " is not the literal " ++ target.shown
  | undefinedName name => "type " ++ name ++ " is declared but never defined"
  | failedEvaluation error => error.message
  | notAnObject source => source.shown ++ " is not an object"
  | noProperties source => source.shown ++ " has no properties"
  | missingProperty name source =>
      "property " ++ Text.quoted name ++ " is missing in " ++ source.shown
  | optionalProperty name source target =>
      "property " ++ Text.quoted name ++ " is optional in " ++ source.shown ++
        " but required in " ++ target.shown
  | inProperty name => "in property " ++ Text.quoted name
  | outsideIndex name value =>
      "property " ++ Text.quoted name ++
        " does not satisfy index signature " ++ value.shown
  | indexValue source target =>
      "index signature value " ++ source.shown ++ " is not assignable to " ++
        target.shown
  | readonlySource source target =>
      source.shown ++ " is readonly and cannot be used as mutable " ++
        target.shown
  | inArrayElement => "in array element"
  | inTupleElement position => "in tuple element " ++ toString position
  | notAnArray source => source.shown ++ " is not an array"
  | notATuple source => source.shown ++ " is not a tuple"
  | tupleLength given required =>
      "tuple has " ++ toString given ++ " elements but " ++
        toString required ++ " are required"
  | notCallable source => source.shown ++ " is not callable"
  | unsuppliedParameter position supplied =>
      "parameter " ++ toString position ++
        " is required but the target supplies only " ++ toString supplied
  | inParameter position => "in parameter " ++ toString position
  | inRestParameterAt position =>
      "in rest parameter at position " ++ toString position
  | inRestParameter => "in rest parameter"
  | inReturnType => "in return type"

/-- A failed assignment with its explanation, outermost reason first. -/
structure Mismatch where
  source : Ty
  target : Ty
  reasons : List Reason
  deriving Repr, DecidableEq

namespace Mismatch

/-- The headline of a mismatch. -/
def headline
    (mismatch : Mismatch) :
    String :=
  "type " ++ mismatch.source.shown ++ " is not assignable to type " ++
    mismatch.target.shown

/-- The headline followed by all reasons. -/
def message
    (mismatch : Mismatch) :
    String :=
  String.intercalate ": "
    (mismatch.headline :: mismatch.reasons.map Reason.message)

/-- The mismatch as a diagnostic whose proof is the path of reasons. -/
def diagnostic
    (mismatch : Mismatch) :
    Diagnostic :=
  { stage := .assign
    severity := .error
    code := .typeMismatch
    message := mismatch.headline
    proof :=
      mismatch.reasons.map fun reason => { message := reason.message } }

end Mismatch

end StructuralTyping
