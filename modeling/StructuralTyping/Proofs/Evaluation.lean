import StructuralTyping.Narrowing.Expression
import StructuralTyping.Proofs.Membership

namespace StructuralTyping

/-!
# Evaluation of expressions

The values that an expression may evaluate to at run time. There is no rule for
an expression that throws: reading a property of `null` or `undefined` without
optional access, or an unknown name. A constant evaluates to any value of its
type, and instance tests to either answer.
-/

/-- The types that narrowing is sound for: no names and no intersections. -/
def Fragment.narrowing : Fragment :=
  { any := true
    nan := false
    names := false
    intersections := false
    optional := true }

/-- Object types hold plain objects; optional properties may be `undefined`. -/
def Reading.narrowing : Reading :=
  { plainObjects := true
    undefinedOptional := true }

/-- The values of the names that are visible at a place. -/
abbrev Environment :=
  String → Option Value

mutual

/-- An expression evaluates to a value without throwing. -/
inductive Evaluates
    (arena : Arena)
    (environment : Environment) :
    Expression →
    Value →
    Prop
  | name :
      environment binding = some value →
      Evaluates arena environment (.name binding) value
  | constant :
      Holds .narrowing arena type value →
      value.NaNFree →
      Evaluates arena environment (.constant type) value
  | typeof :
      Evaluates arena environment operand value →
      Evaluates arena environment (.typeof operand) (.ofString value.tag)
  | instanceOf :
      Evaluates arena environment operand value →
      Evaluates arena environment (.instanceOf operand instanceType)
        (.ofBool answer)
  | isArray :
      Evaluates arena environment operand value →
      Evaluates arena environment (.isArray operand) (.ofBool value.isList)
  | member :
      Evaluates arena environment operand value →
      value.Reads property found →
      Evaluates arena environment (.member operand property chained) found
  | shortCircuit :
      ShortCircuits arena environment (.member operand property chained) →
      Evaluates arena environment (.member operand property chained)
        .undefined
  | not :
      Evaluates arena environment operand value →
      Evaluates arena environment (.not operand) (.ofBool !value.truthy)
  | strictEqual :
      Evaluates arena environment left first →
      Evaluates arena environment right second →
      first.StrictEqual second answer →
      Evaluates arena environment (.binary .strictEqual left right)
        (.ofBool answer)
  | strictNotEqual :
      Evaluates arena environment left first →
      Evaluates arena environment right second →
      first.StrictEqual second answer →
      Evaluates arena environment (.binary .strictNotEqual left right)
        (.ofBool !answer)
  | equal :
      Evaluates arena environment left first →
      Evaluates arena environment right second →
      (first.isNullish || second.isNullish) = true →
      Evaluates arena environment (.binary .equal left right)
        (.ofBool (first.isNullish && second.isNullish))
  | notEqual :
      Evaluates arena environment left first →
      Evaluates arena environment right second →
      (first.isNullish || second.isNullish) = true →
      Evaluates arena environment (.binary .notEqual left right)
        (.ofBool !(first.isNullish && second.isNullish))
  | andLeft :
      Evaluates arena environment left value →
      value.truthy = false →
      Evaluates arena environment (.binary .and left right) value
  | andRight :
      Evaluates arena environment left first →
      first.truthy = true →
      Evaluates arena environment right value →
      Evaluates arena environment (.binary .and left right) value
  | orLeft :
      Evaluates arena environment left value →
      value.truthy = true →
      Evaluates arena environment (.binary .or left right) value
  | orRight :
      Evaluates arena environment left first →
      first.truthy = false →
      Evaluates arena environment right value →
      Evaluates arena environment (.binary .or left right) value
  | coalesceLeft :
      Evaluates arena environment left value →
      value.isNullish = false →
      Evaluates arena environment (.binary .coalesce left right) value
  | coalesceRight :
      Evaluates arena environment left first →
      first.isNullish = true →
      Evaluates arena environment right value →
      Evaluates arena environment (.binary .coalesce left right) value
  | conditionalTrue :
      Evaluates arena environment test first →
      first.truthy = true →
      Evaluates arena environment positive value →
      Evaluates arena environment (.conditional test positive negative) value
  | conditionalFalse :
      Evaluates arena environment test first →
      first.truthy = false →
      Evaluates arena environment negative value →
      Evaluates arena environment (.conditional test positive negative) value

/-- A chain of accesses ends at an optional one on `null` or `undefined`. -/
inductive ShortCircuits
    (arena : Arena)
    (environment : Environment) :
    Expression →
    Prop
  | here :
      Evaluates arena environment operand value →
      value.isNullish = true →
      ShortCircuits arena environment (.member operand property true)
  | earlier :
      ShortCircuits arena environment operand →
      ShortCircuits arena environment (.member operand property chained)

end

/-- Every value of the environment is free of numbers that are none. -/
def Environment.NaNFree
    (environment : Environment) :
    Prop :=
  ∀ {name value}, environment name = some value → value.NaNFree

/-- What an expression evaluates to is free of numbers that are none. -/
theorem Evaluates.nanFree
    {environment : Environment}
    (proper : environment.NaNFree)
    (evaluates : Evaluates arena environment expression value) :
    value.NaNFree := by
  have truthValue : ∀ answer, (Value.ofBool answer).NaNFree :=
    fun answer => .constant rfl
  induction expression generalizing value with
  | name binding =>
      cases evaluates with
      | name found =>
          exact proper found
  | constant type =>
      cases evaluates with
      | constant _ properValue =>
          exact properValue
  | typeof operand _ =>
      cases evaluates
      exact .constant rfl
  | instanceOf operand instanceType _ =>
      cases evaluates
      exact truthValue _
  | isArray operand _ =>
      cases evaluates
      exact truthValue _
  | member operand property optional inductionHypothesis =>
      cases evaluates with
      | member operandEvaluates reads =>
          exact (inductionHypothesis operandEvaluates).reads reads
      | shortCircuit _ =>
          exact .undefined
  | not operand _ =>
      cases evaluates
      exact truthValue _
  | binary operator left right leftHypothesis rightHypothesis =>
      cases evaluates with
      | strictEqual _ _ _ =>
          exact truthValue _
      | strictNotEqual _ _ _ =>
          exact truthValue _
      | equal _ _ _ =>
          exact truthValue _
      | notEqual _ _ _ =>
          exact truthValue _
      | andLeft evaluates _ =>
          exact leftHypothesis evaluates
      | andRight _ _ evaluates =>
          exact rightHypothesis evaluates
      | orLeft evaluates _ =>
          exact leftHypothesis evaluates
      | orRight _ _ evaluates =>
          exact rightHypothesis evaluates
      | coalesceLeft evaluates _ =>
          exact leftHypothesis evaluates
      | coalesceRight _ _ evaluates =>
          exact rightHypothesis evaluates
  | conditional test positive negative _ positiveHypothesis
      negativeHypothesis =>
      cases evaluates with
      | conditionalTrue _ _ evaluates =>
          exact positiveHypothesis evaluates
      | conditionalFalse _ _ evaluates =>
          exact negativeHypothesis evaluates

namespace Expression

/-- Whether an expression is the constant `null` or `undefined`. -/
def isNullishConstant :
    Expression →
    Bool
  | constant type => type.isNullish
  | _ => false

/--
The expressions that narrowing is sound for. Constants have types of the
fragment, loose equality compares with `null` or `undefined`, and an instance
test does not guard anything.
-/
def supported :
    (guarding : Bool) →
    Expression →
    Bool
  | _, name _ => true
  | _, constant type => Fragment.narrowing.admits type
  | _, typeof operand => supported false operand
  | guarding, instanceOf operand _ => !guarding && supported false operand
  | _, isArray operand => supported false operand
  | _, member operand _ _ => supported false operand
  | guarding, not operand => supported guarding operand
  | guarding, binary .and left right =>
      supported true left && supported guarding right
  | guarding, binary .or left right =>
      supported true left && supported guarding right
  | guarding, binary .coalesce left right =>
      supported guarding left && supported guarding right
  | _, binary .strictEqual left right =>
      supported false left && supported false right
  | _, binary .strictNotEqual left right =>
      supported false left && supported false right
  | _, binary .equal left right =>
      supported false left && supported false right &&
        (left.isNullishConstant || right.isNullishConstant)
  | _, binary .notEqual left right =>
      supported false left && supported false right &&
        (left.isNullishConstant || right.isNullishConstant)
  | guarding, conditional test positive negative =>
      supported true test && supported guarding positive &&
        supported guarding negative

/-- What may guard something may be evaluated for its value. -/
theorem supported_of_guarding
    {expression : Expression}
    (guards : expression.supported true = true) :
    expression.supported false = true := by
  induction expression with
  | not operand inductionHypothesis =>
      exact inductionHypothesis guards
  | instanceOf operand instanceType _ =>
      simp [supported] at guards
  | binary operator left right leftHypothesis rightHypothesis =>
      cases operator <;> simp_all [supported]
  | conditional test positive negative _ positiveHypothesis
      negativeHypothesis =>
      simp_all [supported]
  | _ =>
      exact guards

end Expression

end StructuralTyping
