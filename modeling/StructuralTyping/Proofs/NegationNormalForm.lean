import StructuralTyping.Narrowing.Typing

namespace StructuralTyping

/-!
# Guards in negation normal form

Negations of a guard can be pushed inwards until they stand in front of leaves
only. What a guard proves is unchanged: the branches of `&&` and `||`, of the
conditional and of the four comparisons mirror each other, down to the order in
which operands are analysed, so that the same facts and the same diagnostics
come out. The operands of a comparison or of `??` are values and no guards; they
are left as they are.
-/

namespace Operator

/-- The operator that stands for the negation of another one; `??` has none. -/
def opposite? :
    Operator →
    Option Operator
  | strictEqual => some strictNotEqual
  | strictNotEqual => some strictEqual
  | equal => some notEqual
  | notEqual => some equal
  | and => some or
  | or => some and
  | coalesce => none

/-- Whether the operands of an operator are guards themselves. -/
def isConnective :
    Operator →
    Bool
  | and => true
  | or => true
  | _ => false

end Operator

namespace Expression

/-- The expression, or its negation written in front of it. -/
def negatedIf
    (negated : Bool)
    (expression : Expression) :
    Expression :=
  if negated then .not expression else expression

/--
Push a pending negation into a guard: through the connectives, which take
turns, through the branches of a conditional, but not its test, and into the
sign of a comparison. Two negations cancel out.
-/
def pushNegation :
    (negated : Bool) →
    Expression →
    Expression
  | negated, .not operand => pushNegation (!negated) operand
  | negated, .conditional test positive negative =>
      .conditional (pushNegation false test) (pushNegation negated positive)
        (pushNegation negated negative)
  | negated, .binary operator left right =>
      let pushed (operator : Operator) : Expression :=
        if operator.isConnective then
          .binary operator (pushNegation negated left)
            (pushNegation negated right)
        else
          .binary operator left right
      if negated then
        match operator.opposite? with
        | some opposite => pushed opposite
        | none => .not (.binary operator left right)
      else
        pushed operator
  | negated, leaf => negatedIf negated leaf

/-- The guard with all negations pushed inwards. -/
def negationNormal
    (guard : Expression) :
    Expression :=
  guard.pushNegation false

/-- Negations stand in front of leaves and of `??` only. -/
inductive NegationNormal :
    Expression →
    Prop
  | name :
      NegationNormal (negatedIf negated (.name binding))
  | constant :
      NegationNormal (negatedIf negated (.constant type))
  | typeof :
      NegationNormal (negatedIf negated (.typeof operand))
  | instanceOf :
      NegationNormal (negatedIf negated (.instanceOf operand instanceType))
  | isArray :
      NegationNormal (negatedIf negated (.isArray operand))
  | member :
      NegationNormal (negatedIf negated (.member operand property chained))
  | coalesce :
      NegationNormal (negatedIf negated (.binary .coalesce left right))
  | comparison :
      operator.isConnective = false →
      NegationNormal (.binary operator left right)
  | connective :
      operator.isConnective = true →
      NegationNormal left →
      NegationNormal right →
      NegationNormal (.binary operator left right)
  | conditional :
      NegationNormal test →
      NegationNormal positive →
      NegationNormal negative →
      NegationNormal (.conditional test positive negative)

/-- Pushing negations inwards leaves them in front of leaves only. -/
theorem negationNormal_pushNegation
    (guard : Expression)
    (negated : Bool) :
    NegationNormal (guard.pushNegation negated) := by
  induction guard generalizing negated with
  | name => exact .name
  | constant => exact .constant
  | typeof => exact .typeof
  | instanceOf => exact .instanceOf
  | isArray => exact .isArray
  | member => exact .member
  | not operand operandNormal => exact operandNormal _
  | conditional test positive negative testNormal positiveNormal negativeNormal =>
      exact .conditional (testNormal false) (positiveNormal negated)
        (negativeNormal negated)
  | binary operator left right leftNormal rightNormal =>
      have connective {operator : Operator} (isConnective : operator.isConnective) :
          NegationNormal
            (.binary operator (left.pushNegation negated)
              (right.pushNegation negated)) :=
        .connective isConnective (leftNormal negated) (rightNormal negated)
      cases operator with
      | and | or =>
          cases negated <;> exact connective rfl
      | strictEqual | strictNotEqual | equal | notEqual =>
          cases negated <;> exact .comparison rfl
      | coalesce =>
          exact @NegationNormal.coalesce negated left right

end Expression

namespace Checker

variable (checker : Checker)

/-- A pending negation exchanges the branches of a guard. -/
theorem refine_pushNegation
    (guard : Expression)
    (negated : Bool)
    (view : View)
    (branch : Bool) :
    checker.refine view (guard.pushNegation negated) branch =
      checker.refine view guard (branch != negated) := by
  induction guard generalizing negated view branch with
  | name | constant | typeof | instanceOf | isArray | member =>
      cases negated <;> cases branch <;> rfl
  | not operand pushed =>
      rw [Expression.pushNegation, pushed, refine]
      cases negated <;> cases branch <;> rfl
  | conditional test positive negative testPushed positivePushed negativePushed =>
      simp only [Expression.pushNegation, refine, testPushed, positivePushed,
        negativePushed, Bool.bne_false]
  | binary operator left right leftPushed rightPushed =>
      cases operator with
      -- The connectives differ in which branch of the left operand comes first.
      | and | or =>
          cases negated <;> cases branch <;>
            simp [Expression.pushNegation, Operator.opposite?,
              Operator.isConnective, refine, leftPushed, rightPushed]
      | strictEqual | strictNotEqual | equal | notEqual | coalesce =>
          cases negated <;> cases branch <;> rfl

/--
Guards may be put in negation normal form. In every scope and on both branches,
the normal form proves the same facts as the guard and reports the same
diagnostics, whatever was reported before.
-/
theorem refineScope_negationNormal
    (guard : Expression) :
    guard.negationNormal.NegationNormal ∧
      ∀ scope branch,
        checker.refineScope scope guard.negationNormal branch =
          checker.refineScope scope guard branch := by
  constructor
  · exact guard.negationNormal_pushNegation false
  · intro scope branch
    have same (view : View) :
        checker.refine view guard.negationNormal branch =
          checker.refine view guard branch := by
      rw [Expression.negationNormal, refine_pushNegation, Bool.bne_false]
    simp only [refineScope, same]

/-- `!(x && !(y === null))` becomes `!x || y === null`. -/
example :
    (Expression.not
        (.binary .and (.name "x")
          (.not
            (.binary .strictEqual (.name "y") (.constant .null))))).negationNormal =
      .binary .or (.not (.name "x"))
        (.binary .strictEqual (.name "y") (.constant .null)) := by
  decide

end Checker

end StructuralTyping
