import StructuralTyping.Narrowing.Statement
import StructuralTyping.Proofs.Evaluation

namespace StructuralTyping

/-!
# Execution of function bodies

How a body runs on values. Expressions are evaluated without throwing, a block
ends with its first statement that returns, names declared in a block are gone
after it, and a switch runs the first clause with a label that strictly equals
its subject. Clauses do not fall through.

The inspecting statements of a body are numbered in written order, those of
both branches and all clauses included, so that a run can say which of them it
reaches.
-/

/-- The environment with one more name, which hides an older one. -/
def Environment.declare
    (environment : Environment)
    (name : String)
    (value : Value) :
    Environment :=
  fun other => if other = name then some value else environment other

/-- A declared value is free of numbers that are none when all others are. -/
theorem Environment.NaNFree.declare
    {environment : Environment}
    (proper : environment.NaNFree)
    (properValue : value.NaNFree) :
    (environment.declare name value).NaNFree := by
  intro other found valued
  unfold Environment.declare at valued
  split at valued
  · cases valued
    exact properValue
  · exact proper valued

/-- The value of an expression that may be left out. -/
inductive EvaluatesOptional
    (arena : Arena)
    (environment : Environment) :
    Option Expression →
    Value →
    Prop
  | missing :
      EvaluatesOptional arena environment none .undefined
  | present :
      Evaluates arena environment expression value →
      EvaluatesOptional arena environment (some expression) value

mutual

/-- The labels of the inspecting statements in a statement, in order. -/
def Statement.inspections :
    Statement →
    List String
  | .declare _ _ _ _ => []
  | .choose _ positive negative =>
      blockInspections positive ++ blockInspections negative
  | .switch _ clauses otherwise =>
      clauseInspections clauses ++ otherwiseInspections otherwise
  | .return _ => []
  | .inspect label _ => [label]

/-- The labels of the inspecting statements in a block, in order. -/
def blockInspections :
    List Statement →
    List String
  | [] => []
  | statement :: rest => statement.inspections ++ blockInspections rest

/-- The labels of the inspecting statements in the clauses of a switch. -/
def clauseInspections :
    List (Clause Statement) →
    List String
  | [] => []
  | ⟨_, body⟩ :: rest => blockInspections body ++ clauseInspections rest

/-- The labels of the inspecting statements in a default clause. -/
def otherwiseInspections :
    Option (List Statement) →
    List String
  | none => []
  | some body => blockInspections body

end

/-- An inspecting statement that a run reaches, and the value it has there. -/
structure Visit where
  number : Nat
  value : Value

/-- The visit as seen from where so many inspecting statements precede it. -/
def Visit.shift
    (before : List String)
    (visit : Visit) :
    Visit :=
  { visit with number := before.length + visit.number }

/-- How the run of a statement or a block ends. -/
inductive Ending where
  /-- With the next statement, where names have these values. -/
  | completed (environment : Environment)
  | returned

/-- The end of a block within an environment: what it declared is gone. -/
def Ending.leave
    (environment : Environment) :
    Ending →
    Ending
  | completed _ => completed environment
  | returned => returned

/-- A block is left without returning when it ends so. -/
theorem Ending.leave_eq_completed
    {ending : Ending} :
    ending.leave environment = .completed between ↔
      between = environment ∧ ∃ inner, ending = .completed inner := by
  cases ending <;> simp [leave, eq_comm]

/-- A block is left by returning when it returns. -/
@[simp] theorem Ending.leave_eq_returned
    {ending : Ending} :
    ending.leave environment = .returned ↔ ending = .returned := by
  cases ending <;> simp [leave]

/-- No label of a list equals a value. -/
def NoneMatches
    (value : Value)
    (labels : List CaseLabel) :
    Prop :=
  ∀ label ∈ labels, value.StrictEqual (.constant label.value) false

/-- Some label of a list equals a value. -/
def SomeMatches
    (value : Value)
    (labels : List CaseLabel) :
    Prop :=
  ∃ label ∈ labels, value.StrictEqual (.constant label.value) true

mutual

/-- A statement runs, visits inspecting statements and ends. -/
inductive Executes
    (arena : Arena) :
    Environment →
    Statement →
    List Visit →
    Ending →
    Prop
  | declare :
      EvaluatesOptional arena environment initial value →
      Executes arena environment (.declare name ascription initial policy) []
        (.completed (environment.declare name value))
  | inspect :
      Evaluates arena environment expression value →
      Executes arena environment (.inspect label expression)
        [{ number := 0, value }] (.completed environment)
  | return :
      EvaluatesOptional arena environment expression value →
      Executes arena environment (.return expression) [] .returned
  | positive {guard : Expression} :
      Evaluates arena environment guard value →
      value.truthy = true →
      ExecutesBlock arena environment positive visits ending →
      Executes arena environment (.choose guard positive negative) visits
        (ending.leave environment)
  | negative {guard : Expression} :
      Evaluates arena environment guard value →
      value.truthy = false →
      ExecutesBlock arena environment negative visits ending →
      Executes arena environment (.choose guard positive negative)
        (visits.map (Visit.shift (blockInspections positive)))
        (ending.leave environment)
  | clause :
      Evaluates arena environment subject value →
      ExecutesClauses arena environment value clauses visits ending →
      Executes arena environment (.switch subject clauses otherwise) visits
        (ending.leave environment)
  | otherwise :
      Evaluates arena environment subject value →
      NoneMatches value (Checker.allLabels clauses) →
      ExecutesBlock arena environment body visits ending →
      Executes arena environment (.switch subject clauses (some body))
        (visits.map (Visit.shift (clauseInspections clauses)))
        (ending.leave environment)
  | unmatched :
      Evaluates arena environment subject value →
      NoneMatches value (Checker.allLabels clauses) →
      Executes arena environment (.switch subject clauses none) []
        (.completed environment)

/-- The statements of a block run one after the other until one returns. -/
inductive ExecutesBlock
    (arena : Arena) :
    Environment →
    List Statement →
    List Visit →
    Ending →
    Prop
  | done :
      ExecutesBlock arena environment [] [] (.completed environment)
  | returns :
      Executes arena environment statement visits .returned →
      ExecutesBlock arena environment (statement :: rest) visits .returned
  | continues :
      Executes arena environment statement early (.completed between) →
      ExecutesBlock arena between rest late ending →
      ExecutesBlock arena environment (statement :: rest)
        (early ++ late.map (Visit.shift statement.inspections)) ending

/-- The first clause with a label that equals a value runs. -/
inductive ExecutesClauses
    (arena : Arena) :
    Environment →
    Value →
    List (Clause Statement) →
    List Visit →
    Ending →
    Prop
  | here :
      SomeMatches value labels →
      ExecutesBlock arena environment body visits ending →
      ExecutesClauses arena environment value (⟨labels, body⟩ :: rest) visits
        ending
  | later :
      NoneMatches value labels →
      ExecutesClauses arena environment value rest visits ending →
      ExecutesClauses arena environment value (⟨labels, body⟩ :: rest)
        (visits.map (Visit.shift (blockInspections body))) ending

end

namespace Value.StrictEqual

/-- Every value either equals a constant or does not. -/
theorem total
    (value : Value)
    (literal : Literal) :
    ∃ answer, value.StrictEqual (.constant literal) answer := by
  by_cases constant : ∃ other, value = .constant other
  · obtain ⟨other, rfl⟩ := constant
    exact ⟨_, .constant⟩
  · refine ⟨false, .distinct (fun other same => ?_) fun isNullish same => ?_⟩
    · exact absurd ⟨other, same⟩ constant
    · rw [← same] at isNullish
      cases isNullish

/-- A value does not both equal a constant and differ from it. -/
theorem unique
    {value : Value}
    {literal : Literal}
    (first : value.StrictEqual (.constant literal) answer)
    (second : value.StrictEqual (.constant literal) other) :
    answer = other := by
  have constantTag :
      (Value.constant literal).tag ≠ "object" ∧
        (Value.constant literal).tag ≠ "function" := by
    cases literal <;> simp [Value.tag, Literal.base, Primitive.name]
  cases first with
  | constant =>
      cases second with
      | constant =>
          rfl
      | identical isObject =>
          exact absurd isObject (not_or.mpr constantTag)
      | distinct different _ =>
          exact absurd rfl (different _ rfl _)
  | identical isObject =>
      exact absurd isObject (not_or.mpr constantTag)
  | distinct different _ =>
      cases second with
      | constant =>
          exact absurd rfl (different _ rfl _)
      | identical isObject =>
          exact absurd isObject (not_or.mpr constantTag)
      | distinct _ _ =>
          rfl

end Value.StrictEqual

/-- A value does not equal a label when it equals none of them. -/
theorem NoneMatches.not_someMatches
    (none : NoneMatches value labels) :
    ¬ SomeMatches value labels := by
  rintro ⟨label, inLabels, equal⟩
  cases (none label inLabels).unique equal

section Guards

variable {arena : Arena} {environment : Environment} {subject : Expression}

/-- A label stands for its own value, unless it is no number. -/
theorem evaluates_label
    {label : CaseLabel}
    (proper : label.value.isNaN = false) :
    Evaluates arena environment
      (.constant (.literal label.occurrence label.value))
      (.constant label.value) := by
  refine .constant (.literal ?_) (.constant proper)
  exact Literal.equal_self proper

/-- The guard of a matching clause evaluates to true. -/
theorem evaluates_anyLabel
    {labels : List CaseLabel}
    {guard : Expression}
    (proper : ∀ label ∈ labels, label.value.isNaN = false)
    (evaluates : Evaluates arena environment subject value)
    (found : SomeMatches value labels)
    (chained : anyLabel subject labels = some guard) :
    Evaluates arena environment guard (.ofBool true) := by
  have chain :
      ∀ {labels : List CaseLabel} {guard : Expression} {answer : Bool},
        (∀ label ∈ labels, label.value.isNaN = false) →
        Evaluates arena environment guard (.ofBool answer) →
        answer = true ∨ SomeMatches value labels →
        Evaluates arena environment
          (labels.foldl
            (fun guard label =>
              .binary .or guard
                (.binary .strictEqual subject
                  (.constant (.literal label.occurrence label.value))))
            guard)
          (.ofBool true) := by
    intro labels
    induction labels with
    | nil =>
        rintro guard answer _ evaluates (rfl | ⟨label, inLabels, _⟩)
        · exact evaluates
        · cases inLabels
    | cons label rest inductionHypothesis =>
        intro guard answer proper guardEvaluates found
        obtain ⟨properLabel, properRest⟩ := List.forall_mem_cons.mp proper
        cases answer with
        | true =>
            exact inductionHypothesis properRest
              (.orLeft guardEvaluates rfl) (.inl rfl)
        | false =>
            obtain ⟨answer, compared⟩ :=
              Value.StrictEqual.total value label.value
            refine inductionHypothesis properRest
              (.orRight guardEvaluates rfl
                (.strictEqual evaluates (evaluates_label properLabel)
                  compared)) ?_
            rcases found with impossible | ⟨other, inLabels, equal⟩
            · cases impossible
            · rcases List.mem_cons.mp inLabels with rfl | inRest
              · exact .inl (compared.unique equal)
              · exact .inr ⟨other, inRest, equal⟩
  cases labels with
  | nil =>
      cases chained
  | cons label rest =>
      cases chained
      obtain ⟨properLabel, properRest⟩ := List.forall_mem_cons.mp proper
      obtain ⟨answer, compared⟩ := Value.StrictEqual.total value label.value
      refine chain properRest
        (.strictEqual evaluates (evaluates_label properLabel) compared) ?_
      obtain ⟨other, inLabels, equal⟩ := found
      rcases List.mem_cons.mp inLabels with rfl | inRest
      · exact .inl (compared.unique equal)
      · exact .inr ⟨other, inRest, equal⟩

/-- The guard that nothing matches evaluates to true where nothing does. -/
theorem evaluates_noLabel
    {labels : List CaseLabel}
    {guard : Expression}
    (proper : ∀ label ∈ labels, label.value.isNaN = false)
    (evaluates : Evaluates arena environment subject value)
    (none : NoneMatches value labels)
    (chained : noLabel subject labels = some guard) :
    Evaluates arena environment guard (.ofBool true) := by
  have differs :
      ∀ label : CaseLabel, label.value.isNaN = false →
        value.StrictEqual (.constant label.value) false →
        Evaluates arena environment
          (.binary .strictNotEqual subject
            (.constant (.literal label.occurrence label.value)))
          (.ofBool true) :=
    fun label properLabel different =>
      .strictNotEqual evaluates (evaluates_label properLabel) different
  have chain :
      ∀ {labels : List CaseLabel} {guard : Expression},
        (∀ label ∈ labels, label.value.isNaN = false) →
        NoneMatches value labels →
        Evaluates arena environment guard (.ofBool true) →
        Evaluates arena environment
          (labels.foldl
            (fun guard label =>
              .binary .and guard
                (.binary .strictNotEqual subject
                  (.constant (.literal label.occurrence label.value))))
            guard)
          (.ofBool true) := by
    intro labels
    induction labels with
    | nil =>
        exact fun _ _ guardEvaluates => guardEvaluates
    | cons label rest inductionHypothesis =>
        intro guard proper none guardEvaluates
        obtain ⟨properLabel, properRest⟩ := List.forall_mem_cons.mp proper
        obtain ⟨different, restDiffers⟩ := List.forall_mem_cons.mp none
        exact inductionHypothesis properRest restDiffers
          (.andRight guardEvaluates rfl (differs label properLabel different))
  cases labels with
  | nil =>
      cases chained
  | cons label rest =>
      cases chained
      obtain ⟨properLabel, properRest⟩ := List.forall_mem_cons.mp proper
      obtain ⟨different, restDiffers⟩ := List.forall_mem_cons.mp none
      exact chain properRest restDiffers
        (differs label properLabel different)

end Guards

end StructuralTyping
