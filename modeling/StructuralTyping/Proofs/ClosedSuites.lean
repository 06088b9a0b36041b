import StructuralTyping.Proofs.ClosedTypes
import StructuralTyping.Suite

namespace StructuralTyping

/-!
# Closed suites

What is read from a document is complete: the types in its expressions,
statements and checks are closed over the arena of the suite, in which every
name is defined. So nothing that a check uses can be missing.
-/

/-- An expression with closed types and supported operators. -/
inductive Expression.Closed
    (arena : Arena) :
    Expression →
    Prop where
  | name : Closed arena (.name binding)
  | constant (closed : type.Closed arena) : Closed arena (.constant type)
  | typeof (operandClosed : Closed arena operand) : Closed arena (.typeof operand)
  | instanceOf
      (operandClosed : Closed arena operand)
      (closed : type.Closed arena) :
      Closed arena (.instanceOf operand type)
  | isArray (operandClosed : Closed arena operand) :
      Closed arena (.isArray operand)
  | member (operandClosed : Closed arena operand) :
      Closed arena (.member operand property isOptional)
  | not (operandClosed : Closed arena operand) : Closed arena (.not operand)
  | binary
      (supported : operator ∈ Operator.all)
      (leftClosed : Closed arena left)
      (rightClosed : Closed arena right) :
      Closed arena (.binary operator left right)
  | conditional
      (testClosed : Closed arena test)
      (positiveClosed : Closed arena positive)
      (negativeClosed : Closed arena negative) :
      Closed arena (.conditional test positive negative)

/-- A statement with closed parts; an ascription may be left out. -/
inductive Statement.Closed
    (arena : Arena) :
    Statement →
    Prop where
  | declare
      (ascriptionClosed : ascription.MaybeClosed arena)
      (initialClosed :
        ∀ expression, initial = some expression → expression.Closed arena) :
      Closed arena (.declare name ascription initial policy)
  | choose
      (testClosed : test.Closed arena)
      (positiveClosed : ∀ statement ∈ positive, Closed arena statement)
      (negativeClosed : ∀ statement ∈ negative, Closed arena statement) :
      Closed arena (.choose test positive negative)
  | switch
      (subjectClosed : subject.Closed arena)
      (clausesClosed :
        ∀ clause ∈ clauses,
          ∀ statement ∈ Clause.body clause, Closed arena statement)
      (otherwiseClosed :
        ∀ body,
          otherwise = some body →
          ∀ statement ∈ body, Closed arena statement) :
      Closed arena (.switch subject clauses otherwise)
  | return
      (valueClosed :
        ∀ expression, value = some expression → expression.Closed arena) :
      Closed arena (.return value)
  | inspect (expressionClosed : expression.Closed arena) :
      Closed arena (.inspect label expression)

/-- A function body with closed parts; the result may be left out. -/
structure FunctionBody.Closed
    (arena : Arena)
    (function : FunctionBody) :
    Prop where
  parameters : ∀ parameter ∈ function.parameters, parameter.2.Closed arena
  result : function.result.MaybeClosed arena
  body : ∀ statement ∈ function.body, statement.Closed arena

/-- A question with closed parts. -/
def Question.Closed
    (arena : Arena) :
    Question →
    Prop
  | .assignable source target _ => source.Closed arena ∧ target.Closed arena
  | .normalize type => type.Closed arena
  | .utility application =>
      application.base.Closed arena ∧
        ∀ argument ∈ application.arguments, argument.Closed arena
  | .exhaustive type _ => type.Closed arena
  | .narrow binding guard _ =>
      binding.declared.Closed arena ∧ binding.frames = [] ∧ guard.Closed arena
  | .typeof scope expression =>
      (∀ entry ∈ scope, entry.2.Closed arena) ∧ expression.Closed arena
  | .function body => body.Closed arena

/-- A check with a closed question and the answer that its kind needs. -/
structure SuiteCheck.Closed
    (arena : Arena)
    (check : SuiteCheck) :
    Prop where
  question : check.question.Closed arena
  answered :
    ∀ source target expected,
      check.question = .assignable source target expected →
      check.expectation.flag = some expected

/-- A suite whose names are all defined and whose parts are closed. -/
structure Suite.Closed
    (suite : Suite) :
    Prop where
  definitions :
    ∀ declaration ∈ suite.arena.declarations,
      declaration.definition.Closed suite.arena
  resolves :
    ∀ reference,
      suite.arena.Owns reference →
      (suite.arena.definition reference).Closed suite.arena
  checks : ∀ check ∈ suite.checks, check.Closed suite.arena

namespace Decode

open Yaml

section Expressions

variable {arena : Arena}

/-- Every operator is one of the supported ones. -/
theorem mem_all
    (operator : Operator) :
    operator ∈ Operator.all := by
  cases operator <;> decide

mutual

/-- A node yields a closed expression. -/
theorem expression_closed
    (arena : Arena)
    (node : Node) :
    Yields (expression arena node) (Expression.Closed arena) := by
  match node with
  | .scalar line kind text =>
      unfold expression
      exact .pure .name
  | .mapping heading [(key, value)] =>
      unfold expression
      split
      case h_1 =>
        exact (type_closed arena value).bind fun _ closed =>
          .pure (.constant closed)
      case h_2 =>
        exact (expression_closed arena value).bind fun _ closed =>
          .pure (.typeof closed)
      case h_3 =>
        exact (expression_closed arena value).bind fun _ closed =>
          .pure (.isArray closed)
      case h_4 =>
        exact (expression_closed arena value).bind fun _ closed =>
          .pure (.not closed)
      case h_5 =>
        cases value with
        | mapping heading entries =>
            refine (expressionAt_closed arena "x" entries).bind
              fun _ operandClosed => ?_
            exact (typeAt_closed arena "class" entries).bind
              fun _ classClosed => .pure (.instanceOf operandClosed classClosed)
        | _ => exact .stop
      case h_6 =>
        exact member_closed arena false value
      case h_7 =>
        exact member_closed arena true value
      case h_8 =>
        cases value with
        | mapping heading entries =>
            refine (expressionAt_closed arena "test" entries).bind
              fun _ testClosed => ?_
            refine (expressionAt_closed arena "then" entries).bind
              fun _ positiveClosed => ?_
            exact (expressionAt_closed arena "else" entries).bind
              fun _ negativeClosed =>
                .pure (.conditional testClosed positiveClosed negativeClosed)
        | _ => exact .stop
      case h_9 =>
        split
        · exact .fault
        · split
          · next left right =>
            refine (expression_closed arena left).bind fun _ leftClosed => ?_
            exact (expression_closed arena right).bind fun _ rightClosed =>
              .pure (.binary (mem_all _) leftClosed rightClosed)
          · exact .fault
  | .mapping heading [] =>
      unfold expression
      exact .fault
  | .mapping heading (_ :: _ :: _) =>
      unfold expression
      exact .fault
  | .sequence heading items =>
      unfold expression
      exact .fault
  | .aliasOf line name target =>
      unfold expression
      exact .fault

/-- A required expression under a key is closed. -/
theorem expressionAt_closed
    (arena : Arena)
    (key : String)
    (entries : List (Node × Node)) :
    Yields (expressionAt arena key entries) (Expression.Closed arena) := by
  match entries with
  | [] =>
      unfold expressionAt
      exact .stop
  | (name, value) :: rest =>
      unfold expressionAt
      exact .ite (expression_closed arena value)
        (expressionAt_closed arena key rest)

/-- The access to a property is closed. -/
theorem member_closed
    (arena : Arena)
    (isOptional : Bool)
    (node : Node) :
    Yields (member arena isOptional node) (Expression.Closed arena) := by
  cases node with
  | mapping heading entries =>
      unfold member
      refine (expressionAt_closed arena "x" entries).bind
        fun _ operandClosed => ?_
      exact .ite (.pure (.member operandClosed)) .fault
  | scalar line kind text =>
      unfold member
      exact .stop
  | sequence heading items =>
      unfold member
      exact .stop
  | aliasOf line name target =>
      unfold member
      exact .stop

end

/-- A node that has to be there yields a closed expression. -/
theorem requiredExpression_closed :
    Yields (requiredExpression arena node) (Expression.Closed arena) := by
  cases node with
  | none => exact .stop
  | some node => exact expression_closed arena node

/-- An expression under a key is closed, if it is there. -/
theorem optionalExpressionAt_closed :
    Yields (optionalExpressionAt arena entries key) fun found =>
      ∀ expression, found = some expression → expression.Closed arena := by
  unfold optionalExpressionAt
  split
  · exact .pure (by simp)
  · next node _ =>
    refine (expression_closed arena node).bind fun _ closed => .pure ?_
    rintro _ ⟨⟩
    exact closed

end Expressions

section Statements

variable {arena : Arena}

/-- A declaration is closed. -/
theorem declaration_closed :
    Yields (declaration arena node) (Statement.Closed arena) := by
  cases node with
  | mapping heading entries =>
      refine .ite ?_ .fault
      refine (optionalTypeAt_closed arena "type" entries).bind
        fun _ ascriptionClosed => ?_
      refine optionalExpressionAt_closed.bind fun _ initialClosed => ?_
      exact (Yields.trivial _).bind fun _ _ =>
        .pure (.declare ascriptionClosed initialClosed)
  | _ => exact .fault

/-- A returned value is closed. -/
theorem returned_closed :
    Yields (returned arena node) (Statement.Closed arena) := by
  unfold returned
  refine .ite (.pure (.return (by simp))) ?_
  refine (expression_closed arena node).bind fun _ closed => .pure (.return ?_)
  rintro _ ⟨⟩
  exact closed

/-- An inspection is closed. -/
theorem inspection_closed :
    Yields (inspection arena node) (Statement.Closed arena) := by
  cases node with
  | mapping heading entries =>
      refine .ite ?_ .fault
      exact (expressionAt_closed arena "expr" entries).bind fun _ closed =>
        .pure (.inspect closed)
  | _ => exact .fault

mutual

/-- A node yields a closed statement. -/
theorem statement_closed
    (arena : Arena)
    (node : Node) :
    Yields (statement arena node) (Statement.Closed arena) := by
  match node with
  | .mapping heading [(key, value)] =>
      unfold statement
      split
      case h_1 =>
        exact declaration_closed
      case h_2 =>
        cases value with
        | mapping heading entries =>
            refine (expressionAt_closed arena "cond" entries).bind
              fun _ testClosed => ?_
            refine (bodyAt_closed arena "then" entries).bind
              fun _ positiveClosed => ?_
            exact (bodyAt_closed arena "else" entries).bind
              fun _ negativeClosed =>
                .pure (.choose testClosed positiveClosed negativeClosed)
        | _ => exact .stop
      case h_3 =>
        cases value with
        | mapping heading entries =>
            refine (expressionAt_closed arena "subject" entries).bind
              fun _ subjectClosed => ?_
            refine (clausesAt_closed arena entries).bind
              fun _ clausesClosed => ?_
            exact (optionalBodyAt_closed arena "default" entries).bind
              fun _ otherwiseClosed =>
                .pure (.switch subjectClosed clausesClosed otherwiseClosed)
        | _ => exact .stop
      case h_4 =>
        exact returned_closed
      case h_5 =>
        exact inspection_closed
      case h_6 =>
        exact .fault
  | .mapping heading [] =>
      unfold statement
      exact .fault
  | .mapping heading (_ :: _ :: _) =>
      unfold statement
      exact .fault
  | .scalar line kind text =>
      unfold statement
      exact .fault
  | .sequence heading items =>
      unfold statement
      exact .fault
  | .aliasOf line name target =>
      unfold statement
      exact .fault

/-- A list of nodes yields closed statements. -/
theorem statements_closed
    (arena : Arena)
    (nodes : List Node) :
    Yields (statements arena nodes)
      fun body => ∀ statement ∈ body, statement.Closed arena := by
  cases nodes with
  | nil =>
      unfold statements
      exact .pure (by simp)
  | cons node rest =>
      unfold statements
      refine (statement_closed arena node).bind fun _ first => ?_
      exact (statements_closed arena rest).bind fun _ others =>
        .pure (List.forall_mem_cons.mpr ⟨first, others⟩)

/-- A body is closed. -/
theorem body_closed
    (arena : Arena)
    (node : Node) :
    Yields (body arena node)
      fun body => ∀ statement ∈ body, statement.Closed arena := by
  cases node with
  | sequence heading items =>
      unfold body
      exact .ite (.pure (by simp)) (statements_closed arena items)
  | scalar line kind text =>
      unfold body
      split
      · exact .pure (by simp)
      · next impossible => cases impossible
      · exact .ite (.pure (by simp)) .fault
  | mapping heading entries =>
      unfold body
      exact .ite (.pure (by simp)) .fault
  | aliasOf line name target =>
      unfold body
      exact .ite (.pure (by simp)) .fault

/-- A body under a key is closed, if it is there. -/
theorem optionalBodyAt_closed
    (arena : Arena)
    (key : String)
    (entries : List (Node × Node)) :
    Yields (optionalBodyAt arena key entries) fun found =>
      ∀ body, found = some body → ∀ statement ∈ body, statement.Closed arena := by
  match entries with
  | [] =>
      unfold optionalBodyAt
      exact .pure (by simp)
  | (name, value) :: rest =>
      unfold optionalBodyAt
      refine .ite ?_ (optionalBodyAt_closed arena key rest)
      refine (body_closed arena value).bind fun _ closed => .pure ?_
      rintro _ ⟨⟩
      exact closed

/-- A body under a key is closed. -/
theorem bodyAt_closed
    (arena : Arena)
    (key : String)
    (entries : List (Node × Node)) :
    Yields (bodyAt arena key entries)
      fun body => ∀ statement ∈ body, statement.Closed arena := by
  match entries with
  | [] =>
      unfold bodyAt
      exact .pure (by simp)
  | (name, value) :: rest =>
      unfold bodyAt
      exact .ite (body_closed arena value) (bodyAt_closed arena key rest)

/-- The clauses under their key are closed. -/
theorem clausesAt_closed
    (arena : Arena)
    (entries : List (Node × Node)) :
    Yields (clausesAt arena entries) fun clauses =>
      ∀ clause ∈ clauses, ∀ statement ∈ clause.body, statement.Closed arena := by
  match entries with
  | [] =>
      unfold clausesAt
      exact .pure (by simp)
  | (name, value) :: rest =>
      unfold clausesAt
      refine .ite ?_ (clausesAt_closed arena rest)
      cases value with
      | sequence heading items => exact clauses_closed arena items
      | mapping heading entries => exact clausesOfEntries_closed arena entries
      | _ => exact .pure (by simp)

/-- The clauses of a list of nodes are closed. -/
theorem clauses_closed
    (arena : Arena)
    (nodes : List Node) :
    Yields (clauses arena nodes) fun clauses =>
      ∀ clause ∈ clauses, ∀ statement ∈ clause.body, statement.Closed arena := by
  cases nodes with
  | nil =>
      unfold clauses
      exact .pure (by simp)
  | cons node rest =>
      unfold clauses
      refine (clause_closed arena node).bind fun _ first => ?_
      exact (clauses_closed arena rest).bind fun _ others =>
        .pure (List.forall_mem_cons.mpr ⟨first, others⟩)

/-- The clauses of the keys and values of a mapping are closed. -/
theorem clausesOfEntries_closed
    (arena : Arena)
    (entries : List (Node × Node)) :
    Yields (clausesOfEntries arena entries) fun clauses =>
      ∀ clause ∈ clauses, ∀ statement ∈ clause.body, statement.Closed arena := by
  match entries with
  | [] =>
      unfold clausesOfEntries
      exact .pure (by simp)
  | (key, value) :: rest =>
      unfold clausesOfEntries
      refine (clause_closed arena key).bind fun _ first => ?_
      refine (clause_closed arena value).bind fun _ second => ?_
      exact (clausesOfEntries_closed arena rest).bind fun _ others =>
        .pure (List.forall_mem_cons.mpr
          ⟨first, List.forall_mem_cons.mpr ⟨second, others⟩⟩)

/-- The body of a clause is closed. -/
theorem clause_closed
    (arena : Arena)
    (node : Node) :
    Yields (clause arena node)
      fun clause => ∀ statement ∈ clause.body, statement.Closed arena := by
  cases node with
  | mapping heading entries =>
      unfold clause
      refine (Yields.trivial _).bind fun _ _ => ?_
      exact (bodyAt_closed arena "body" entries).bind fun _ closed =>
        .pure closed
  | scalar line kind text =>
      unfold clause
      exact .pure (by simp)
  | sequence heading items =>
      unfold clause
      exact .pure (by simp)
  | aliasOf line name target =>
      unfold clause
      exact .pure (by simp)

end

/-- Named types are closed. -/
theorem namedTypes_closed :
    Yields (namedTypes arena place node)
      fun types => ∀ entry ∈ types, entry.2.Closed arena := by
  cases node with
  | mapping heading entries =>
      refine Yields.mapM fun entry _ => ?_
      exact (type_closed arena entry.2).within.bind fun _ closed =>
        .pure closed
  | _ => exact .fault

/-- A function body is closed. -/
theorem functionBody_closed :
    Yields (functionBody arena node) (FunctionBody.Closed arena) := by
  unfold functionBody
  dsimp only
  have rest
      (parameters : List (String × Ty))
      (parametersClosed : ∀ entry ∈ parameters, entry.2.Closed arena) :
      Yields
        (do
          let result ←
            within .result (optionalTypeAt arena "return" node.entries)
          let body ← bodyAt arena "body" node.entries
          return FunctionBody.mk (textAt node.entries "name") parameters result
            body)
        (FunctionBody.Closed arena) := by
    refine (optionalTypeAt_closed arena "return" node.entries).within.bind
      fun _ resultClosed => ?_
    exact (bodyAt_closed arena "body" node.entries).bind fun _ bodyClosed =>
      .pure ⟨parametersClosed, resultClosed, bodyClosed⟩
  split
  · exact (Yields.pure (by simp)).bind rest
  · exact namedTypes_closed.bind rest

end Statements

section Questions

variable {arena : Arena} {fields : CheckFields}

/-- The binding that a node describes is closed and not narrowed. -/
theorem binding_closed :
    Yields (binding arena node) fun binding =>
      binding.declared.Closed arena ∧ binding.frames = [] := by
  cases node with
  | none => exact .stop
  | some node =>
      refine .ite ?_ .fault
      refine (typeAt_closed arena "type" node.entries).within.bind
        fun _ closed => ?_
      split
      · exact .pure ⟨closed, rfl⟩
      · exact (Yields.trivial _).bind fun policy _ =>
          .pure ⟨policy.infer_closed closed, rfl⟩

/--
A question is closed. It asks for an assignment only with the answer to expect.
-/
theorem question_closed :
    Yields (question arena fields flag) fun question =>
      question.Closed arena ∧
        ∀ source target expected,
          question = .assignable source target expected →
          flag = some expected := by
  unfold question
  dsimp only
  split
  case h_1 =>
    refine requiredType_closed.within.bind fun _ sourceClosed => ?_
    refine requiredType_closed.within.bind fun _ targetClosed => ?_
    split
    · refine .pure ⟨⟨sourceClosed, targetClosed⟩, ?_⟩
      rintro _ _ _ ⟨⟩
      rfl
    · exact .stop
  case h_2 =>
    exact requiredType_closed.bind fun _ closed => .pure ⟨closed, by simp⟩
  case h_3 =>
    refine requiredType_closed.within.bind fun base baseClosed => ?_
    have rest
        (arguments : List Ty)
        (closed : ∀ argument ∈ arguments, argument.Closed arena) :
        Yields
          (pure
            (.utility { utility := fields.utility, base, arguments }) :
            Decode Question)
          fun question =>
            question.Closed arena ∧
              ∀ source target expected,
                question = .assignable source target expected →
                flag = some expected :=
      .pure ⟨⟨baseClosed, closed⟩, by simp⟩
    split
    · exact (Yields.pure (by simp)).bind rest
    · exact (types_closed arena _).within.bind rest
    · exact Yields.fault.within.bind rest
  case h_4 =>
    refine requiredType_closed.bind fun _ closed => ?_
    exact (Yields.trivial _).bind fun _ _ => .pure ⟨closed, by simp⟩
  case h_5 =>
    refine binding_closed.bind fun _ bindingClosed => ?_
    exact requiredExpression_closed.within.bind fun _ guardClosed =>
      .pure ⟨⟨bindingClosed.1, bindingClosed.2, guardClosed⟩, by simp⟩
  case h_6 =>
    have rest
        (scope : List (String × Ty))
        (scopeClosed : ∀ entry ∈ scope, entry.2.Closed arena) :
        Yields
          (do
            let expression ←
              within .expression
                (requiredExpression arena (fields.nodes.node? "expr"))
            return Question.typeof scope expression)
          fun question =>
            question.Closed arena ∧
              ∀ source target expected,
                question = .assignable source target expected →
                flag = some expected :=
      requiredExpression_closed.within.bind fun _ closed =>
        .pure ⟨⟨scopeClosed, closed⟩, by simp⟩
    split
    · exact (Yields.pure (by simp)).bind rest
    · exact namedTypes_closed.bind rest
  case h_7 =>
    split
    · exact .stop
    · exact functionBody_closed.bind fun _ closed => .pure ⟨closed, by simp⟩
  case h_8 =>
    exact .stop

/-- A check is closed. -/
theorem check_closed :
    Yields (check arena position node) (SuiteCheck.Closed arena) := by
  unfold check
  split
  · exact Yields.stop.within
  · refine Yields.within ?_
    refine (Yields.trivial _).bind fun expectation _ => ?_
    refine question_closed.bind fun _ closed => .pure ?_
    exact ⟨closed.1, closed.2⟩

/-- The checks of a suite are closed. -/
theorem checks_closed
    (nodes : List Node) :
    Yields (checks arena position nodes)
      fun checks => ∀ check ∈ checks, check.Closed arena := by
  induction nodes generalizing position with
  | nil =>
      exact .pure (by simp)
  | cons node rest inductionHypothesis =>
      exact check_closed.bind fun _ first =>
        inductionHypothesis.bind fun _ others =>
          .pure (List.forall_mem_cons.mpr ⟨first, others⟩)

end Questions

section Arenas

variable {arena later : Arena}

/-- A closed type stays closed where all names stay declared in their places. -/
theorem closed_mono
    {type : Ty}
    (closed : type.Closed arena)
    (keeps : ∀ reference, arena.Owns reference → later.Owns reference) :
    type.Closed later := by
  induction closed with
  | primitive => exact .primitive
  | literal => exact .literal
  | named owned => exact .named (keeps _ owned)
  | object _ _ _ properties keys values => exact .object properties keys values
  | array _ element => exact .array element
  | tuple _ elements => exact .tuple elements
  | function _ _ _ parameters rest result =>
      exact .function parameters rest result
  | union _ members => exact .union members
  | intersection _ members => exact .intersection members
  | generic _ _ base arguments => exact .generic base arguments

/-- Declaring a name keeps all names in their places. -/
theorem owns_declare
    {reference : Reference}
    (owned : arena.Owns reference) :
    (arena.declare name).2.Owns reference := by
  unfold Arena.declare
  split
  · exact owned
  · obtain ⟨position, found, same⟩ := Option.map_eq_some_iff.mp owned
    unfold Arena.Owns Arena.reference?
    rw [List.findIdx?_append, found]
    exact congrArg some same

/-- Defining a name keeps all names in their places. -/
theorem owns_setDefinition
    {reference : Reference} :
    (arena.setDefinition position definition).Owns reference ↔
      arena.Owns reference := by
  have names :
      (arena.setDefinition position definition).declarations.map
          Declaration.name =
        arena.declarations.map Declaration.name := by
    apply List.ext_getElem?
    intro index
    simp only [Arena.setDefinition, List.getElem?_map, List.getElem?_modify]
    by_cases same : position = index
    · subst same
      cases arena.declarations[position]? <;> simp
    · simp [same]
  have found (name : String) :
      (arena.setDefinition position definition).declarations.findIdx?
          (fun declaration => declaration.name == name) =
        arena.declarations.findIdx? fun declaration =>
          declaration.name == name := by
    have through (declarations : List Declaration) :
        declarations.findIdx? (fun declaration => declaration.name == name) =
          (declarations.map Declaration.name).findIdx? (· == name) := by
      rw [List.findIdx?_map]
      rfl
    rw [through, names, ← through]
  unfold Arena.Owns Arena.reference?
  rw [found]
  rfl

/-- The definitions of an arena are left out or closed. -/
def MaybeDefined
    (arena : Arena) :
    Prop :=
  ∀ declaration ∈ arena.declarations,
    declaration.definition.MaybeClosed arena

/-- Declaring a name leaves it undefined and all others as they are. -/
theorem MaybeDefined.declare
    (defined : MaybeDefined arena) :
    MaybeDefined (arena.declare name).2 := by
  intro declaration member present
  have keeps (reference : Reference) :
      arena.Owns reference → (arena.declare name).2.Owns reference :=
    owns_declare
  have old :
      declaration ∈ arena.declarations →
      declaration.definition.Closed (arena.declare name).2 :=
    fun member => closed_mono (defined declaration member present) keeps
  unfold Arena.declare at member
  split at member
  · exact old member
  · rcases List.mem_append.mp member with inArena | isNew
    · exact old inArena
    · cases List.mem_singleton.mp isNew
      exact (present rfl).elim

/-- Defining a name by a closed type closes its definition. -/
theorem MaybeDefined.setDefinition
    (defined : MaybeDefined arena)
    (closed : definition.Closed arena) :
    MaybeDefined (arena.setDefinition position definition) := by
  intro declaration member present
  have keeps (reference : Reference) :
      arena.Owns reference →
      (arena.setDefinition position definition).Owns reference :=
    owns_setDefinition.mpr
  obtain ⟨index, inside, rfl⟩ := List.getElem_of_mem member
  have inArena : index < arena.declarations.length := by
    simpa [Arena.setDefinition] using inside
  have there :
      (arena.setDefinition position definition).declarations[index] =
        if position = index then
          { arena.declarations[index] with definition }
        else
          arena.declarations[index] :=
    List.getElem_modify _ _ _ _ _
  rw [there] at present ⊢
  by_cases here : position = index
  · rw [if_pos here]
    exact closed_mono closed keeps
  · rw [if_neg here] at present ⊢
    exact closed_mono (defined _ (List.getElem_mem inArena) present) keeps

/-- Names are defined by closed types. -/
theorem defineNames_closed
    (entries : List (Node × Node))
    (defined : MaybeDefined arena) :
    Yields (defineNames arena entries) MaybeDefined := by
  induction entries generalizing arena with
  | nil =>
      exact .pure defined
  | cons entry rest inductionHypothesis =>
      obtain ⟨key, value⟩ := entry
      unfold defineNames
      refine (type_closed arena value).within.bind fun definition closed => ?_
      have closedLater : definition.Closed (arena.declare key.text).2 :=
        closed_mono closed fun _ => owns_declare
      dsimp only
      split
      · next defines =>
        unfold Arena.define at defines
        split at defines
        · cases defines
        · split at defines
          · cases defines
          · cases defines
            exact inductionHypothesis (defined.declare.setDefinition closedLater)
      · exact .stop

/-- The names of an arena are undefined or defined by closed types. -/
theorem arena_closed :
    Yields (Decode.arena node) MaybeDefined := by
  have empty : MaybeDefined {} := by
    intro declaration member
    cases member
  have declared (entries : List (Node × Node)) :
      MaybeDefined (declaredNames entries) := by
    unfold declaredNames
    generalize ({} : Arena) = start at empty
    induction entries generalizing start with
    | nil =>
        exact empty
    | cons entry rest inductionHypothesis =>
        exact inductionHypothesis _ empty.declare
  unfold Decode.arena
  split
  · exact .pure empty
  · exact defineNames_closed _ (declared _)
  · exact .fault

/-- Where no name is undefined, every name has a closed definition. -/
theorem closed_definitions
    (defined : MaybeDefined arena)
    (complete : arena.undefinedNames.isEmpty = true) :
    ∀ declaration ∈ arena.declarations,
      declaration.definition.Closed arena := by
  intro declaration member
  refine defined declaration member fun missing => ?_
  have listed : declaration.name ∈ arena.undefinedNames :=
    List.mem_map.mpr ⟨declaration,
      List.mem_filter.mpr ⟨member, by rw [missing]; rfl⟩, rfl⟩
  rw [List.isEmpty_iff.mp complete] at listed
  cases listed

/-- Each owned reference has one of the declared definitions. -/
theorem exists_declaration_of_owns
    {reference : Reference}
    (owned : arena.Owns reference) :
    ∃ declaration ∈ arena.declarations,
      arena.definition reference = declaration.definition := by
  obtain ⟨position, found, same⟩ := Option.map_eq_some_iff.mp owned
  obtain ⟨inside, _⟩ := List.findIdx?_eq_some_iff_getElem.mp found
  refine ⟨arena.declarations[position], List.getElem_mem inside, ?_⟩
  rw [← same]
  simp [Arena.definition, Arena.lookup, List.getElem?_eq_getElem inside]

/-- A suite is closed. -/
theorem suite_closed
    (fields : SuiteFields) :
    Yields (suite fields) Suite.Closed := by
  unfold suite
  refine arena_closed.bind fun arena defined => ?_
  split
  · next complete =>
    have definitions := closed_definitions defined complete
    refine (checks_closed fields.checks).bind fun checks closed => .pure ?_
    refine ⟨definitions, fun reference owned => ?_, closed⟩
    obtain ⟨declaration, member, same⟩ := exists_declaration_of_owns owned
    rw [same]
    exact definitions declaration member
  · exact .stop

end Arenas

end Decode

/--
A document is either a closed suite or refused: its names are all declared and
defined, no type is missing where one is needed, operators are supported, and
the refusal of any other document says that the suite is invalid.
-/
theorem Suite.ofNode_closed
    (node : Yaml.Node) :
    (∃ suite, Suite.ofNode node = .ok suite ∧ suite.Closed) ∨
      ∃ problem,
        Suite.ofNode node = .error problem ∧
          Suite.refusal problem = "invalid suite: " ++ problem.message := by
  cases result : Suite.ofNode node with
  | error problem =>
      exact .inr ⟨problem, rfl, rfl⟩
  | ok suite =>
      refine .inl ⟨suite, rfl, ?_⟩
      unfold Suite.ofNode at result
      split at result
      · cases result
      · next fields _ =>
        change (Prod.fst <$> Decode.suite fields 0) = .ok suite at result
        cases run : Decode.suite fields 0 with
        | error problem =>
            rw [run] at result
            cases result
        | ok outcome =>
            rw [run] at result
            cases result
            exact Decode.suite_closed fields _ _ _ run

end StructuralTyping
