import StructuralTyping.Proofs.WideningMeaning
import StructuralTyping.Suite.Types

namespace StructuralTyping

/-!
# Closed types

A type that is read from a document is closed: every name in it is declared in
the arena of the document, and a type is left out only where that has a meaning.
Inference keeps types closed. The decoding functions are followed case by case;
each of them either stops at a problem or yields something closed.
-/

/-- The name of a reference is declared in the arena, at its position. -/
def Arena.Owns
    (arena : Arena)
    (reference : Reference) :
    Prop :=
  arena.reference? reference.name = some reference

/--
A type whose references belong to an arena. Only the rest and the result of a
function may be left out.
-/
inductive Ty.Closed
    (arena : Arena) :
    Ty →
    Prop where
  | primitive : Closed arena (.primitive kind)
  | literal : Closed arena (.literal occurrence value)
  | named (owned : arena.Owns reference) : Closed arena (.named reference)
  | object
      (properties : ∀ property ∈ shape.properties, Closed arena property.type)
      (keys : ∀ index, shape.index = some index → Closed arena index.key)
      (values : ∀ index, shape.index = some index → Closed arena index.value) :
      Closed arena (.object occurrence shape)
  | array (element : Closed arena type) :
      Closed arena (.array occurrence type readonly)
  | tuple (elements : ∀ element ∈ types, Closed arena element) :
      Closed arena (.tuple occurrence types readonly)
  | function
      (parameters :
        ∀ parameter ∈ signature.parameters, Closed arena parameter.type)
      (rest : signature.rest ≠ .absent → Closed arena signature.rest)
      (result : signature.result ≠ .absent → Closed arena signature.result) :
      Closed arena (.function occurrence signature)
  | union (members : ∀ member ∈ types, Closed arena member) :
      Closed arena (.union occurrence types)
  | intersection (members : ∀ member ∈ types, Closed arena member) :
      Closed arena (.intersection occurrence types)
  | generic
      (base : Closed arena application.base)
      (arguments :
        ∀ argument ∈ application.arguments, Closed arena argument) :
      Closed arena (.generic occurrence application)

/-- A type that is left out or closed. -/
def Ty.MaybeClosed
    (arena : Arena)
    (type : Ty) :
    Prop :=
  type ≠ .absent → type.Closed arena

/-- Freezing keeps a type closed. -/
theorem Ty.Closed.freeze
    {type : Ty}
    (closed : type.Closed arena) :
    type.freeze.Closed arena := by
  induction closed with
  | object _ keys values properties _ _ =>
      unfold Ty.freeze Ty.ofShape
      rw [Ty.freezeProperties_eq_map]
      exact .object (List.forall_mem_map.mpr properties) keys values
  | array _ inductionHypothesis =>
      unfold Ty.freeze
      exact .array inductionHypothesis
  | tuple _ inductionHypothesis =>
      unfold Ty.freeze
      rw [Ty.freezeAll_eq_map]
      exact .tuple (List.forall_mem_map.mpr inductionHypothesis)
  | primitive => exact .primitive
  | literal => exact .literal
  | named owned => exact .named owned
  | function parameters rest result => exact .function parameters rest result
  | union members => exact .union members
  | intersection members => exact .intersection members
  | generic base arguments => exact .generic base arguments

/-- A union without repetitions of closed types is closed. -/
theorem Ty.Closed.unionOfDistinct
    {types : List Ty}
    (closed : ∀ type ∈ types, type.Closed arena) :
    (arena.unionOfDistinct types).Closed arena := by
  have kept :
      ∀ type ∈ types.foldl arena.appendUnique [], type.Closed arena :=
    fun type member =>
      closed type ((mem_of_mem_unique member).resolve_left (by simp))
  unfold Arena.unionOfDistinct
  split
  · next single same =>
    exact kept single (by simp [same])
  · exact .union kept

/-- Widening keeps a type closed. -/
theorem Ty.Closed.widen
    {type : Ty}
    (closed : type.Closed arena) :
    (type.widen arena).Closed arena := by
  induction closed with
  | literal => exact .primitive
  | union _ inductionHypothesis =>
      unfold Ty.widen
      rw [Ty.widenAll_eq_map]
      exact .unionOfDistinct (List.forall_mem_map.mpr inductionHypothesis)
  | object _ keys values properties _ _ =>
      unfold Ty.widen Ty.ofShape
      rw [Ty.widenProperties_eq_map]
      exact .object (List.forall_mem_map.mpr properties) keys values
  | array _ inductionHypothesis =>
      unfold Ty.widen
      exact .array inductionHypothesis
  | tuple _ inductionHypothesis =>
      unfold Ty.widen
      rw [Ty.widenAll_eq_map]
      exact .tuple (List.forall_mem_map.mpr inductionHypothesis)
  | primitive => exact .primitive
  | named owned => exact .named owned
  | function parameters rest result => exact .function parameters rest result
  | intersection members => exact .intersection members
  | generic base arguments => exact .generic base arguments

/-- A type inferred from a closed one is closed. -/
theorem WideningPolicy.infer_closed
    {type : Ty}
    (policy : WideningPolicy)
    (closed : type.Closed arena) :
    (policy.infer arena type).Closed arena := by
  unfold WideningPolicy.infer
  split
  · exact closed.freeze
  · exact closed
  · exact closed.widen

namespace Decode

open Yaml

/-- What a computation yields, if it comes to an end, has a property. -/
def Yields
    (computation : Decode α)
    (holds : α → Prop) :
    Prop :=
  ∀ next value after, computation next = .ok (value, after) → holds value

namespace Yields

variable {holds : α → Prop} {lastHolds : β → Prop}

theorem pure
    (here : holds value) :
    Yields (pure value) holds := by
  intro next answer after yields
  cases yields
  exact here

/-- A sequence yields what its last part yields after the first one. -/
theorem bind
    {first : Decode α}
    {second : α → Decode β}
    (yields : Yields first holds)
    (continues : ∀ value, holds value → Yields (second value) lastHolds) :
    Yields (first >>= second) lastHolds := by
  intro next answer after runs
  cases result : first next with
  | error problem =>
      simp [Bind.bind, StateT.bind, Except.bind, result] at runs
  | ok outcome =>
      obtain ⟨value, between⟩ := outcome
      simp only [Bind.bind, StateT.bind, Except.bind, result] at runs
      exact continues value (yields _ _ _ result) _ _ _ runs

/-- What has a property also has each weaker one. -/
theorem weaken
    {computation : Decode α}
    {weaker : α → Prop}
    (yields : Yields computation holds)
    (implies : ∀ {value}, holds value → weaker value) :
    Yields computation weaker :=
  fun _ _ _ runs => implies (yields _ _ _ runs)

theorem trivial
    (computation : Decode α) :
    Yields computation fun _ => True :=
  fun _ _ _ _ => True.intro

theorem stop :
    Yields (Decode.stop problem) holds := by
  intro next answer after yields
  cases yields

theorem fault :
    Yields (Decode.fault line problem) holds := by
  intro next answer after yields
  cases yields

/-- Naming the part that a problem lies in changes no result. -/
theorem within
    {computation : Decode α}
    (yields : Yields computation holds) :
    Yields (Decode.within place computation) holds := by
  intro next answer after runs
  unfold Decode.within Except.mapError at runs
  split at runs
  · cases runs
  · next result =>
    cases runs
    exact yields _ _ _ result

theorem ite
    {condition : Prop}
    [Decidable condition]
    {first second : Decode α}
    (onTrue : Yields first holds)
    (onFalse : Yields second holds) :
    Yields (if condition then first else second) holds := by
  split <;> assumption

/-- Items that are visited one by one yield a list of such values. -/
theorem mapM
    {visit : α → Decode β}
    {items : List α}
    (each : ∀ item ∈ items, Yields (visit item) lastHolds) :
    Yields (items.mapM visit) fun values => ∀ value ∈ values, lastHolds value := by
  induction items with
  | nil =>
      exact pure (by simp)
  | cons item rest inductionHypothesis =>
      rw [List.mapM_cons]
      refine (each item (by simp)).bind fun value here => ?_
      refine (inductionHypothesis fun other member =>
        each other (.tail _ member)).bind fun values there => ?_
      exact pure (List.forall_mem_cons.mpr ⟨here, there⟩)

end Yields

section Types

variable {arena : Arena}

/-- A text yields a closed type. -/
theorem textType_closed :
    Yields (textType arena line text) (Ty.Closed arena) := by
  unfold textType
  dsimp only
  split
  · split
    · exact (Yields.trivial _).bind fun _ _ => .pure .literal
    · exact .fault
  · split
    · exact .pure .primitive
    · next reference _ found =>
      refine .pure (.named ?_)
      unfold Arena.Owns
      have sameName : reference.name = text := by
        unfold Arena.reference? at found
        obtain ⟨_, _, rfl⟩ := Option.map_eq_some_iff.mp found
        rfl
      rw [sameName]
      exact found
    · exact .fault

/-- A scalar yields a closed type. -/
theorem scalarType_closed :
    Yields (scalarType arena line kind text) (Ty.Closed arena) := by
  have constant :
      Yields
        (do
          let value ← scalarLiteral line kind text
          return .literal (← occurrence) value)
        (Ty.Closed arena) :=
    (Yields.trivial _).bind fun _ _ =>
      (Yields.trivial _).bind fun _ _ => .pure .literal
  unfold scalarType
  cases kind with
  | null => exact .pure .primitive
  | integer => exact constant
  | decimal => exact constant
  | boolean => exact constant
  | _ => exact textType_closed

/-- A closed type is not left out. -/
theorem maybeClosed_of_closed
    {type : Ty}
    (closed : type.Closed arena) :
    type.MaybeClosed arena :=
  fun _ => closed

theorem maybeClosed_absent :
    Ty.absent.MaybeClosed arena :=
  fun present => (present rfl).elim

mutual

/-- A node yields a closed type. -/
theorem type_closed
    (arena : Arena)
    (node : Node) :
    Yields (type arena node) (Ty.Closed arena) := by
  cases node with
  | scalar line kind text =>
      unfold type
      exact scalarType_closed
  | sequence heading items =>
      unfold type
      exact .fault
  | aliasOf line name target =>
      unfold type
      exact .fault
  | mapping heading entries =>
      unfold type
      dsimp only
      refine .ite ?literal (.ite ?object (.ite ?array (.ite ?tuple (.ite ?union
        (.ite ?intersection (.ite ?function (.ite ?apply .fault)))))))
      case literal =>
        exact (Yields.trivial _).bind fun _ _ =>
          (Yields.trivial _).bind fun _ _ => .pure .literal
      case object =>
        refine (objectAt_closed arena entries).bind fun properties closed => ?_
        refine (indexAt_closed arena entries).bind fun index indexClosed => ?_
        exact (Yields.trivial _).bind fun _ _ =>
          .pure (.object closed (fun found same => (indexClosed found same).1)
            fun found same => (indexClosed found same).2)
      case array =>
        exact (typeAt_closed arena "array" entries).bind fun _ closed =>
          (Yields.trivial _).bind fun _ _ => .pure (.array closed)
      case tuple =>
        exact (typesAt_closed arena "tuple" entries).bind fun _ closed =>
          (Yields.trivial _).bind fun _ _ => .pure (.tuple closed)
      case union =>
        exact (typesAt_closed arena "union" entries).bind fun _ closed =>
          (Yields.trivial _).bind fun _ _ => .pure (.union closed)
      case intersection =>
        exact (typesAt_closed arena "intersection" entries).bind fun _ closed =>
          (Yields.trivial _).bind fun _ _ => .pure (.intersection closed)
      case function =>
        exact functionAt_closed arena entries
      case apply =>
        exact applyAt_closed arena entries

/-- A required type under a key is closed. -/
theorem typeAt_closed
    (arena : Arena)
    (key : String)
    (entries : List (Node × Node)) :
    Yields (typeAt arena key entries) (Ty.Closed arena) := by
  match entries with
  | [] =>
      unfold typeAt
      exact .stop
  | (name, value) :: rest =>
      unfold typeAt
      exact .ite (type_closed arena value) (typeAt_closed arena key rest)

/-- An optional type under a key is left out or closed. -/
theorem optionalTypeAt_closed
    (arena : Arena)
    (key : String)
    (entries : List (Node × Node)) :
    Yields (optionalTypeAt arena key entries) (Ty.MaybeClosed arena) := by
  match entries with
  | [] =>
      unfold optionalTypeAt
      exact .pure maybeClosed_absent
  | (name, value) :: rest =>
      unfold optionalTypeAt
      exact .ite ((type_closed arena value).weaken maybeClosed_of_closed)
        (optionalTypeAt_closed arena key rest)

/-- A list of nodes yields closed types. -/
theorem types_closed
    (arena : Arena)
    (nodes : List Node) :
    Yields (types arena nodes) fun types => ∀ type ∈ types, type.Closed arena := by
  cases nodes with
  | nil =>
      unfold types
      exact .pure (by simp)
  | cons node rest =>
      unfold types
      refine (type_closed arena node).bind fun _ first => ?_
      exact (types_closed arena rest).bind fun _ others =>
        .pure (List.forall_mem_cons.mpr ⟨first, others⟩)

/-- A list of types under a key is closed. -/
theorem typesAt_closed
    (arena : Arena)
    (key : String)
    (entries : List (Node × Node)) :
    Yields (typesAt arena key entries)
      fun types => ∀ type ∈ types, type.Closed arena := by
  match entries with
  | [] =>
      unfold typesAt
      exact .pure (by simp)
  | (name, value) :: rest =>
      unfold typesAt
      refine .ite ?_ (typesAt_closed arena key rest)
      cases value with
      | sequence heading items => exact types_closed arena items
      | _ => exact .fault

/-- The properties under the key of an object are closed. -/
theorem objectAt_closed
    (arena : Arena)
    (entries : List (Node × Node)) :
    Yields (objectAt arena entries)
      fun properties => ∀ property ∈ properties, property.type.Closed arena := by
  match entries with
  | [] =>
      unfold objectAt
      exact .pure (by simp)
  | (name, value) :: rest =>
      unfold objectAt
      refine .ite ?_ (objectAt_closed arena rest)
      cases value with
      | scalar line kind text => exact .pure (by simp)
      | mapping heading entries => exact properties_closed arena entries
      | _ => exact .fault

/-- The properties of an object are closed. -/
theorem properties_closed
    (arena : Arena)
    (entries : List (Node × Node)) :
    Yields (properties arena entries)
      fun properties => ∀ property ∈ properties, property.type.Closed arena := by
  match entries with
  | [] =>
      unfold properties
      exact .pure (by simp)
  | (key, value) :: rest =>
      unfold properties
      refine (type_closed arena value).within.bind fun _ first => ?_
      exact (properties_closed arena rest).bind fun _ others =>
        .pure (List.forall_mem_cons.mpr ⟨first, others⟩)

/-- An index signature is closed. -/
theorem indexAt_closed
    (arena : Arena)
    (entries : List (Node × Node)) :
    Yields (indexAt arena entries) fun found =>
      ∀ index,
        found = some index →
        index.key.Closed arena ∧ index.value.Closed arena := by
  match entries with
  | [] =>
      unfold indexAt
      exact .pure (by simp)
  | (name, value) :: rest =>
      unfold indexAt
      refine .ite ?_ (indexAt_closed arena rest)
      cases value with
      | mapping heading entries =>
          refine (typeAt_closed arena "key" entries).within.bind
            fun _ keyClosed => ?_
          refine (typeAt_closed arena "value" entries).within.bind
            fun _ valueClosed => .pure ?_
          rintro _ ⟨⟩
          exact ⟨keyClosed, valueClosed⟩
      | _ => exact Yields.stop.within

/-- A function type is closed. -/
theorem functionAt_closed
    (arena : Arena)
    (entries : List (Node × Node)) :
    Yields (functionAt arena entries) (Ty.Closed arena) := by
  have bare :
      Yields
        (do
          let signature :=
            { parameters := [], rest := .absent, result := .absent }
          return .function (← occurrence) signature)
        (Ty.Closed arena) :=
    (Yields.trivial _).bind fun _ _ =>
      .pure (.function (by simp) maybeClosed_absent maybeClosed_absent)
  match entries with
  | [] =>
      unfold functionAt
      exact .stop
  | (name, value) :: rest =>
      unfold functionAt
      refine .ite ?_ (functionAt_closed arena rest)
      cases value with
      | mapping heading entries =>
          refine (parametersAt_closed arena entries).bind
            fun _ parametersClosed => ?_
          refine (optionalTypeAt_closed arena "rest" entries).within.bind
            fun _ restClosed => ?_
          refine (optionalTypeAt_closed arena "return" entries).within.bind
            fun _ resultClosed => ?_
          exact (Yields.trivial _).bind fun _ _ =>
            .pure (.function parametersClosed restClosed resultClosed)
      | _ => exact bare

/-- The parameters under their key are closed. -/
theorem parametersAt_closed
    (arena : Arena)
    (entries : List (Node × Node)) :
    Yields (parametersAt arena entries) fun parameters =>
      ∀ parameter ∈ parameters, parameter.type.Closed arena := by
  match entries with
  | [] =>
      unfold parametersAt
      exact .pure (by simp)
  | (name, value) :: rest =>
      unfold parametersAt
      refine .ite ?_ (parametersAt_closed arena rest)
      cases value with
      | sequence heading items => exact parameters_closed arena 0 items
      | _ => exact .fault

/-- The parameters of a function type are closed. -/
theorem parameters_closed
    (arena : Arena)
    (index : Nat)
    (nodes : List Node) :
    Yields (parameters arena index nodes) fun parameters =>
      ∀ parameter ∈ parameters, parameter.type.Closed arena := by
  match nodes with
  | [] =>
      unfold parameters
      exact .pure (by simp)
  | .mapping heading entries :: rest =>
      unfold parameters
      refine (typeAt_closed arena "type" entries).within.bind
        fun _ first => ?_
      exact (parameters_closed arena (index + 1) rest).bind fun _ others =>
        .pure (List.forall_mem_cons.mpr ⟨first, others⟩)
  | .scalar _ _ _ :: _ =>
      unfold parameters
      exact Yields.stop.within
  | .sequence _ _ :: _ =>
      unfold parameters
      exact Yields.stop.within
  | .aliasOf _ _ _ :: _ =>
      unfold parameters
      exact Yields.stop.within

/-- A utility application is closed. -/
theorem applyAt_closed
    (arena : Arena)
    (entries : List (Node × Node)) :
    Yields (applyAt arena entries) (Ty.Closed arena) := by
  match entries with
  | [] =>
      unfold applyAt
      exact .stop
  | (name, value) :: rest =>
      unfold applyAt
      refine .ite ?_ (applyAt_closed arena rest)
      cases value with
      | mapping heading entries =>
          refine .ite ?_ .fault
          refine (typeAt_closed arena "base" entries).within.bind
            fun _ baseClosed => ?_
          refine (typesAt_closed arena "args" entries).bind
            fun _ argumentsClosed => ?_
          exact (Yields.trivial _).bind fun _ _ =>
            .pure (.generic baseClosed argumentsClosed)
      | _ => exact .fault

end

/-- A node that has to be there yields a closed type. -/
theorem requiredType_closed :
    Yields (requiredType arena node) (Ty.Closed arena) := by
  cases node with
  | none => exact .stop
  | some node => exact type_closed arena node

end Types

end Decode

end StructuralTyping
