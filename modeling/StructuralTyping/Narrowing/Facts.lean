import StructuralTyping.Ty.Equality
import StructuralTyping.Ty.Text

namespace StructuralTyping

/-!
# Facts

The facts that a guard proves on one of its branches: for some names, the type
that their binding has there. Facts are kept in the order of names.
-/

/-- Types by name, in the order of names. -/
structure Facts where
  entries : List (String × Ty) := []
  deriving Repr, DecidableEq

namespace Facts

/-- Put an entry into an ordered list, replacing one of the same name. -/
def insertEntry
    (name : String)
    (type : Ty) :
    List (String × Ty) →
    List (String × Ty)
  | [] => [(name, type)]
  | (other, otherType) :: rest =>
      if name = other then
        (name, type) :: rest
      else if name < other then
        (name, type) :: (other, otherType) :: rest
      else
        (other, otherType) :: insertEntry name type rest

/-- The facts with one more, which replaces an older one of its name. -/
def insert
    (facts : Facts)
    (name : String)
    (type : Ty) :
    Facts :=
  { entries := insertEntry name type facts.entries }

/-- The only fact that a name has a type. -/
def single
    (name : String)
    (type : Ty) :
    Facts :=
  { entries := [(name, type)] }

/-- The type proved for a name. -/
def find?
    (facts : Facts)
    (name : String) :
    Option Ty :=
  (facts.entries.find? fun entry => entry.1 == name).map Prod.snd

/-- The facts with all later facts on top. -/
def overlay
    (facts later : Facts) :
    Facts :=
  later.entries.foldl (fun facts (name, type) => facts.insert name type) facts

/-- The names with a fact, in order. -/
def names
    (facts : Facts) :
    List String :=
  facts.entries.map Prod.fst

/-- The written form of facts. -/
def text
    (facts : Facts) :
    String :=
  let entries :=
    facts.entries.map fun (name, type) => name ++ ": " ++ type.shown
  "\x7b" ++ String.intercalate ", " entries ++ "\x7d"

end Facts

/-- The types that names have where a guard is analysed. -/
structure View where
  lookup : String → Option Ty
  facts : Facts := {}

namespace View

/-- The type of a name: what was proved about it, or else its binding's. -/
def typeOf?
    (view : View)
    (name : String) :
    Option Ty :=
  (view.facts.find? name).orElse fun _ => view.lookup name

/-- The view with more facts on top. -/
def withFacts
    (view : View)
    (facts : Facts) :
    View :=
  { view with facts := view.facts.overlay facts }

end View

end StructuralTyping
