namespace StructuralTyping

/-!
# Versions

What a build of the program says about itself.
-/

/-- The version of a build, its toolchain and the revision it was built from. -/
structure Version where
  version : String
  toolchain : String
  /-- Empty if the build is not from a revision. -/
  revision : String := ""
  time : String := ""
  /-- Whether there were changes beyond the revision. -/
  modified : Bool := false
  deriving Repr, DecidableEq

namespace Version

/-- How many bytes of a revision are shown. -/
def shownBytes : Nat :=
  12

/--
The first letters of a text that fit a number of bytes. A letter that is cut
apart is shown by one replacement character for each of its bytes that fit.
-/
def cutLetters :
    (bytes : Nat) →
    List Char →
    List Char
  | _, [] => []
  | bytes, letter :: rest =>
      if letter.utf8Size ≤ bytes then
        letter :: cutLetters (bytes - letter.utf8Size) rest
      else
        List.replicate bytes (Char.ofNat 0xfffd)

/-- The revision as it is shown. -/
def shortRevision
    (version : Version) :
    String :=
  String.ofList (cutLetters shownBytes version.revision.toList)

/-- The line a build says about itself. -/
def text
    (version : Version) :
    String :=
  let program :=
    "shapecheck " ++ version.version ++ " (" ++ version.toolchain ++ ")"
  if version.revision.isEmpty then
    program
  else
    program ++ " commit " ++ version.shortRevision ++
      (if version.modified then "+dirty" else "") ++
      (if version.time.isEmpty then "" else " built " ++ version.time)

end Version

end StructuralTyping
