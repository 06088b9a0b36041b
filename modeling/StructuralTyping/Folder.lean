namespace StructuralTyping

/-!
# Folders

A folder holds texts under names; a name with a slash lies in a folder inside.
Paths are taken from the folder on, and nothing is known outside of it.
-/

/-- Why the text at a path cannot be read. -/
inductive ReadFailure where
  | missing
  | notFolder
  | isFolder
  | nameTooLong
  | badName
  /-- Any other reason. -/
  | other (reason : String)
  deriving Repr, DecidableEq

/-- The wording of a failure to read a path. -/
def ReadFailure.message
    (path : String) :
    ReadFailure →
    String
  | missing => "open " ++ path ++ ": no such file or directory"
  | notFolder => "open " ++ path ++ ": not a directory"
  | isFolder => "read " ++ path ++ ": is a directory"
  | nameTooLong => "open " ++ path ++ ": file name too long"
  | badName => "open " ++ path ++ ": invalid argument"
  | other reason => "open " ++ path ++ ": " ++ reason

/-- Texts under names; the latest text under a name counts. -/
structure Folder where
  texts : List (String × String)
  deriving Repr, DecidableEq

namespace Folder

/-- How many bytes a name may have. -/
def longestName : Nat :=
  255

/-- How many bytes a path has to have less than. -/
def pathLimit : Nat :=
  4096

/-- The text under a list of names, the first of which is a folder. -/
def text?
    (folder : Folder)
    (names : List String) :
    Option String :=
  folder.texts.reverse.lookup ("/".intercalate names)

/-- Whether names lead to a folder. -/
def holds
    (folder : Folder)
    (names : List String) :
    Bool :=
  folder.texts.any fun (name, _) =>
    let inside := name.splitOn "/"
    names.length < inside.length && inside.take names.length == names

/-- Follow the parts of a path from the names that lead to a folder. -/
def follow
    (folder : Folder)
    (names : List String) :
    List String →
    Except ReadFailure String
  | [] => .error .isFolder
  | part :: rest =>
      if part.isEmpty || part == "." then
        follow folder names rest
      else if part == ".." then
        if names.isEmpty then
          .error (if rest.all String.isEmpty then .isFolder else .missing)
        else
          follow folder names.dropLast rest
      else if longestName < part.utf8ByteSize then
        .error .nameTooLong
      else
        match folder.text? (names ++ [part]) with
        | some text => if rest.isEmpty then .ok text else .error .notFolder
        | none =>
            if folder.holds (names ++ [part]) then
              follow folder (names ++ [part]) rest
            else
              .error .missing

/-- The text at a path. -/
def read
    (folder : Folder)
    (path : String) :
    Except ReadFailure String :=
  if path.toList.contains (Char.ofNat 0) then
    .error .badName
  else if pathLimit ≤ path.utf8ByteSize then
    .error .nameTooLong
  else
    match path.splitOn "/" with
    | [""] => .error .missing
    | "" :: rest =>
        .error (if rest.all String.isEmpty then .isFolder else .missing)
    | parts => folder.follow [] parts

end Folder

end StructuralTyping
