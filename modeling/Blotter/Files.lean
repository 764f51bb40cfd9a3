import Blotter.Text

/-!
# Files

What a path leads to. The files there are stand in a tree of folders, one of which is the working
folder. The parts of a path stand between slashes and are followed one by one, from the root if the
path begins with a slash and from the working folder otherwise: an empty part or a point stays, two
points go up, a name goes down. Nothing can be followed out of what is not a folder, and nothing is
looked up under a name that is too long.
-/

set_option autoImplicit false

namespace Blotter

inductive Place where
  | file (text : String)
  | folder
  | missing
  | nameTooLong
  deriving DecidableEq, Repr

/-- The text to be read at a place. A folder opens like a file and holds no text. -/
def Place.text? : Place → Option String
  | .file text => some text
  | .folder => some ""
  | .missing => none
  | .nameTooLong => none

/-- Files with their texts, each under the names of the folders above it and its own. -/
structure Files where
  workingFolder : List String
  texts : List (List String × String)

namespace Files

/-- The most bytes of a name, and the first number of bytes that is too much for a path. -/
def nameBytes : Nat := 255

def pathBytes : Nat := 4096

/-- Whether there is a folder: one on the way to the working folder, or one above a file. -/
def isFolder (fs : Files) (place : List String) : Bool :=
  place.isPrefixOf fs.workingFolder ||
    fs.texts.any fun file => place.isPrefixOf file.1 && place ≠ file.1

def parts (path : String) : List String :=
  (Text.records '/' (path.toList ++ ['/'])).map String.ofList

def isTooLong (path : String) : Bool :=
  pathBytes ≤ path.utf8ByteSize || (parts path).any (nameBytes < ·.utf8ByteSize)

def enter (folder : List String) (part : String) : List String :=
  if part = "" ∨ part = "." then folder
  else if part = ".." then folder.dropLast
  else folder ++ [part]

def follow (fs : Files) (here : List String) : List String → Place
  | [] =>
    if fs.isFolder here then .folder
    else match fs.texts.find? (·.1 = here) with
      | some file => .file file.2
      | none => .missing
  | part :: parts =>
    if !fs.isFolder here then .missing
    else if nameBytes < part.utf8ByteSize then .nameTooLong
    else fs.follow (enter here part) parts

def place (fs : Files) (path : String) : Place :=
  let path := Text.upToNul path
  let start := if path.toList.head? = some '/' then [] else fs.workingFolder
  if path.isEmpty then .missing
  else if pathBytes ≤ path.utf8ByteSize then .nameTooLong
  else fs.follow start (parts path)

end Files

end Blotter
