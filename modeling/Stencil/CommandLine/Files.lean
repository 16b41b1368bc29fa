import Stencil.Text.Basic

/-!
# Files in memory

A tree of files is a list of paths with their texts; every path on the way to a
file is a directory. Reading follows a path from the root of the tree and fails as
a file system does.
-/

namespace Stencil.CommandLine

inductive FileError where
  | notFound
  | notADirectory
  | isADirectory
deriving Repr, DecidableEq

def FileError.message : FileError → Text
  | notFound => "No such file or directory (os error 2)".toList
  | notADirectory => "Not a directory (os error 20)".toList
  | isADirectory => "Is a directory (os error 21)".toList

def pathParts : Text → List Text
  | [] => [[]]
  | c :: t =>
      if c = '/' then [] :: pathParts t
      else
        match pathParts t with
        | [] => [[c]]
        | part :: parts => (c :: part) :: parts

/-- Whether a part of a path stays where it is. -/
def isHere (part : Text) : Bool :=
  part = [] || part = ['.']

def parentPart : Text := ['.', '.']

/-- The last part of a path that names something, empty if there is none. -/
def fileName (path : Text) : Text :=
  match ((pathParts path).filter fun part => !isHere part).getLast? with
  | some part => if part = parentPart then [] else part
  | none => []

/-- Paths, cut into parts, with the texts of their files. -/
abbrev Files := List (List Text × Text)

namespace Files

def ofList (files : List (Text × Text)) : Files :=
  files.map fun f => ((pathParts f.1).filter fun part => !isHere part, f.2)

def isDirectory (files : Files) (path : List Text) : Bool :=
  files.any fun f => path.isPrefixOf f.1 && f.1 ≠ path

/-- The text of the file that parts of a path lead to from a directory. -/
def readFrom (files : Files) : (directory : List Text) → List Text → Except FileError Text
  | _, [] => .error .isADirectory
  | directory, part :: rest =>
      if isHere part then readFrom files directory rest
      else if part = parentPart then readFrom files directory.dropLast rest
      else
        let path := directory ++ [part]
        match files.lookup path with
        | some t => if rest = [] then .ok t else .error .notADirectory
        | none => if files.isDirectory path then readFrom files path rest else .error .notFound

/-- The text of the file at a path, which is relative to the root. -/
def read (files : Files) (path : Text) : Except FileError Text :=
  match path with
  | [] => .error .notFound
  | '/' :: _ => .error .notFound
  | path => files.readFrom [] (pathParts path)

end Files

end Stencil.CommandLine
