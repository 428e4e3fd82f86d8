import ConfigSchema.Text.Split

/-!
A directory as far as it is known, and the files to which names lead from it. A name is made of
parts between slashes. A part is the name of a directory that is there, or two points for the
directory above; empty parts and single points stay where they are.
-/

namespace ConfigSchema

/-- A path from a directory downwards. -/
abbrev DirectoryPath := List (List Char)

structure Directory where
  directories : List DirectoryPath
  /-- The files with their texts. -/
  files : List (DirectoryPath × String)

namespace Directory

def parts (name : String) : List (List Char) := Text.splitAt '/' name.toList

/-- The part leads nowhere else. -/
def isHere (part : List Char) : Bool := part = [] || part = ['.']

def isAbove (part : List Char) : Bool := part = ['.', '.']

/-- The directory with directories and files of some names. -/
def ofNames (directories : List String) (files : List (String × String)) : Directory :=
  let path (name : String) : DirectoryPath := (parts name).filter fun part => !isHere part
  ⟨directories.map path, files.map fun p => (path p.1, p.2)⟩

/-- A directory is there when it is known, or when something in it is. -/
def hasDirectory (d : Directory) (path : DirectoryPath) : Bool :=
  d.directories.any path.isPrefixOf || d.files.any fun p => path.isPrefixOf p.1.dropLast

/-- Where parts lead from a path; nowhere when a directory is missing, or above the first one. -/
def enter (d : Directory) (here : DirectoryPath) : List (List Char) → Option DirectoryPath
  | [] => some here
  | part :: rest =>
    if isHere part then d.enter here rest
    else if isAbove part then
      if here = [] then none else d.enter here.dropLast rest
    else if d.hasDirectory (here ++ [part]) then d.enter (here ++ [part]) rest
    else none

/-- The text of the file to which a name leads. A name that begins with a slash leads out of the
directory. -/
def text? (d : Directory) (name : String) : Option String :=
  match (parts name).getLast? with
  | none => none
  | some file =>
    if isHere file || isAbove file || name.toList.head? = some '/' then none
    else
      (d.enter [] (parts name).dropLast).bind fun here => d.files.lookup (here ++ [file])

end Directory

end ConfigSchema
