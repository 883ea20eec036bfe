/-!
# The directory in which a program runs

Files by name, and a rule that says which file a path names.
-/

namespace ZMachine

structure Directory where
  files : List (String × List UInt8)
  /-- The name of the file that a path names, if there can be one. -/
  resolve : String → Option String

namespace Directory

def read? (d : Directory) (path : String) : Option (List UInt8) :=
  match d.resolve path with
  | some name => d.files.lookup name
  | none => none

/-- The files with one of them made or replaced. -/
def put (name : String) (bytes : List UInt8) :
    List (String × List UInt8) → List (String × List UInt8)
  | [] => [(name, bytes)]
  | (n, b) :: rest => if n = name then (n, bytes) :: rest else (n, b) :: put name bytes rest

def write? (d : Directory) (path : String) (bytes : List UInt8) : Option Directory :=
  match d.resolve path with
  | some name => some { d with files := put name bytes d.files }
  | none => none

/-- Adds to the end of a file, which is made if it is missing. -/
def append? (d : Directory) (path : String) (bytes : List UInt8) : Option Directory :=
  d.write? path ((d.read? path).getD [] ++ bytes)

/-- A folder of that name holds one of the files. -/
def isFolder (names : List String) (folder : String) : Bool :=
  names.any fun name => (folder ++ "/").toList.isPrefixOf name.toList

def partLimit : Nat := 255

/-- The name behind a path that leads on from a folder, given by its parts, last part first. -/
def nameFrom (names : List String) (folder : List String) : List String → Option String
  | [] => none
  | [last] =>
    let name := "/".intercalate (last :: folder).reverse
    if last = "" ∨ last = "." ∨ last = ".." ∨ partLimit < last.utf8ByteSize then none
    else if isFolder names name then none
    else some name
  | part :: rest =>
    if part = "" ∨ part = "." then nameFrom names folder rest
    else if part = ".." then
      match folder with
      | [] => none
      | _ :: folder => nameFrom names folder rest
    else
      let inner := part :: folder
      if isFolder names ("/".intercalate inner.reverse) then nameFrom names inner rest else none

/-- The file that a path names, in a directory with files of the given names. Paths that lead out of
the directory name none. -/
def nameOf (names : List String) (path : String) : Option String :=
  if path.toList.contains '\x00' ∨ path.toList.head? = some '/' then none
  else nameFrom names [] (path.splitOn "/")

/-- A directory that holds these files and no other folders than they need. -/
def ofFiles (files : List (String × List UInt8)) : Directory :=
  { files, resolve := nameOf (files.map (·.1)) }

end Directory

end ZMachine
