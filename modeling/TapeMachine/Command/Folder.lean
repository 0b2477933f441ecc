import TapeMachine.Command.Input

/-! # Folders held in memory

A folder with files and empty folders in it, and the reading of a path from there. -/

namespace TapeMachine.Command
set_option autoImplicit false

/-- A working folder: its files with their contents, and the names of its empty folders. -/
structure Folder where
  files : List (String × ByteArray)
  folders : List String

/-- A place that a path can lead to. -/
inductive Place where
  /-- The working folder. -/
  | here
  /-- One of the empty folders in it. -/
  | inside
  /-- A folder above the working folder. -/
  | above
  | file (content : ByteArray)

namespace Folder

/-- The largest number of bytes of a segment. -/
def maxSegment : Nat := 255

/-- The largest number of bytes of a path. -/
def maxPath : Nat := 4095

/-- The place that one segment of a path leads to. Nothing can be entered below a file; an empty
segment and a dot lead nowhere else, two dots lead to the folder above. -/
def enter (f : Folder) (place : Place) (segment : String) : Except ReadFailure Place :=
  match place with
  | .file _ => .error .notDirectory
  | place =>
    if segment = "" || segment = "." then .ok place
    else if segment = ".." then
      match place with
      | .inside => .ok .here
      | _ => .ok .above
    else if maxSegment < segment.utf8ByteSize then .error .nameTooLong
    else
      match place with
      | .here =>
        match f.files.find? (·.1 = segment) with
        | some (_, content) => .ok (.file content)
        | none => if segment ∈ f.folders then .ok .inside else .error .notFound
      | _ => .error .notFound

/-- The place that the segments of a path lead to. -/
def follow (f : Folder) (place : Place) : List String → Except ReadFailure Place
  | [] => .ok place
  | s :: rest =>
    match f.enter place s with
    | .ok next => f.follow next rest
    | .error e => .error e

/-- The content of the file at a path. -/
def read (f : Folder) (path : String) : Except ReadFailure ByteArray :=
  if maxPath < path.utf8ByteSize then .error .nameTooLong
  else
    let origin : Place := if path.startsWith "/" then .above else .here
    match f.follow origin (path.splitOn "/") with
    | .ok (.file content) => .ok content
    | .ok _ => .error .isDirectory
    | .error e => .error e

/-- The text of an input, when `standard` is what the standard input holds. -/
def readText (f : Folder) (standard : ByteArray) : Input → Except ReadFailure String
  | .standard => decode standard
  | .file path => f.read path >>= decode

end Folder
end TapeMachine.Command
