import ConsLisp.Text.Quoted
import ConsLisp.Text.Utf8

/-!
# Files

Why a file cannot be opened, and files and folders held in memory.
-/

namespace ConsLisp

inductive FileError where
  | notFound
  | notADirectory
  | isADirectory
  | nameTooLong
  deriving DecidableEq

def FileError.code : FileError → Nat
  | .notFound => 2
  | .notADirectory => 20
  | .isADirectory => 21
  | .nameTooLong => 36

def FileError.reason : FileError → String
  | .notFound => "No such file or directory"
  | .notADirectory => "Not a directory"
  | .isADirectory => "Is a directory"
  | .nameTooLong => "File name too long"

/-- What is reported when a path cannot be opened. -/
def FileError.message (error : FileError) (path : String) : String :=
  "[Errno " ++ toString error.code ++ "] " ++ error.reason ++ ": " ++ Text.quoted path

/-- A file, or a folder of named files and folders. -/
inductive FileTree where
  | file (content : List UInt8)
  | folder (entries : List (String × FileTree))

/-- What a folder holds. -/
abbrev Folder := List (String × FileTree)

/-- The folder at the top, with the folders every machine has and the empty device. -/
def Folder.top : Folder :=
  ("dev", .folder [("null", .file [])]) ::
    ["bin", "boot", "etc", "home", "lib", "media", "mnt", "opt", "proc", "root", "run", "sbin",
      "srv", "sys", "tmp", "usr", "var"].map fun name => (name, .folder [])

/-- A directory with files in it and no directories, two folders below the top. -/
structure Directory where
  files : List (String × List UInt8)

namespace Directory

/-- The longest name a file can have, in bytes. -/
def nameLimit : Nat := 255

/-- The longest path that can be followed, in bytes. -/
def pathLimit : Nat := 4095

def folder (directory : Directory) : Folder :=
  directory.files.map fun (name, content) => (name, .file content)

/-- The folders around a directory, the nearest first. -/
def surroundings : List Folder :=
  [[], Folder.top]

/-- Follows the steps of a path from a folder with others around it; `isFolder` says that the path
must end in a folder.  Nothing is around the top, and a step out of it stays there. -/
def walk (isFolder : Bool) (current : Folder) (outer : List Folder) :
    List String → Except FileError (List UInt8)
  | [] => .error .isADirectory
  | "." :: steps => walk isFolder current outer steps
  | ".." :: steps =>
      match outer with
      | [] => walk isFolder current [] steps
      | above :: outer => walk isFolder above outer steps
  | name :: steps =>
      if nameLimit < (Text.Utf8.encode name).length then .error .nameTooLong
      else
        match current.lookup name with
        | none => .error .notFound
        | some (.folder entries) => walk isFolder entries (current :: outer) steps
        | some (.file content) =>
            if steps.isEmpty && !isFolder then .ok content else .error .notADirectory

/-- The contents of the file at a path. -/
def openFile (directory : Directory) (path : String) : Except FileError (List UInt8) :=
  if path.isEmpty then .error .notFound
  else if pathLimit < (Text.Utf8.encode path).length then .error .nameTooLong
  else
    let steps := (path.splitOn "/").filter (· ≠ "")
    if path.startsWith "/" then walk (path.endsWith "/") Folder.top [] steps
    else walk (path.endsWith "/") directory.folder surroundings steps

end Directory

end ConsLisp
