/-! Files, by their paths. -/

namespace Conform

inductive ReadFault where
  | missing
  | notDirectory
  | isDirectory
  | nameTooLong
  | nulInName
  | notText
  /-- Any other reason, in the words of the system. -/
  | other (message : String)
  deriving DecidableEq

def ReadFault.message : ReadFault → String
  | .missing => "No such file or directory (os error 2)"
  | .notDirectory => "Not a directory (os error 20)"
  | .isDirectory => "Is a directory (os error 21)"
  | .nameTooLong => "File name too long (os error 36)"
  | .nulInName => "file name contained an unexpected NUL byte"
  | .notText => "stream did not contain valid UTF-8"
  | .other message => message

structure Files where
  read : String → Except ReadFault ByteArray

namespace Files

def names (path : String) : List String :=
  -- Empty names and single dots lead nowhere.
  (path.splitOn "/").filter fun name => name != "" && name != "."

/-- The last name of a path; one that leads upwards has none. -/
def fileName? (path : String) : Option String :=
  (names path).getLast?.filter (· != "..")

/-- What follows the last dot of a file's name, unless the name begins with that dot. -/
def extension? (path : String) : Option String := do
  let name ← fileName? path
  let reversed := name.toList.reverse
  let ending := reversed.takeWhile (· != '.')
  match reversed.dropWhile (· != '.') with
  | _ :: _ :: _ => some (String.ofList ending.reverse)
  | _ => none

abbrev Directory := List (List String × ByteArray)

def isDirectory (files : Directory) (place : List String) : Bool :=
  place.isEmpty ||
    files.any fun (name, _) => place.isPrefixOf name && decide (place.length < name.length)

def locate (files : Directory) (place : List String) : List String → Except ReadFault (List String)
  | [] => .ok place
  | name :: rest =>
    if !isDirectory files place then
      .error (if (files.lookup place).isSome then .notDirectory else .missing)
    else if 255 < name.utf8ByteSize then .error .nameTooLong
    else if name = ".." then
      if place.isEmpty then .error .missing else locate files place.dropLast rest
    else locate files (place ++ [name]) rest

def namesDirectory (path : String) : Bool := path.endsWith "/" || path.endsWith "/."

/-- Files of one directory; paths that leave it lead nowhere. -/
def ofDirectory (files : Directory) : Files where
  read path :=
    if path.toList.contains '\x00' then .error .nulInName
    else if path.startsWith "/" then .error .missing
    else
      match locate files [] (names path) with
      | .error e => .error e
      | .ok place =>
        match files.lookup place with
        | some content => if namesDirectory path then .error .notDirectory else .ok content
        | none => .error (if isDirectory files place then .isDirectory else .missing)

def ofList (files : List (String × ByteArray)) : Files :=
  ofDirectory (files.map fun (path, content) => (names path, content))

def readText (files : Files) (path : String) : Except ReadFault String :=
  match files.read path with
  | .ok bytes =>
    match String.fromUTF8? bytes with
    | some text => .ok text
    | none => .error .notText
  | .error e => .error e

end Files

end Conform
