/-
This file holds a folder of files in memory, which stands in for the file system when
the inspection tool runs inside another program. A path is walked part by part from the
folder. What lies around the folder is unknown: its parents can be walked through, but
nothing is found in them.
-/

import TypeLanguage.Checksum.Sha1
import TypeLanguage.Gzip.Member
import TypeLanguage.Inspect.Host
import TypeLanguage.Inspect.Path
import TypeLanguage.Toml.Config

namespace TypeLanguage.Inspect

/-- A folder of files. -/
structure Folder where
  /-- The contents of the files, by the names on the way to them. -/
  files : List (List String × ByteArray)

/-- Where a walk stands. -/
inductive Place
  | file (contents : ByteArray)
  /-- A folder inside, by the names on the way to it, the last one first. -/
  | inside (names : List String)
  /-- A folder around. -/
  | outside

namespace Folder

/-! ### Names -/

/-- Whether a part of a path leads nowhere. -/
def isStill (part : String) : Bool :=
  part = "" || part = "."

/-- The names in a path. -/
def names (path : String) : List String :=
  ((Path.parts path.toList).map String.ofList).filter fun part => !isStill part

/-- The folder of files given by their paths. -/
def ofList (files : List (String × ByteArray)) : Folder :=
  ⟨files.map fun (path, contents) => (names path, contents)⟩

/-! ### Walks -/

/-- The longest name, in bytes. -/
def longestName : Nat := 255

/-- The longest path, in bytes. -/
def longestPath : Nat := 4095

/-- The folder that holds a folder. -/
def parent : List String → Place
  | [] => .outside
  | _ :: names => .inside names

/-- What has the given name in a folder inside. -/
def find (folder : Folder) (names : List String) (name : String) : Except ReadError Place :=
  let way := (name :: names).reverse
  match folder.files.lookup way with
  | some contents => .ok (.file contents)
  | none =>
    if folder.files.any fun file => way.isPrefixOf file.1 then .ok (.inside (name :: names))
    else .error .notFound

/-- One step of a walk. -/
def step (folder : Folder) (place : Place) (part : String) : Except ReadError Place :=
  match place with
  | .file _ => .error .notADirectory
  | .inside names =>
    if isStill part then .ok place
    else if part = ".." then .ok (parent names)
    else if part.utf8ByteSize > longestName then .error .nameTooLong
    else find folder names part
  | .outside =>
    if isStill part || part = ".." then .ok place
    else if part.utf8ByteSize > longestName then .error .nameTooLong
    else .error .notFound

/-- Where a path leads. -/
def walk (folder : Folder) (path : String) : Except ReadError Place :=
  match Path.parts path.toList with
  | [] :: [] => .error .notFound
  | [] :: parts => (parts.map String.ofList).foldlM (step folder) .outside
  | parts => (parts.map String.ofList).foldlM (step folder) (.inside [])

/-- The contents of the file that a path leads to. -/
def read (folder : Folder) (path : String) : Except ReadError ByteArray :=
  if path.toList.contains '\x00' then .error .zeroInName
  else if path.utf8ByteSize > longestPath then .error .nameTooLong
  else
    match walk folder path with
    | .error cause => .error cause
    | .ok (.file contents) => .ok contents
    | .ok _ => .error .isADirectory

/-- The surroundings made of a folder, a path of the configuration, and a standard input,
which is the state and can be read only once. -/
def host (folder : Folder) (configPath : Option String) : Host (StateM ByteArray) where
  readFile path := return folder.read path
  readInput := modifyGet fun input => (.ok input, .empty)
  configPath := configPath
  parseConfig := Config.parse
  order := .rising

end Folder

end TypeLanguage.Inspect
