/-
This file holds the few operations on paths that the inspection tool needs: the
directory of a file, a path taken from there, and the parts between the slashes.
-/

import TypeLanguage.Text.Blank

namespace TypeLanguage.Inspect.Path

/-- A path in reverse without the slashes and the parts `.` at its end. A path of only
slashes keeps one, and a `.` that starts the path stays. -/
def trimReversed : List Char → List Char
  | ['/'] => ['/']
  | '/' :: rest => trimReversed rest
  | '.' :: '/' :: rest => trimReversed ('/' :: rest)
  | path => path

/-- The directory of a file: what stands before the last part of its path. -/
def directory (path : String) : String :=
  let reversed := path.toList.reverse
  String.ofList (trimReversed (reversed.dropWhile fun character => character != '/')).reverse

/-- A path taken from a directory; an absolute one stands for itself. -/
def join (directory path : String) : String :=
  match path.toList with
  | '/' :: _ => path
  | _ =>
    match directory.toList.getLast? with
    | none | some '/' => directory ++ path
    | some _ => directory ++ "/" ++ path

/-- What stands in front of, between and behind the slashes of a path. -/
def parts : List Char → List (List Char)
  | [] => [[]]
  | '/' :: path => [] :: parts path
  | character :: path =>
    match parts path with
    | [] => [[character]]
    | part :: following => (character :: part) :: following

end TypeLanguage.Inspect.Path
