/-!
# Paths

A path is a text whose parts are divided by slashes.
-/

namespace ScenePrune.Path

def parts (path : String) : List String := path.splitOn "/"

/-- Whether a path can lead anywhere: no part of it is longer than 255 bytes, all of it is shorter
than 4096, and it has no null character. -/
def isValid (path : String) : Bool :=
  path.utf8ByteSize < 4096 && path.all (· ≠ '\x00') && (parts path).all (·.utf8ByteSize ≤ 255)

/-- A name up to its last dot. The dot that a name starts with does not count. -/
def stem (name : List Char) : List Char :=
  match name.reverse.dropWhile (· ≠ '.') with
  | _ :: c :: rest => (c :: rest).reverse
  | _ => name

/-- Gives the last part of a path another extension, or its first one. A path that ends in no name
stays as it is. Where the name without its extension would be two dots, these lead to the directory
above and take no extension. -/
def withExtension (path extension : String) : String :=
  let name := (path.toList.reverse.takeWhile (· ≠ '/')).reverse
  let directory := (path.toList.reverse.dropWhile (· ≠ '/')).reverse
  if String.ofList name ∈ ["", ".", ".."] then path
  else if stem name = ['.'] then String.ofList directory ++ ".."
  else String.ofList (directory ++ stem name) ++ "." ++ extension

end ScenePrune.Path
