import Mos6502.Text.Bytes

/-!
# Paths

Paths are texts with slashes between their pieces. Two paths are the same if they have the same
components: repeated slashes and pieces that stay where they are do not count, except for a dot at
the very start, which is kept. So `./a.s` and `a.s` are different paths, although they lead to the
same file.
-/

namespace Mos6502.Cli

/-- The pieces of a text between slashes. There is always one more piece than slashes. -/
def piecesOf : List Char → List (List Char)
  | [] => [[]]
  | c :: cs =>
    if c = '/' then [] :: piecesOf cs
    else match piecesOf cs with
      | [] => [[c]]
      | p :: ps => (c :: p) :: ps

/-- The pieces of a path. -/
def pieces (path : String) : List String :=
  (piecesOf path.toList).map String.ofList

/-- Does the piece leave a walk along the path where it is? -/
def isStay (piece : String) : Bool :=
  piece == "" || piece == "."

/-- The components that two equal paths share. -/
def components (path : String) : List String :=
  match pieces path with
  | [] => []
  | first :: rest =>
    let start := if first ≠ "" then [first] else if path = "" then [] else ["/"]
    start ++ rest.filter fun p => !isStay p

/-- Are the paths written the same, up to what does not count? -/
def samePath (p q : String) : Bool :=
  components p == components q

/-- The text before the last dot of a file name. A name without a dot, or with its only dot in
front, is all stem. -/
def stem (name : List Char) : List Char :=
  let before := (name.reverse.dropWhile (· ≠ '.')).drop 1
  if before.isEmpty then name else before.reverse

/-- The path with the extension of its file name replaced. A path that ends in no file name stays
as it is. -/
def withExtension (path extension : String) : String :=
  match (pieces path).reverse.dropWhile isStay with
  | [] => path
  | name :: before =>
    if name = ".." then path
    else
      let name' := String.ofList (stem name.toList) ++ "." ++ extension
      String.intercalate "/" (before.reverse ++ [name'])

end Mos6502.Cli
