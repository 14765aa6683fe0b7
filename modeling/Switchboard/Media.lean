import Switchboard.Text.Split
/-!
# Stored media

Prompts and recordings are files in folders under the media directory, served under the media address.  Every part of a
file's place is made safe, so that no name leads out of the directory.
-/
namespace Switchboard.Media

def isSafe (c : Char) : Bool :=
  ('A' ≤ c && c ≤ 'Z') || ('a' ≤ c && c ≤ 'z') || ('0' ≤ c && c ≤ '9') || c = '_' || c = '.' || c = '-'

def isEdge (c : Char) : Bool := c = '.' || c = '_'

/-- A part of a place: other characters become `_`, and points and `_` at the ends are dropped. -/
def safeChars (cs : List Char) : List Char :=
  let replaced := cs.map fun c => if isSafe c then c else '_'
  let stripped := ((replaced.dropWhile isEdge).reverse.dropWhile isEdge).reverse
  if stripped.isEmpty then ['_'] else stripped

def safe (part : String) : String := String.ofList (safeChars part.toList)

def components (folder name : String) : List String :=
  ((Text.parts '/' folder).filter (· ≠ "")).map safe ++ [safe name]

/-- Where a file is stored under the media directory. -/
def place (folder name : String) : String := String.intercalate "/" (components folder name)

/-- The slashes that a path begins with: two of them stay as they are, any other number of them counts as one. -/
def root (path : String) : String :=
  match (path.toList.takeWhile (· = '/')).length with
  | 0 => ""
  | 2 => "//"
  | _ => "/"

/-- The names that a path leads through, without the parts that lead nowhere: empty ones, and points for the place itself. -/
def names (path : String) : List String := (Text.parts '/' path).filter fun part => part ≠ "" && part ≠ "."

/-- Where a file is stored. -/
def path (directory folder name : String) : String :=
  root directory ++ String.intercalate "/" (names directory ++ components folder name)

/-- Where a file is served. -/
def url (base folder name : String) : String := String.intercalate "/" (base :: components folder name)

end Switchboard.Media
