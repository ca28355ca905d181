import IssueMarkdown.Web.Percent

/-! # Paths of addresses

A path below the root is a list of segments. Segments that are dots are resolved when it is
read: one dot stays where it is, two dots go one segment up, but never out of a drive.
-/

namespace IssueMarkdown.Web

open Percent Text

/-- A path below the root, by its segments, or a text without such structure. -/
inductive Path where
  | rooted (segments : List Text)
  | rootless (text : Text)
  deriving DecidableEq, Repr

namespace Path

/-- A dot in a segment may be written `%2e`. -/
def undot : Text → Text
  | [] => []
  | '%' :: '2' :: 'e' :: t => '.' :: undot t
  | '%' :: '2' :: 'E' :: t => '.' :: undot t
  | c :: t => c :: undot t

def isHere (segment : Text) : Bool := undot segment == ['.']

def isUp (segment : Text) : Bool := undot segment == ['.', '.']

/-- Whether a segment names a drive, by a letter and a colon or a bar; more may only stand
behind a backslash. -/
def namesDrive : Text → Bool
  | c :: d :: t => c.isAlpha && (d == ':' || d == '|') && t.head?.all (· == '\\')
  | _ => false

/-- A drive and nothing else. -/
def isDrive (segment : Text) : Bool := namesDrive segment && segment.length == 2

/-- One segment up, of the segments kept so far in reverse. -/
def up : List Text → List Text
  | [] => []
  | s :: kept => if namesDrive s then s :: kept else kept

/-- A segment of a file at the root, which has a colon if it is a drive. -/
def driveText (segment : Text) : Text :=
  if isDrive segment then segment.take 1 ++ [':'] else segment

/-- Resolves segments, those kept so far in reverse; a dot segment at the end leaves an empty
one. `first` is applied to a segment that comes to stand at the root. -/
def resolve (first : Text → Text) (kept : List Text) : List Text → List Text
  | [] => kept.reverse
  | s :: ss =>
    let closed (kept : List Text) := if ss.isEmpty then [] :: kept else kept
    if isUp s then resolve first (closed (up kept)) ss
    else if isHere s then resolve first (closed kept) ss
    else resolve first ((if kept.isEmpty then first s else s) :: kept) ss

/-- The segments between separators, encoded and resolved. -/
def segments (isSep : Char → Bool) (t : Text) : List Text :=
  resolve id [] ((splitBy isSep t).map (encodeBy keepsInPath))

/-- The segments of a file. Empty ones at the front are left out, and whether the file is below
a drive, which belongs to no host, is told beside them. -/
def fileSegments (isSep : Char → Bool) (t : Text) : List Text × Bool :=
  let ss := resolve driveText [] ((splitBy isSep t).map (encodeBy keepsInPath))
  let named := ss.dropWhile List.isEmpty
  (if named.isEmpty then [[]] else named, ss.head?.any isDrive)

def text : Path → Text
  | rooted ss => ss.flatMap ('/' :: ·)
  | rootless t => t

end Path

end IssueMarkdown.Web
