/-!
# Places

Where the names in a path lead, without looking at what is there. A path starts where the program
runs, or at the root if it has a slash in front. An empty name and `.` stay, `..` goes to the
directory above, and any other name goes to what has that name. The root has nothing above it.

Two readings of a path differ in what has to be there. `Place.ofPath` is where a path leads by its
names alone; a machine that follows a path step by step needs a directory at each of them.
-/

namespace SheetLedger

/-- A place among the files of a machine. -/
structure Place where
  /-- Whether the names lead there from the root, and not from where the program runs. -/
  isAbsolute : Bool := false
  /-- The names on the way, the last one first. Only from where the program runs, and only at the
  start of the way, they are `..`. -/
  names : List String := []
deriving Repr, DecidableEq

namespace Place

/-- The directory where the program runs. -/
def here : Place := {}

/-- The directory above all others. -/
def root : Place := { isAbsolute := true }

/-- What has a name in the directory at a place. -/
def child (place : Place) (name : String) : Place :=
  { place with names := name :: place.names }

/-- The directory above a place. -/
def parent (place : Place) : Place :=
  match place.names with
  | [] => if place.isAbsolute then root else place.child ".."
  -- above a place that is itself above, one more step outward
  | ".." :: _ => place.child ".."
  | _ :: names => { place with names := names }

/-- Where one name of a path leads. -/
def step (place : Place) (name : String) : Place :=
  if name = "" ∨ name = "." then place
  else if name = ".." then place.parent
  else place.child name

/-- Where a path starts. -/
def startOf (path : String) : Place := if path.startsWith "/" then root else here

/-- The places on the way that names lead, with its start and its end. -/
def walk (place : Place) : List String → List Place
  | [] => [place]
  | name :: names => place :: (place.step name).walk names

/-- The places on the way that a path leads. -/
def wayOf (path : String) : List Place := (startOf path).walk (path.splitOn "/")

/-- Where a path leads. -/
def ofPath (path : String) : Place := (path.splitOn "/").foldl step (startOf path)

/-- A path to a place. -/
def toPath (place : Place) : String :=
  let names := "/".intercalate place.names.reverse
  if place.isAbsolute then "/" ++ names else if names = "" then "." else names

/-- Whether a place is some way above another one. -/
def isAbove (place other : Place) : Bool :=
  place.isAbsolute = other.isAbsolute && place ≠ other && place.names.isSuffixOf other.names

/-- Whether a place lies where the program runs or above, as seen from there. -/
def isOutward (place : Place) : Bool := !place.isAbsolute && place.names.all (· = "..")

/-- Walking by names one after another ends where they lead. -/
theorem getLast?_walk (place : Place) (names : List String) :
    (place.walk names).getLast? = some (names.foldl step place) := by
  induction names generalizing place with
  | nil => rfl
  | cons name names ih =>
    rw [walk, List.getLast?_cons, ih]
    rfl

end Place

end SheetLedger
