/-!
# Paths

Two paths that are written differently may name the same place.  They are compared by their
components: repeated slashes, slashes at the end and `.` in the middle do not count, while `..` and
a leading `.` do.
-/

namespace EpochSplit.Path

/-- The parts of a path between its slashes. -/
def parts (path : String) : List String :=
  (path.toList.splitOn '/').map String.ofList

/-- Whether a path starts at the root. -/
def isAbsolute (path : String) : Bool :=
  path.toList.head? == some '/'

/-- Whether a path ends with a slash. -/
def endsInSlash (path : String) : Bool :=
  path.toList.getLast? == some '/'

/-- The components of a path.  The root is written `/`. -/
def components (path : String) : List String :=
  let named := (parts path).filter fun p => p != "" && p != "."
  if isAbsolute path then "/" :: named
  else if (parts path).head? == some "." then "." :: named
  else named

/-- The path that consists of the given components. -/
def ofComponents : List String → String
  | "/" :: names => "/" ++ String.intercalate "/" names
  | names => String.intercalate "/" names

/-- Whether two paths have the same components. -/
def same (a b : String) : Bool :=
  components a == components b

/-- A path below another; an absolute path stands for itself. -/
def join (base name : String) : String :=
  if isAbsolute name || base.isEmpty then name
  else if endsInSlash base then base ++ name
  else base ++ "/" ++ name

/-- A path and those of the directories that it lies in, from the innermost on, as far as the path
names them. -/
def ancestry (path : String) : List String :=
  let names := components path
  if path.isEmpty then []
  else path :: (List.range' 1 (names.length - 1)).reverse.map fun n => ofComponents (names.take n)

end EpochSplit.Path
