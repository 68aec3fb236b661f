import JavaAtlas.Path
import JavaAtlas.Text.Blank
import JavaAtlas.Text.Lines

/-!
The list of libraries that a build tool writes: on each line paths with colons between them.
-/

namespace JavaAtlas.Classpath

open Text

/-- The paths of one line. -/
def linePaths (line : List Char) : List String :=
  ((splitChars ':' (trimBlanks line)).filter (!·.isEmpty)).map String.ofList

/-- The paths of a list, each once and in order. -/
def parseDump (text : String) : List String :=
  Path.distinct ((linesOf text.toList).flatMap linePaths)

end JavaAtlas.Classpath
