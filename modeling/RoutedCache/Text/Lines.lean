/-!
# Lines

A line ends in a line feed, with or without a carriage return before it.
-/

namespace RoutedCache

/-- A line without the carriage return of its end. -/
def withoutReturn (line : String) : String :=
  if line.toList.getLast? = some '\r' then String.ofList line.toList.dropLast else line

/-- The lines of a text that is followed by the end of a line. -/
def linesOf (text : String) : List String := (text.splitOn "\n").map withoutReturn

end RoutedCache
