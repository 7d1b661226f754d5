/-! Paths inside filters. The option of a filter stands between single quotes and is unquoted twice,
first where the graph is cut into filters and then where a filter is cut into options. -/

namespace Montage.Filter

/-- A character of a path between single quotes. A backslash becomes a slash; a colon is escaped for
the second unquoting; a quote closes the quotes, stands escaped for both, and opens them again. -/
def escapedPathChar : Char → List Char
  | '\\' => ['/']
  | ':' => ['\\', ':']
  | '\'' => ['\'', '\\', '\\', '\\', '\'', '\'']
  | c => [c]

/-- A path for use between single quotes. -/
def escapedPath (path : String) : String :=
  String.ofList (path.toList.flatMap escapedPathChar)

end Montage.Filter
