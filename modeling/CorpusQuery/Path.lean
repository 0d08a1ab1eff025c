/-!
# Paths of files

Paths are texts and are never simplified. A path that starts with a slash is absolute, and joining
an absolute path to a directory gives the path alone.
-/

namespace CorpusQuery.Path

/-- Whether a path starts at the root. -/
def isAbsolute (path : String) : Bool := path.toList.head? == some '/'

/-- A path seen from a directory. The slash between them is added unless it is there; no directory
has none. -/
def join (directory path : String) : String :=
  if isAbsolute path || directory.isEmpty then path
  else if directory.toList.getLast? == some '/' then directory ++ path
  else directory ++ "/" ++ path

/-- A path with `~` in front standing for the home directory. -/
def expandHome (home path : String) : String :=
  match path.toList with
  | ['~'] => home
  | '~' :: '/' :: rest => join home (.ofList rest)
  | _ => path

/-- A file seen from a directory, either of which may be in the home directory. -/
def resolve (home directory file : String) : String :=
  let file := expandHome home file
  if isAbsolute file then file else join (expandHome home directory) file

end CorpusQuery.Path
