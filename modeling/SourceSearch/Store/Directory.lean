import SourceSearch.Store.Table
import SourceSearch.Text.Split

/-!
# Directories

A directory holds files of any bytes and folders, both known by their paths below it, whose parts
are joined by slashes. Nothing outside of the directory can be reached.
-/

set_option autoImplicit false

namespace SourceSearch

/-- The files below a directory and the folders below it, by path. -/
structure Directory where
  files : Table String ByteArray
  folders : Table String Unit

namespace Directory

/-- The parts of a path; blank parts and those that stay in place do not count. -/
def parts (path : String) : List String :=
  (Text.split '/' path).filter fun part => part ≠ "" && part ≠ "."

/-- The folder that the parts lead to, and the folders on the way. -/
def addFolders (folders : Table String Unit) (parts : List String) : Table String Unit :=
  (List.range parts.length).foldl
    (fun folders n => folders.insert ("/".intercalate (parts.take (n + 1))) ()) folders

/-- Adds a file and the folders that it is in. -/
def addFile (dir : Directory) (path : String) (bytes : ByteArray) : Directory :=
  ⟨dir.files.insert ("/".intercalate (parts path)) bytes,
    addFolders dir.folders (parts path).dropLast⟩

/-- A directory with these files and further folders. -/
def ofListing (files : List (String × ByteArray)) (folders : List String) : Directory :=
  let empty : Directory := ⟨∅, folders.foldl (fun table path => addFolders table (parts path)) ∅⟩
  files.foldl (fun dir file => dir.addFile file.1 file.2) empty

/-- The path below a folder, unless it does not lead there. -/
def pathBelow? (folder path : String) : Option String :=
  let before := (folder ++ "/").toList
  if before.isPrefixOf path.toList then some (String.ofList (path.toList.drop before.length))
  else none

/-- The entries of a table whose paths are below a folder. -/
def tableBelow {α : Type} (folder : String) (table : Table String α) : Table String α :=
  table.entries.foldl (fun below entry =>
    match pathBelow? folder entry.1 with
    | some path => below.insert path entry.2
    | none => below) ∅

/-- The directory that a folder is. -/
def below (dir : Directory) (folder : String) : Directory :=
  ⟨tableBelow folder dir.files, tableBelow folder dir.folders⟩

/-- One step on the way to a folder: back to the one around it, or into one that exists. -/
def step? (dir : Directory) (here : List String) (part : String) : Option (List String) :=
  if part = ".." then
    if here.isEmpty then none else some here.dropLast
  else if dir.folders.contains ("/".intercalate (here ++ [part])) then some (here ++ [part])
  else none

/-- The directory that a path leads to. -/
def open? (dir : Directory) (path : String) : Option Directory :=
  if path.toList.head? = some '/' then none
  else ((parts path).foldlM dir.step? []).map fun here =>
    if here.isEmpty then dir else dir.below ("/".intercalate here)

/-- The text of a file, if its bytes are UTF-8. -/
def text? (dir : Directory) (path : String) : Option String :=
  (dir.files.get? path).bind String.fromUTF8?

/-- The files whose bytes are UTF-8, by path. -/
def texts (dir : Directory) : List (String × String) :=
  dir.files.entries.filterMap fun (path, bytes) =>
    (String.fromUTF8? bytes).map fun text => (path, text)

end Directory

end SourceSearch
