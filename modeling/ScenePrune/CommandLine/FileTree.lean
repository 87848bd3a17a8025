import ScenePrune.CommandLine.Workspace
import ScenePrune.OrderedMap
import ScenePrune.Path

/-!
# File trees

A `FileTree` holds directories and the texts of files below one top directory. Above the top it
begins without files. A `Desk` is a tree with what was put out; on a desk a run is a function of the
files it finds.
-/

namespace ScenePrune.CommandLine

/-- A file or directory by the names that lead to it from the top. Above the top a place begins with
two dots for every level. -/
abbrev Place := List String

namespace Place

def isLevel (place : Place) : Bool := place.all (· = "..")

def parent (place : Place) : Place := if isLevel place then place ++ [".."] else place.dropLast

def isInside (place : Place) : Bool := place.head? ≠ some ".."

end Place

structure FileTree where
  files : OrderedMap Place String
  /-- The directories below the top, and those that were made above it. -/
  directories : List Place
deriving DecidableEq

namespace FileTree

instance : EmptyCollection FileTree := ⟨⟨∅, []⟩⟩

/-- Above the top nothing is known but the directories on the way there. -/
def isDirectory (t : FileTree) (place : Place) : Bool :=
  Place.isLevel place || place ∈ t.directories

def isFile (t : FileTree) (place : Place) : Bool := t.files.contains place

def isOutside (path : String) : Bool := path.startsWith "/"

def sink : String := "/dev/null"

def follow (t : FileTree) (here : Place) (part : String) : Option Place :=
  if !t.isDirectory here then none
  else if part = "" || part = "." then some here
  else if part = ".." then some (Place.parent here)
  else some (here ++ [part])

def locate? (t : FileTree) (path : String) : Option Place :=
  if isOutside path || !Path.isValid path then none else (Path.parts path).foldlM t.follow []

def read? (t : FileTree) (path : String) : Option String :=
  if path = sink then some "" else (t.locate? path).bind t.files.get?

def write? (t : FileTree) (path text : String) : Option FileTree :=
  if path = sink then some t
  else do
    let place ← t.locate? path
    if t.isDirectory place then none else some { t with files := t.files.insert place text }

def descend : FileTree × Place → String → Option (FileTree × Place)
  | (t, here), part =>
    if part = "" || part = "." then some (t, here)
    else if part = ".." then some (t, Place.parent here)
    else
      let next := here ++ [part]
      if t.isFile next then none
      else if t.isDirectory next then some (t, next)
      else some ({ t with directories := t.directories ++ [next] }, next)

def makeDirectory? (t : FileTree) (path : String) : Option FileTree :=
  if !Path.isValid path || path = sink || path.startsWith (sink ++ "/") then none
  else if isOutside path then some t
  else ((Path.parts path).foldlM descend (t, [])).map Prod.fst

def addFile (t : FileTree) (path text : String) : FileTree :=
  let place := (Path.parts path).filter fun part => part ≠ "" && part ≠ "."
  let above := ((List.range place.length).drop 1).map place.take
  { files := t.files.insert place text
    directories := t.directories ++ above.filter (· ∉ t.directories) }

def ofFiles (files : List (String × String)) : FileTree :=
  files.foldl (fun t (path, text) => t.addFile path text) ∅

def changesSince (t later : FileTree) : List (Place × String) :=
  later.files.entries.filter fun (place, text) =>
    Place.isInside place && t.files.get? place ≠ some text

end FileTree

inductive Output where
  | entry (entry : LogEntry)
  | text (text : String)
deriving DecidableEq, Repr

structure Desk where
  tree : FileTree
  output : List Output := []

namespace Desk

def replace (d : Desk) : Option FileTree → Bool × Desk
  | some tree => (true, { d with tree })
  | none => (false, d)

instance : Workspace (StateM Desk) where
  read? path := fun d => (d.tree.read? path, d)
  write path text := fun d => d.replace (d.tree.write? path text)
  openLog path := fun d => d.replace (d.tree.makeDirectory? path)
  log entry := fun d => ((), { d with output := d.output ++ [.entry entry] })
  print text := fun d => ((), { d with output := d.output ++ [.text text] })
  notify _ := pure ()

end Desk

end ScenePrune.CommandLine
