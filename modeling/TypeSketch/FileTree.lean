import TypeSketch.Run
import TypeSketch.Text.Segments

/-! Runs in a working directory with files below it. A path is followed name by name, so what is wrong with its first bad
name decides. Beside the files of the working directory a path can lead to those that every system has, and the standard
input is among these. -/
namespace TypeSketch

/-- Files and directories by their places, which are lists of names from the root on. -/
structure FileTree where
  files : List (List String × Stream)
  /-- Directories in which there need not be a file. -/
  directories : List (List String)
  here : List String

namespace FileTree

def workingDirectory : List String := ["tmp", "work"]

def systemDirectories : List (List String) :=
  [["bin"], ["dev"], ["etc"], ["home"], ["lib"], ["media"], ["mnt"], ["opt"], ["proc"], ["root"], ["run"], ["sbin"],
    ["srv"], ["sys"], ["tmp"], ["usr"], ["var"]]

def inputPlaces : List (List String) := [["dev", "stdin"], ["dev", "fd", "0"], ["proc", "self", "fd", "0"]]

def systemFiles (standardInput : Stream) : List (List String × Stream) :=
  (["dev", "null"], []) :: inputPlaces.map (·, standardInput)

/-- Files below the working directory, by their names from there on. -/
def filesBelow (files : List (List String × List UInt8)) : List (List String × Stream) :=
  files.map fun file => (workingDirectory ++ file.1, [.bytes file.2])

def ofFiles (standardInput : Stream) (files : List (List String × List UInt8)) : FileTree where
  files := filesBelow files ++ systemFiles standardInput
  directories := workingDirectory :: systemDirectories
  here := workingDirectory

def names (path : String) : List String := (segments (· = '/') path.toList).map String.ofList

def longestName : Nat := 255

def longestPath : Nat := 4095

def places (tree : FileTree) : List (List String) := tree.files.map (·.1)

/-- Whether a place is that of a directory: one of those that are known, or with something below it. -/
def isDirectory (tree : FileTree) (place : List String) : Bool :=
  tree.directories.any place.isPrefixOf || tree.places.any fun file => place.isPrefixOf file && place ≠ file

/-- The place that names lead to from a directory on. Above the root is the root. -/
def follow (tree : FileTree) (place : List String) : List String → Except SystemError (List String)
  | [] => .ok place
  | name :: rest =>
    if name = "" ∨ name = "." then tree.follow place rest
    else if name = ".." then tree.follow place.dropLast rest
    else if longestName < name.utf8ByteSize then .error .nameTooLong
    else if place ++ [name] ∈ tree.places then
      if rest.isEmpty then .ok (place ++ [name]) else .error .notADirectory
    else if tree.isDirectory (place ++ [name]) then tree.follow (place ++ [name]) rest
    else .error .notFound

/-- The place that a path leads to, from the root on if it begins with a slash. -/
def locate (tree : FileTree) (path : String) : Except SystemError (List String) :=
  if path.isEmpty then .error .notFound
  else if longestPath < path.utf8ByteSize then .error .nameTooLong
  else
    match names path with
    | "" :: rest => tree.follow [] rest
    | names => tree.follow tree.here names

/-- What is read at a place. A directory can be opened too, but reading it fails. -/
def contents (tree : FileTree) (place : List String) : Stream :=
  (tree.files.lookup place).getD [.failed .isADirectory]

def openPath (tree : FileTree) (path : String) : Except SystemError Stream := tree.contents <$> tree.locate path

end FileTree

def Environment.ofFiles (logging : Option String) (standardInput : Stream) (files : List (List String × List UInt8)) :
    Environment where
  logging := logging
  standardInput := standardInput
  openFile := (FileTree.ofFiles standardInput files).openPath

end TypeSketch
