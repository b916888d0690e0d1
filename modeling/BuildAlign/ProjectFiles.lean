import BuildAlign.DelimitedText
import BuildAlign.OrderedMap

/-! # Paths and files

A path is kept as it was given, without the parts that do not matter: single dots and empty names.
To what it leads is found from the directory the program runs in; there are no links.  A file is
known by its text in UTF-8.  Files with other bytes are not on the disk that is described here, and
whatever is said about all files is not said about them. -/
namespace BuildAlign

/-- The names of a path.  An absolute one is anchored at one slash, or at two that begin it. -/
structure ProjectPath where
  anchor : String
  names : List String
deriving DecidableEq, Repr

namespace ProjectPath

def anchorOf : List Char → String
  | '/' :: '/' :: '/' :: _ => "/"
  | '/' :: '/' :: _ => "//"
  | '/' :: _ => "/"
  | _ => ""

def ofText (s : String) : ProjectPath where
  anchor := anchorOf s.toList
  names := ((DelimitedText.split '/' s.toList).map String.ofList).filter fun n => n ≠ "" && n ≠ "."

/-- The path from one place on; an absolute path starts anew. -/
def join (p q : ProjectPath) : ProjectPath :=
  if q.anchor = "" then ⟨p.anchor, p.names ++ q.names⟩ else q

def child (p : ProjectPath) (name : String) : ProjectPath := p.join (ofText name)

def text (p : ProjectPath) : String :=
  if p.anchor = "" && p.names = [] then "." else p.anchor ++ "/".intercalate p.names

end ProjectPath

/-- A place in the tree of files: the names on the way from the root. -/
abbrev Location := List String

/-- Files with their texts, and the directory that relative paths start from. -/
structure Disk where
  home : Location
  files : OrderedMap Location String
deriving DecidableEq

/-- What is found at the end of a path. -/
inductive Lookup
  | file (text : String)
  | directory
  | absent
  /-- The path is longer than the disk allows, or has a name that is. -/
  | tooLong
deriving DecidableEq, Repr

namespace Disk

/-- A step along a path, two dots leading upwards. -/
def walk (location : Location) (name : String) : Location :=
  if name = ".." then location.dropLast else location ++ [name]

/-- The directory that a path starts from. -/
def start (disk : Disk) (p : ProjectPath) : Location := if p.anchor = "" then disk.home else []

/-- Where a path leads, whether or not there is anything. -/
def resolve (disk : Disk) (p : ProjectPath) : Location := p.names.foldl walk (disk.start p)

/-- Directories are those that files are in, and those that the program runs in. -/
def isDirectory (disk : Disk) (location : Location) : Bool :=
  location.isPrefixOf disk.home ||
    disk.files.keys.any fun file => location.isPrefixOf file && location ≠ file

/-- The most bytes that a name in a directory may have, ... -/
def longestName : Nat := 255
/-- ... and a path. -/
def longestPath : Nat := 4095

/-- Follows names from a place on.  All of them have to be looked up in directories. -/
def follow (disk : Disk) (location : Location) : List String → Lookup
  | [] =>
    if disk.isDirectory location then .directory
    else match disk.files.get? location with
      | some text => .file text
      | none => .absent
  | name :: names =>
    if !disk.isDirectory location then .absent
    else if longestName < name.utf8ByteSize then .tooLong
    else disk.follow (walk location name) names

/-- What a path leads to.  One with a null character leads nowhere, however long it is. -/
def lookup (disk : Disk) (p : ProjectPath) : Lookup :=
  if p.text.toList.contains '\x00' then .absent
  else if longestPath < p.text.utf8ByteSize then .tooLong
  else disk.follow (disk.start p) p.names

def write (disk : Disk) (p : ProjectPath) (text : String) : Disk :=
  { disk with files := disk.files.insert (disk.resolve p) text }

private theorem get?_of_follow {disk : Disk} {location : Location}
    {names : List String} {text : String}
    (h : disk.follow location names = .file text) :
    disk.files.get? (names.foldl walk location) = some text := by
  fun_induction follow disk location names with
  | case1 => simp at h
  | case2 location _ text' hg => simp_all
  | case3 => simp at h
  | case4 => simp at h
  | case5 => simp at h
  | case6 location name names _ _ ih => exact ih h

theorem get?_of_lookup {disk : Disk} {p : ProjectPath} {text : String}
    (h : disk.lookup p = .file text) : disk.files.get? (disk.resolve p) = some text := by
  unfold lookup at h
  split at h
  · simp at h
  · split at h
    · simp at h
    · exact get?_of_follow h

end Disk
end BuildAlign
