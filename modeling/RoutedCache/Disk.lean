import RoutedCache.Path
import RoutedCache.Store

/-!
# Disks

A disk is a tree of folders with plain files and databases in them.  A path is followed name by name from a
folder; each name has to be there and all but the last have to be folders.  A store makes the folders above its
file and opens the file for itself: as long as it is open no other store opens the same file.
-/

namespace RoutedCache

inductive Node where
  | folder
  /-- A folder in which nothing can be made. -/
  | sealed
  /-- A file that keeps nothing. -/
  | device
  | plain (content : Bytes)
  | database (collections : Database)
deriving DecidableEq

inductive OpenFault where
  /-- The folders above the file cannot be made. -/
  | above (fault : PathFault)
  /-- The path does not lead to a file. -/
  | path (fault : PathFault)
  /-- Another store has the file open. -/
  | locked
  /-- The file is no database. -/
  | content
  /-- The collection has another type. -/
  | collection
  /-- A collection without a name stops the program. -/
  | unnamed
deriving DecidableEq, Repr

/-- What is at the places below the root, and the files that are open. -/
structure Disk where
  nodes : List (Place × Node) := []
  opened : List Place := []

namespace Disk

/-- The folder in which the program runs. -/
def home : Place := ["tmp", "home"]

/-- A disk with an empty home and some of the folders and devices that every system has. -/
def fresh : Disk :=
  { nodes := [(home, .folder), (["proc"], .sealed)] ++
      (["full", "null", "random", "urandom", "zero"].map fun name => (["dev", name], Node.device)) ++
      ["bin", "dev", "etc", "home", "root", "sys", "tmp", "usr", "var"].map fun name => ([name], .folder) }

def node? (disk : Disk) : Place → Option Node
  | [] => some .folder
  | place => disk.nodes.lookup place

def put (disk : Disk) (place : Place) (node : Node) : Disk :=
  { disk with nodes := (place, node) :: disk.nodes.filter fun entry => entry.1 ≠ place }

def hasFolder (disk : Disk) (place : Place) : Bool :=
  disk.node? place = some .folder || disk.node? place = some .sealed

/-- From a folder to the place that a name in it stands for. -/
def follow (disk : Disk) (place : Place) (name : String) : Except PathFault Place :=
  if !disk.hasFolder place then .error .notFolder
  else if name = "." then .ok place
  else if name = ".." then .ok place.dropLast
  else if Path.longestName < name.utf8ByteSize then .error .tooLong
  else if disk.node? (place ++ [name]) = none then .error .missing
  else .ok (place ++ [name])

/-- Where a path starts. -/
def start (path : Path) : Place := if path.fromRoot then [] else home

/-- The folder that holds what the path leads to, and its name there; a path that ends in `.` or `..` or is
the root leads to a folder without a name. -/
def locate (disk : Disk) (path : Path) : Except PathFault (Place × Option String) := do
  match path.fault? with
  | some fault => .error fault
  | none =>
    match path.names.getLast? with
    | none => if path.fromRoot then .ok ([], none) else .error .missing
    | some name =>
      let folder ← path.names.dropLast.foldlM disk.follow (start path)
      if !disk.hasFolder folder then .error .notFolder
      else if name = "." ∨ name = ".." then .ok (folder, none)
      else .ok (folder, some name)

def isFolder (disk : Disk) (path : Path) : Bool :=
  match path.fault?, path.names.foldlM disk.follow (start path) with
  | none, .ok place => disk.hasFolder place
  | _, _ => false

/-- Whether nothing is at a place and nothing can be made there. -/
def isClosedTo (disk : Disk) (folder : Place) (name : String) : Bool :=
  disk.node? (folder ++ [name]) = none && disk.node? folder = some .sealed

def makeFolder (disk : Disk) (path : Path) : Except PathFault Disk := do
  match ← disk.locate path with
  | (_, none) => .error .occupied
  | (folder, some name) =>
    if Path.longestName < name.utf8ByteSize then .error .tooLong
    else if disk.node? (folder ++ [name]) ≠ none then .error .occupied
    else if disk.isClosedTo folder name then .error .missing
    else .ok (disk.put (folder ++ [name]) .folder)

/-- Makes a folder unless it is there. -/
def ensureFolder (disk : Disk) (path : Path) : Disk × Option PathFault :=
  match disk.makeFolder path with
  | .ok disk => (disk, none)
  | .error fault => (disk, if disk.isFolder path then none else some fault)

/-- Makes a folder and those above it that are missing, given the parts of its path, the latest first.  The
path of a folder ends with its name.  What was made before a fault stays. -/
def ensureFolders (disk : Disk) (fromRoot : Bool) : List String → Disk × Option PathFault
  | [] => (disk, none)
  | part :: above =>
    if Path.isIdle part then disk.ensureFolders fromRoot above
    else
      let path : Path := { fromRoot, parts := (part :: above).reverse }
      match disk.ensureFolder path with
      | (disk, some .missing) =>
        match disk.ensureFolders fromRoot above with
        | (disk, none) => disk.ensureFolder path
        | failed => failed
      | settled => settled

/-- Makes the folders above a file. -/
def prepare (disk : Disk) (path : Path) : Disk × Option PathFault :=
  disk.ensureFolders path.fromRoot path.latestParts.tail

/-- The place of the file that a path leads to; there may be no file yet. -/
def fileAt (disk : Disk) (path : Path) : Except PathFault Place := do
  match ← disk.locate path with
  | (_, none) => .error .isFolder
  | (folder, some name) =>
    if path.closed then .error .isFolder
    else if Path.longestName < name.utf8ByteSize then .error .tooLong
    else if disk.hasFolder (folder ++ [name]) then .error .isFolder
    else if disk.isClosedTo folder name then .error .missing
    else .ok (folder ++ [name])

/-- The database at a place; a missing or empty file is a new one. -/
def database (disk : Disk) (place : Place) : Except OpenFault Database :=
  match disk.node? place with
  | none => .ok .empty
  | some (.plain []) => .ok .empty
  | some (.plain _) => .error .content
  | some (.database collections) => .ok collections
  | some .device => .error (.path .unfit)
  | some .folder | some .sealed => .error (.path .isFolder)

/-- Opens a store on a collection of the database at a place; the collection is made if it does not exist. -/
def openAt (disk : Disk) (place : Place) (collection : String) : Except OpenFault (Store × Disk) := do
  if disk.opened.contains place then .error .locked
  else
    let database ← disk.database place
    if collection = "" then .error .unnamed
    else
      match database.get? collection with
      | some .other => .error .collection
      | _ =>
        let documents := database.documents collection
        let disk := disk.put place (.database (database.setDocuments collection documents))
        .ok (.document place collection database documents, { disk with opened := place :: disk.opened })

/-- Opens a store on a file, with the folders above it. -/
def openStore (disk : Disk) (file collection : String) : Disk × Except OpenFault Store :=
  let path := Path.ofText file
  match disk.prepare path with
  | (disk, some fault) => (disk, .error (.above fault))
  | (disk, none) =>
    match disk.fileAt path with
    | .error fault => (disk, .error (.path fault))
    | .ok place =>
      match disk.openAt place collection with
      | .error fault => (disk, .error fault)
      | .ok (store, disk) => (disk, .ok store)

/-- Brings the content of an open store back to its file. -/
def closeStore (disk : Disk) : Store → Disk
  | .document place collection database documents =>
    let disk := disk.put place (.database (database.setDocuments collection documents))
    { disk with opened := disk.opened.filter (· ≠ place) }
  | _ => disk

/-- Puts something at the end of a path, with the folders above it. -/
def write (disk : Disk) (file : String) (f : Except OpenFault Database → Node) : Disk :=
  let path := Path.ofText file
  let disk := (disk.prepare path).1
  match disk.fileAt path with
  | .ok place => disk.put place (f (disk.database place))
  | .error _ => disk

def writePlain (disk : Disk) (file : String) (content : Bytes) : Disk :=
  disk.write file fun _ => .plain content

/-- Puts a document, or a table of another type, into a database file. -/
def seed (disk : Disk) (file collection : String) (document : Option (String × Bytes)) : Disk :=
  disk.write file fun old =>
    let database := match old with
      | .ok database => database
      | .error _ => .empty
    .database (match document with
      | some (key, bytes) => database.setDocuments collection ((database.documents collection).insert key bytes)
      | none => database.insert collection .other)

/-- The database that a path leads to. -/
def databaseOf? (disk : Disk) (file : String) : Option Database :=
  match disk.fileAt (Path.ofText file) with
  | .error _ => none
  | .ok place =>
    match disk.node? place with
    | some (.database collections) => some collections
    | _ => none

end Disk

end RoutedCache
