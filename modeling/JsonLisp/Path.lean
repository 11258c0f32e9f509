import JsonLisp.Text.Quoted

/-!
# Paths and files

A path is a root and the names below it; empty names and single dots are dropped. What stands at a
path is given by a function, so that what a program does with files can be stated without a disk.

## Main definitions

* `Path.ofText`, `Path.toText`: normal form and text of a path.
* `Path.expandHome`: a leading `~` stands for a home directory.
* `Files.readText`, `Files.checkHistory`: the two uses of a path.
* `FileTree.lookUp`: what stands at a path if all files are given as a list.
-/

namespace JsonLisp

open Text (ofString)

def slash : CodePoint := 47

structure Path where
  /-- No slash, one, or exactly two; three or more count as one. -/
  root : Text
  parts : List Text
deriving DecidableEq

namespace Path

def dot : Text := ofString "."

def parent : Text := ofString ".."

def home : CodePoint := 126

def ofText (t : Text) : Path :=
  let slashes := (t.takeWhile (· == slash)).length
  { root := List.replicate (if slashes ≤ 2 then slashes else 1) slash
    parts := (Text.splitOn slash t).filter fun part => !part.isEmpty && part != dot }

def toText (p : Path) : Text :=
  if p.root.isEmpty && p.parts.isEmpty then dot else p.root ++ Text.join [slash] p.parts

/-- The path with its first name replaced if that starts with `~`. The directory of a user is
looked up by name, that of the present user by the empty one. No result if there is none. -/
def expandHome (homeOf : Text → Option Text) (p : Path) : Option Path :=
  match p.root, p.parts with
  | [], (126 :: user) :: rest => do
    let directory ← homeOf user
    if directory.head? = some home then none
    else
      let base := ofText (if directory.all (· == slash) then [slash] else directory)
      return { base with parts := base.parts ++ rest }
  | _, _ => some p

end Path

/-! ### Names in bytes

The system takes a path as bytes: the UTF-8 form of its text, in which each of the surrogates from
U+DC80 to U+DCFF stands for one byte that is no text. Other surrogates have no form.
-/

def isSurrogate (c : CodePoint) : Bool := 0xD800 ≤ c && c ≤ 0xDFFF

def isRawByte (c : CodePoint) : Bool := 0xDC80 ≤ c && c ≤ 0xDCFF

def byteSize (t : Text) : Nat :=
  Text.utf8Size (t.filter fun c => !isRawByte c) + t.countP isRawByte

/-- Why a path cannot be given to the system. -/
inductive PathFault where
  | zeroByte
  /-- Surrogates without a form, from a position on. -/
  | surrogates (position : Nat) (run : Text)
deriving DecidableEq

def PathFault.message : PathFault → Text
  | .zeroByte => ofString "embedded null byte"
  | .surrogates position run =>
    let place := match run with
      | [c] => ofString "character '" ++ Text.numericEscape c ++ ofString "' in position " ++
          Text.ofNat position
      | _ => ofString "characters in position " ++ Text.ofNat position ++ ofString "-" ++
          Text.ofNat (position + run.length - 1)
    ofString "'utf-8' codec can't encode " ++ place ++ ofString ": surrogates not allowed"

/-- The first surrogate without a form, with its position and the surrogates after it. -/
def formless? : Nat → Text → Option (Nat × Text)
  | _, [] => none
  | position, c :: rest =>
    if isSurrogate c && !isRawByte c then some (position, c :: rest.takeWhile isSurrogate)
    else formless? (position + 1) rest

def Path.fault? (p : Path) : Option PathFault :=
  match formless? 0 p.toText with
  | some (position, run) => some (.surrogates position run)
  | none => if p.toText.contains 0 then some .zeroByte else none

/-! ### What stands at a path -/

inductive FileFault where
  | missing
  | notADirectory
  | isADirectory
  | invalidArgument
  | nameTooLong
deriving DecidableEq

def FileFault.number : FileFault → Nat
  | .missing => 2
  | .notADirectory => 20
  | .isADirectory => 21
  | .invalidArgument => 22
  | .nameTooLong => 36

def FileFault.wording : FileFault → Text
  | .missing => ofString "No such file or directory"
  | .notADirectory => ofString "Not a directory"
  | .isADirectory => ofString "Is a directory"
  | .invalidArgument => ofString "Invalid argument"
  | .nameTooLong => ofString "File name too long"

def FileFault.message (fault : FileFault) : Text :=
  ofString "[Errno " ++ Text.ofNat fault.number ++ ofString "] " ++ fault.wording

/-- The system was asked for a file and refused, or it could not be asked. -/
inductive FileError where
  | refused (fault : FileFault) (path : Path)
  | historyRefused (fault : FileFault)
  | unusable (fault : PathFault)

def FileError.message : FileError → Text
  | .refused fault path => fault.message ++ ofString ": " ++ Text.quoted path.toText
  | .historyRefused fault => fault.message
  | .unusable fault => fault.message

inductive Entry where
  | directory
  | file (content : Text)
  /-- Something that is no regular file and reads as empty. -/
  | device

/-- What stands at each path. -/
abbrev Files := Path → Except FileError Entry

def Files.readText (files : Files) (path : Path) : Except FileError Text := do
  match ← files path with
  | .directory => throw (.refused .isADirectory path)
  | .file content => return content
  | .device => return []

/-- A history is kept in a regular file, which may be missing. -/
def Files.checkHistory (files : Files) (path : Path) : Except FileError Unit :=
  match files path with
  | .ok (.file _) | .error (.refused .missing _) => .ok ()
  | .ok _ => .error (.historyRefused .invalidArgument)
  | .error (.refused fault _) => .error (.historyRefused fault)
  | .error e => .error e

/-! ### Trees of files -/

/-- Entries by their paths. The directories are those that the paths mention, and those above the
one where relative paths start, which hold nothing else. -/
abbrev FileTree := List (Path × Entry)

namespace FileTree

/-- Where a name leads from a place in the tree: a directory, given by its path, a directory above
the start of relative paths, or another entry. -/
inductive Node where
  | directory (place : Path)
  | above
  | leaf (e : Entry)

def Node.entry : Node → Entry
  | .directory _ | .above => .directory
  | .leaf e => e

/-- The directory that holds another one; the root of all is held by itself. -/
def parentOf (place : Path) : Node :=
  if place.root.isEmpty && place.parts.isEmpty then .above
  else .directory { place with parts := place.parts.dropLast }

def entryNamed (files : FileTree) (place : Path) (name : Text) : Except FileFault Node :=
  let below : Path := { place with parts := place.parts ++ [name] }
  match files.find? (·.1 == below) with
  | some (_, .directory) => .ok (.directory below)
  | some (_, e) => .ok (.leaf e)
  | none =>
    if files.any fun f => f.1.root == below.root && below.parts.isPrefixOf f.1.parts then
      .ok (.directory below)
    else .error .missing

/-- A name may take 255 bytes. -/
def child (files : FileTree) (node : Node) (name : Text) : Except FileFault Node :=
  match node with
  | .leaf _ => .error .notADirectory
  | .above =>
    if name = Path.parent then .ok .above
    else .error (if 255 < byteSize name then .nameTooLong else .missing)
  | .directory place =>
    if name = Path.parent then .ok (parentOf place)
    else if 255 < byteSize name then .error .nameTooLong
    else files.entryNamed place name

/-- A path takes less than 4096 bytes. Two slashes at its front lead to the root like one. -/
def lookUp (files : FileTree) : Files := fun path =>
  match path.fault? with
  | some fault => .error (.unusable fault)
  | none =>
    if 4096 ≤ byteSize path.toText then .error (.refused .nameTooLong path)
    else
      match path.parts.foldlM files.child (.directory ⟨path.root.take 1, []⟩) with
      | .error fault => .error (.refused fault path)
      | .ok node => .ok node.entry

end FileTree

end JsonLisp
