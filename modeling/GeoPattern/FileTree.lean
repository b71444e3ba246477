/-
The files below a working directory, as a value: looking a path up, making directories, and opening
a file to append to it. A path is followed step by step, so that a step up leads back only from a
directory that is there; the file to append to is found after the steps up have been taken out of
its path.
-/
import GeoPattern.Digits

namespace GeoPattern

/-! ## Paths -/

/-- A path in the notation with slashes. Empty steps and single dots are dropped. -/
structure Path where
  absolute : Bool
  steps : List Text
deriving DecidableEq

namespace Path

def ofText (t : Text) : Path where
  absolute := t.head? == some (.char '/')
  steps := (t.splitOn (.char '/')).filter fun step => !step.isEmpty && step != Text.lit "."

def text (path : Path) : Text :=
  if path.absolute then .char '/' :: List.intercalate [.char '/'] path.steps
  else if path.steps = [] then ['.']
  else List.intercalate [.char '/'] path.steps

/-- The path without its last step. -/
def parent (path : Path) : Path := { path with steps := path.steps.dropLast }

/-- The path up to a count of steps. -/
def take (path : Path) (count : Nat) : Path := { path with steps := path.steps.take count }

/-- The step up. -/
def up : Text := ['.', '.']

/-- One step from a place: up again, or down. Above the working directory, steps up add up; at the
root they lead nowhere. -/
def walk (place : List Text) (step : Text) : List Text :=
  if step = up ∧ place = [[]] then place
  else if step = up ∧ !place.all (· == up) then place.dropLast
  else place ++ [step]

/-- Where a path starts: at the working directory, or at the root, an empty step. -/
def origin (path : Path) : List Text := if path.absolute then [[]] else []

/-- The place that a path leads to, as steps from the working directory. -/
def place (path : Path) : List Text := path.steps.foldl walk path.origin

/-- The path to the same place in which every step up comes first. -/
def direct (path : Path) : Path :=
  { path with steps := path.place.drop path.origin.length }

end Path

/-! ## Faults -/

/-- Why a path leads nowhere, or to the wrong thing. -/
inductive Fault where
  | missing
  /-- A step leads on from a file. -/
  | notDirectory
  | isDirectory
  /-- Something is there already. -/
  | occupied
  /-- A step or the whole path is too long. -/
  | nameTooLong
  /-- The path holds the null character. -/
  | nullCharacter
  /-- Halves of surrogate pairs, from a first to a last position, have no bytes. -/
  | noBytes (first last : Nat) (half : CodePoint)
deriving DecidableEq

namespace Fault

/-- What is wrong with the characters of a path; any other fault is known by its kind alone. -/
def message : Fault → Text
  | nullCharacter => Text.lit "embedded null byte"
  | noBytes first last half =>
    if first = last then
      Text.lit "'utf-8' codec can't encode character '\\u" ++ Text.hexDigits 4 half.number ++
        Text.lit "' in position " ++ digits first ++ Text.lit ": surrogates not allowed"
    else
      Text.lit "'utf-8' codec can't encode characters in position " ++ digits first ++ .char '-' ::
        digits last ++ Text.lit ": surrogates not allowed"
  | missing | notDirectory | isDirectory | occupied | nameTooLong => []

/-- The fault lies in the characters of the path. -/
def isOfCharacters : Fault → Bool
  | nullCharacter | noBytes .. => true
  | missing | notDirectory | isDirectory | occupied | nameTooLong => false

end Fault

namespace Path

/-- The most bytes of a step. -/
def stepLimit : Nat := 255

/-- The first count of bytes that is too much for a path. -/
def lengthLimit : Nat := 4096

/-- The first half without bytes in a text, from a position on. The halves that follow it at once
are reported together with it. -/
def firstWithoutBytes? (position : Nat) : Text → Option Fault
  | [] => none
  | c :: rest =>
    if c.isSurrogate ∧ !c.isRawByte then
      some (.noBytes position (position + (rest.takeWhile CodePoint.isSurrogate).length) c)
    else firstWithoutBytes? (position + 1) rest

/-- Refuses a path that cannot be asked for, whatever files there are. -/
def check (path : Path) : Except Fault Unit :=
  match firstWithoutBytes? 0 path.text with
  | some fault => .error fault
  | none =>
    if path.text.contains (.char '\x00') then .error .nullCharacter
    else if lengthLimit ≤ Text.byteLength path.text then .error .nameTooLong
    else .ok ()

end Path

/-! ## Trees -/

/-- The files with their places and contents, and the directories that hold none. The working
directory, from which places are counted, has an absolute path. -/
structure FileTree where
  home : Text
  files : List (List Text × Text)
  directories : List (List Text)
deriving DecidableEq

namespace FileTree

/-- What stands at a place. -/
inductive Entry where
  | file (content : Text)
  | directory
deriving DecidableEq

def content? (tree : FileTree) (place : List Text) : Option Text :=
  (tree.files.find? (·.1 == place)).map (·.2)

/-- The working directory, those above it and the root are directories, and so is what was made or
has a file below it. -/
def isDirectory (tree : FileTree) (place : List Text) : Bool :=
  place.all (· == Path.up) || place == [[]] || tree.directories.contains place ||
    tree.files.any fun (file, _) => place.isPrefixOf file && place != file

def entryAt? (tree : FileTree) (place : List Text) : Option Entry :=
  match tree.content? place with
  | some content => some (.file content)
  | none => if tree.isDirectory place then some .directory else none

/-- The fault of a step from a place, if there is one. -/
def stepFault? (tree : FileTree) (place : List Text) (step : Text) : Option Fault :=
  match tree.entryAt? place with
  | none => some .missing
  | some (.file _) => some .notDirectory
  | some .directory =>
    if Path.stepLimit < Text.byteLength step then some .nameTooLong else none

/-- Follows steps from a place. What the last step leads to need not be there. -/
def follow (tree : FileTree) (place : List Text) : List Text → Except Fault (List Text)
  | [] => .ok place
  | step :: rest =>
    match tree.stepFault? place step with
    | some fault => .error fault
    | none => follow tree (Path.walk place step) rest

/-- Where a path leads to. -/
def locate (tree : FileTree) (path : Path) : Except Fault (List Text) := do
  path.check
  tree.follow path.origin path.steps

/-- What a path leads to. -/
def entry (tree : FileTree) (path : Path) : Except Fault Entry := do
  let place ← tree.locate path
  match tree.entryAt? place with
  | some entry => pure entry
  | none => throw .missing

/-! ## Making directories -/

/-- Makes one directory. A path that ends with a step up is taken to be there. -/
def make (tree : FileTree) (path : Path) : Except Fault FileTree := do
  let place ← tree.locate path
  if path.steps.getLast?.getD Path.up = Path.up ∨ (tree.entryAt? place).isSome then throw .occupied
  pure { tree with directories := tree.directories ++ [place] }

/-- Makes one directory unless it is there. -/
def makeUnlessThere (tree : FileTree) (path : Path) : Except Fault FileTree :=
  match tree.make path with
  | .ok tree => .ok tree
  | .error fault =>
    match tree.entry path with
    | .ok .directory => .ok tree
    | _ => .error fault

/-- Makes the directory of the first `count` steps of a path, after those in front of it where they
are missing. -/
def makeAll (tree : FileTree) (path : Path) : (count : Nat) → Except Fault FileTree
  | 0 => .ok tree
  | count + 1 =>
    match tree.makeUnlessThere (path.take (count + 1)) with
    | .error .missing => do
      let tree ← makeAll tree path count
      tree.makeUnlessThere (path.take (count + 1))
    | result => result

/-! ## Appending -/

/-- The absolute path to a place, without steps up. -/
def absolutePath (tree : FileTree) (path : Path) : Path :=
  if path.absolute then path.direct else (Path.ofText (tree.home ++ .char '/' :: path.text)).direct

/-- Opens a file for appending, and makes it and the directories above it if they are missing. -/
def openAt (tree : FileTree) (path : Path) : Except Fault FileTree := do
  let tree ← tree.makeAll path.parent path.parent.steps.length
  (tree.absolutePath path).check
  let place ← tree.locate path.direct
  match tree.entryAt? place with
  | some .directory => throw .isDirectory
  | some (.file _) => pure tree
  | none => pure { tree with files := tree.files ++ [(place, [])] }

/-- Adds text to the end of the file at a place. -/
def append (tree : FileTree) (place : List Text) (text : Text) : FileTree :=
  { tree with files := tree.files.map fun (file, content) =>
      if file = place then (file, content ++ text) else (file, content) }

end FileTree

end GeoPattern
