/-
JSON values, as settings files hold them. An object keeps its members in the order in which their
keys first came, and a key has one value, the last one it was given.
-/
import GeoPattern.Double.Text

namespace GeoPattern

inductive Json where
  | null
  | bool (value : Bool)
  | whole (n : Int)
  | real (x : Double)
  | string (text : Text)
  | array (items : List Json)
  | object (members : List (Text × Json))

namespace Json

/-! ## Members -/

/-- The value of a key. -/
def lookup? (key : Text) : List (Text × Json) → Option Json
  | [] => none
  | (k, value) :: rest => if k = key then some value else lookup? key rest

/-- Gives a key a value, in the place that the key has or else at the end. -/
def put (key : Text) (value : Json) : List (Text × Json) → List (Text × Json)
  | [] => [(key, value)]
  | (k, old) :: rest => if k = key then (k, value) :: rest else (k, old) :: put key value rest

/-- The value under a path of keys; there is none where a step is missing, is null, or does not
start at an object. -/
def get? : Json → List Text → Option Json
  | value, [] => some value
  | .object members, key :: rest =>
    match lookup? key members with
    | none | some .null => none
    | some value => get? value rest
  | _, _ :: _ => none

/-- The empty text, zero, an empty collection, `false` and `null` count as nothing. -/
def isNothing : Json → Bool
  | .null => true
  | .bool value => !value
  | .whole n => n == 0
  | .real x => x == .zero || x == Double.zero.neg
  | .string text => text.isEmpty
  | .array items => items.isEmpty
  | .object members => members.isEmpty

/-! ## Writing -/

/-- One code point inside of a JSON string. -/
def escapeOne (c : CodePoint) : Text :=
  if c = '"' ∨ c = '\\' then ['\\', c]
  else if c = '\n' then ['\\', 'n']
  else if c = '\r' then ['\\', 'r']
  else if c = '\t' then ['\\', 't']
  else if c.number < 32 ∨ c.isSurrogate then '\\' :: 'u' :: Text.hexDigits 4 c.number
  else [c]

def writeString (t : Text) : Text := .char '"' :: t.flatMap escapeOne ++ [.char '"']

/-- The text of a number that is no whole one. -/
def writeReal : Double → Text
  | .nan => Text.lit "NaN"
  | .infinite negative => if negative then Text.lit "-Infinity" else Text.lit "Infinity"
  | x => x.text

mutual

/-- The text of a value, on one line. -/
def write : Json → Text
  | .null => Text.lit "null"
  | .bool value => if value then Text.lit "true" else Text.lit "false"
  | .whole n => signedDigits n
  | .real x => writeReal x
  | .string text => writeString text
  | .array items => .char '[' :: writeItems items ++ [.char ']']
  | .object members => .char '\x7b' :: writeMembers members ++ [.char '\x7d']

def writeItems : List Json → Text
  | [] => []
  | [item] => write item
  | item :: rest => write item ++ .char ',' :: writeItems rest

def writeMembers : List (Text × Json) → Text
  | [] => []
  | [(key, value)] => writeString key ++ .char ':' :: write value
  | (key, value) :: rest =>
    writeString key ++ .char ':' :: write value ++ .char ',' :: writeMembers rest

end

end Json

end GeoPattern
