/-
The arguments of the command line: options, a command, and the options and the text of the command.
An option may be shortened as long as it stays unambiguous, and takes its value after an equals sign
or as the next argument. An argument that starts with a dash is a value only if it looks like a
negative number, holds a space, or stands behind two dashes. Two dashes after an equals sign empty
the option: they are no value, and the option holds nothing.
-/
import GeoPattern.Location

namespace GeoPattern

namespace CommandLine

/-! ## What was asked for -/

inductive Command where
  | format (latitude longitude elevation : Option Measure)
  | parse (text : Text)
deriving DecidableEq

/-- A settings file, a pattern, and what to do. -/
structure Invocation where
  config : Option Text
  pattern : Option Text
  command : Command

/-- The usage is shown: because it was asked for, or because the arguments make no sense. -/
inductive Usage where
  | requested
  | refused
deriving DecidableEq

inductive OptionName where
  | help
  | config
  | pattern
  | latitude
  | longitude
  | elevation
deriving DecidableEq

/-- The values of the options so far. -/
structure Choices where
  config : Option Text
  pattern : Option Text
  latitude : Option Measure
  longitude : Option Measure
  elevation : Option Measure

def Choices.none : Choices := ⟨.none, .none, .none, .none, .none⟩

/-- The options before the command, and of the command that parses. -/
def commonOptions : List (String × OptionName) :=
  [("-h", .help), ("--help", .help), ("--config", .config), ("--pattern", .pattern)]

/-- The options of the command that formats. -/
def formatOptions : List (String × OptionName) :=
  commonOptions ++ [("--lat", .latitude), ("--lon", .longitude), ("--ele", .elevation)]

/-! ## Sorting arguments -/

/-- What is attached to an option in the same argument. -/
inductive Attached where
  | nothing
  /-- A value after an equals sign. -/
  | value (text : Text)
  /-- More letters behind a one-letter option, at once or after an equals sign. -/
  | letters (text : Text)

/-- What an argument is taken for. -/
inductive Mark where
  | argument
  | option (name : OptionName) (attached : Attached)
  | unknownOption
  /-- Two dashes, behind which everything is an argument. -/
  | divider

/-- Splits at the first equals sign. -/
def splitEquals (t : Text) : Text × Option Text :=
  let before := t.takeWhile (· != .char '=')
  match t.drop before.length with
  | [] => (before, none)
  | _ :: after => (before, some after)

def attachedOf : Option Text → Attached
  | none => .nothing
  | some value => .value value

/-- What stands after the equals sign of an option in its full spelling. -/
def attachedTo (spelling value : Text) : Attached :=
  match spelling with
  | [_, _] => .letters value
  | _ => .value value

/-- The options that an argument may be short for. -/
def abbreviated (options : List (String × OptionName)) (t : Text) : List (OptionName × Attached) :=
  match t with
  | '-' :: '-' :: _ =>
    let (stem, value) := splitEquals t
    (options.filter fun (spelling, _) => stem.isPrefixOf (Text.lit spelling)).map fun (_, name) =>
      (name, attachedOf value)
  | dash :: letter :: more =>
    (options.filter fun (spelling, _) => Text.lit spelling == [dash, letter]).map fun (_, name) =>
      (name, .letters more)
  | _ => []

/-- A dash with digits, or with digits around a point; a line end may follow. -/
def looksNegative : Text → Bool
  | '-' :: rest =>
    let body := if rest.getLast? = some (.char '\n') then rest.dropLast else rest
    let whole := body.takeWhile Numerals.isNumeral
    match body.drop whole.length with
    | [] => !whole.isEmpty
    | '.' :: fraction => !fraction.isEmpty && fraction.all Numerals.isNumeral
    | _ => false
  | _ => false

def find? (options : List (String × OptionName)) (t : Text) : Option OptionName :=
  (options.find? (Text.lit ·.1 == t)).map (·.2)

/-- Sorts an argument; an ambiguous one is refused. -/
def markOf (options : List (String × OptionName)) (t : Text) : Except Usage Mark :=
  match t with
  | '-' :: _ :: _ =>
    match find? options t with
    | some name => .ok (.option name .nothing)
    | none =>
      match splitEquals t with
      | (stem, some value) =>
        match find? options stem with
        | some name => .ok (.option name (attachedTo stem value))
        | none => shortened
      | (_, none) => shortened
  | _ => .ok .argument
where
  shortened : Except Usage Mark :=
    match abbreviated options t with
    | [(name, attached)] => .ok (.option name attached)
    | [] => .ok (if looksNegative t ∨ t.contains (.char ' ') then .argument else .unknownOption)
    | _ => .error .refused

/-- Sorts all arguments. -/
def mark (options : List (String × OptionName)) : List Text → Except Usage (List (Text × Mark))
  | [] => .ok []
  | t :: rest =>
    if t = Text.lit "--" then .ok ((t, .divider) :: rest.map fun t => (t, .argument))
    else do
      let first ← markOf options t
      let others ← mark options rest
      pure ((t, first) :: others)

/-! ## Options -/

/-- More letters behind the one that asks for help: they may only ask again. -/
def helpLetters : Text → Usage
  | [] => .requested
  | 'h' :: rest => helpLetters rest
  | _ => .refused

def number (value : Text) : Except Usage Measure :=
  match Double.ofText? value with
  | some x => .ok (.real x)
  | none => .error .refused

/-- Sets an option to a value. Help takes none. -/
def Choices.set (choices : Choices) (name : OptionName) (value : Text) : Except Usage Choices :=
  match name with
  | .help => .error .refused
  | .config => .ok { choices with config := some value }
  | .pattern => .ok { choices with pattern := some value }
  | .latitude => do pure { choices with latitude := some (← number value) }
  | .longitude => do pure { choices with longitude := some (← number value) }
  | .elevation => do pure { choices with elevation := some (← number value) }

/-- Sets an option to nothing: a text to the empty one, and a number to a list without any. -/
def Choices.clear (choices : Choices) : OptionName → Choices
  | .help => choices
  | .config => { choices with config := some [] }
  | .pattern => { choices with pattern := some [] }
  | .latitude => { choices with latitude := some .emptyList }
  | .longitude => { choices with longitude := some .emptyList }
  | .elevation => { choices with elevation := some .emptyList }

/-- Takes an option, with its value out of the arguments that follow unless it is attached. -/
def takeOption (choices : Choices) (name : OptionName) (attached : Attached)
    (rest : List (Text × Mark)) : Except Usage (Choices × List (Text × Mark)) :=
  match name, attached, rest with
  | .help, .nothing, _ => .error .requested
  | .help, .letters [], _ => .error .refused
  | .help, .letters more, _ => .error (helpLetters more)
  | .help, .value _, _ => .error .refused
  | name, .value ['-', '-'], rest => .ok (choices.clear name, rest)
  | name, .value value, rest => do pure (← choices.set name value, rest)
  | name, .letters value, rest => do pure (← choices.set name value, rest)
  | name, .nothing, (value, .argument) :: rest => do pure (← choices.set name value, rest)
  | _, .nothing, _ => .error .refused

theorem length_takeOption {choices after : Choices} {name : OptionName} {attached : Attached}
    {rest behind : List (Text × Mark)}
    (h : takeOption choices name attached rest = .ok (after, behind)) :
    behind.length ≤ rest.length := by
  unfold takeOption at h
  split at h
  · cases h
  · cases h
  all_goals first
    | (cases h; done)
    | (cases h; exact Nat.le_refl _)
    | (rename_i value _ _ _
       simp only [bind, Except.bind] at h
       split at h
       · cases h
       · cases h
         simp)

/-! ## The two levels -/

/-- Reads the options in front of the command. The result holds the command with the arguments
behind it, and whether an unknown option was met. -/
def readMain (choices : Choices) (unknown : Bool) (marks : List (Text × Mark)) :
    Except Usage (Choices × Bool × Text × List Text) :=
  match marks with
  | [] => .error .refused
  | (_, .divider) :: _ => .error .refused
  | (command, .argument) :: rest => .ok (choices, unknown, command, rest.map (·.1))
  | (_, .unknownOption) :: rest => readMain choices true rest
  | (_, .option name attached) :: rest =>
    match _h : takeOption choices name attached rest with
    | .error usage => .error usage
    | .ok (choices, behind) => readMain choices unknown behind
termination_by marks.length
decreasing_by
  · simp
  · have := length_takeOption _h
    simp only [List.length_cons]; omega

/-- Reads the options of a command, and its text if it takes one. The result tells whether an
argument was left over. -/
def readCommand (takesText : Bool) (choices : Choices) (text : Option Text) (extra : Bool)
    (marks : List (Text × Mark)) : Except Usage (Choices × Option Text × Bool) :=
  match marks with
  | [] => .ok (choices, text, extra)
  | (_, .unknownOption) :: rest => readCommand takesText choices text true rest
  | (_, .option name attached) :: rest =>
    match _h : takeOption choices name attached rest with
    | .error usage => .error usage
    | .ok (choices, behind) => readCommand takesText choices text extra behind
  | (_, .divider) :: (t, .argument) :: rest =>
    if takesText ∧ text.isNone then readCommand takesText choices (some t) extra rest
    else readCommand takesText choices text true rest
  | (_, .divider) :: rest => readCommand takesText choices text true rest
  | (t, .argument) :: rest =>
    if takesText ∧ text.isNone then
      match rest with
      | (_, .divider) :: behind => readCommand takesText choices (some t) extra behind
      | rest => readCommand takesText choices (some t) extra rest
    else readCommand takesText choices text true rest
termination_by marks.length
decreasing_by
  all_goals first
    | (have h := length_takeOption _h
       simp only [List.length_cons]; omega)
    | (simp only [List.length_cons]; omega)

/-- Reads the arguments of the command line. Options behind the command override those in front of
it. -/
def invocation (arguments : List Text) : Except Usage Invocation := do
  let marks ← mark commonOptions arguments
  let (choices, unknown, command, rest) ← readMain .none false marks
  let common := { Choices.none with config := choices.config, pattern := choices.pattern }
  if command = Text.lit "format" then
    let marks ← mark formatOptions rest
    let (choices, _, extra) ← readCommand false common none unknown marks
    if extra then throw .refused
    pure ⟨choices.config, choices.pattern,
      .format choices.latitude choices.longitude choices.elevation⟩
  else if command = Text.lit "parse" then
    let marks ← mark commonOptions rest
    let (choices, text, extra) ← readCommand true common none unknown marks
    match text with
    | some text =>
      if extra then throw .refused
      pure ⟨choices.config, choices.pattern, .parse text⟩
    | none => throw .refused
  else throw .refused

end CommandLine

end GeoPattern
