/-
The words of a command line. A switch has a long name and may have a letter. The value of a switch is the next word, or
follows in the same word after `=` or, after a letter, directly. Letters may be joined, the last one taking a value.
-/
namespace ApiSurface.Arguments

/-- why the words name nothing to run -/
inductive Stop where
  | usage
  /-- they ask for the version, of the given program -/
  | version (program : String)
  | help
deriving DecidableEq, Repr

/-- how a switch is used -/
inductive Use where
  | flag
  | value
  | values
  /-- nothing after it matters -/
  | ending (stop : Stop)
deriving DecidableEq, Repr

structure Switch where
  long : String
  letter : Option Char
  use : Use
deriving DecidableEq, Repr

/-- a switch that was given, with its value; that of a flag is empty -/
structure Setting where
  long : String
  value : String
deriving DecidableEq, Repr

/-! ## Settings -/

/-- the switch was given -/
def has (settings : List Setting) (long : String) : Bool := settings.any fun s => s.long == long

/-- all values of a switch, in order -/
def values (settings : List Setting) (long : String) : List String :=
  (settings.filter fun s => s.long == long).map Setting.value

/-- the value of a switch -/
def value? (settings : List Setting) (long : String) : Option String := (values settings long).head?

/-- the value of a switch that must be given -/
def required (settings : List Setting) (long : String) : Except Stop String :=
  match value? settings long with
  | some value => .ok value
  | none => .error .usage

/-! ## Reading words -/

/-- add a switch to those given -/
def add (settings : List Setting) (s : Switch) (value : String) : Except Stop (List Setting) :=
  if s.use ≠ .values ∧ has settings s.long then .error .usage else .ok (settings ++ [⟨s.long, value⟩])

/-- read the letters of a word; the last one may be left without its value -/
def readLetters (switches : List Switch) (settings : List Setting) :
    List Char → Except Stop (List Setting × Option Switch)
  | [] => .ok (settings, none)
  | c :: rest =>
    match switches.find? fun s => s.letter == some c with
    | none => .error .usage
    | some s =>
      match s.use with
      | .ending stop => .error stop
      | .flag => do readLetters switches (← add settings s "") rest
      | .value | .values =>
        match rest with
        | [] => .ok (settings, some s)
        | '=' :: value => do return (← add settings s (String.ofList value), none)
        | value => do return (← add settings s (String.ofList value), none)

/-- read a long name, and the value after it if there is one -/
def readLong (switches : List Switch) (settings : List Setting) (word : List Char) :
    Except Stop (List Setting × Option Switch) :=
  let name := String.ofList (word.takeWhile fun c => c != '=')
  match switches.find? fun s => s.long == name with
  | none => .error .usage
  | some s =>
    match s.use, word.dropWhile fun c => c != '=' with
    | .ending stop, [] => .error stop
    | .flag, [] => do return (← add settings s "", none)
    | .value, [] | .values, [] => .ok (settings, some s)
    | .value, _ :: value | .values, _ :: value => do return (← add settings s (String.ofList value), none)
    | .ending _, _ :: _ | .flag, _ :: _ => .error .usage

/-- a word that cannot be the value of a switch before it -/
def isSwitchLike (word : String) : Bool :=
  match word.toList with
  | '-' :: _ :: _ => true
  | _ => false

/-- read switches up to the first word that is none, and give back the words from there on -/
def readSwitches (switches : List Switch) (settings : List Setting) :
    List String → Except Stop (List Setting × List String)
  | [] => .ok (settings, [])
  | word :: rest =>
    if !isSwitchLike word || word = "--" then .ok (settings, word :: rest)
    else
      match match word.toList with
        | '-' :: '-' :: long => readLong switches settings long
        | letters => readLetters switches settings letters.tail with
      | .error stop => .error stop
      | .ok (settings, none) => readSwitches switches settings rest
      | .ok (settings, some s) =>
        match rest with
        | [] => .error .usage
        | value :: rest =>
          if isSwitchLike value then .error .usage
          else
            match add settings s value with
            | .error stop => .error stop
            | .ok settings => readSwitches switches settings rest

end ApiSurface.Arguments
