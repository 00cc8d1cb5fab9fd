/-
A JSON text read as far as it goes. Faults stay at their place in the tree instead of ending the reading, so a reader
that walks the draft in document order meets whatever comes first: a fault of the text or a value of the wrong shape.
An array or object that the text does not close has the fault as its ending.
-/
import ApiSurface.Json.Token

namespace ApiSurface.Json

/-- a value of a text, with the faults at their places -/
inductive Draft where
  | null
  | bool (value : Bool)
  | number (value : Number)
  | string (value : String)
  /-- `deep` when nested too deep to be entered; the ending is the fault before the closing bracket -/
  | array (deep : Bool) (items : List Draft) (ending : Option TextFault)
  /-- a key may be unreadable -/
  | object (deep : Bool) (members : List (Except TextFault String × Draft)) (ending : Option TextFault)
  /-- a value that stands for nothing, but may be skipped -/
  | unreadable (fault : TextFault)
  /-- the text breaks off here -/
  | broken (fault : TextFault)
deriving Inhabited

namespace Draft

/-- the members of an object in a draft -/
abbrev Entries := List (Except TextFault String × Draft)

/-! ## From tokens -/

/-- the tokens after a part of a text, or the fault at which it broke off -/
abbrev Rest := Except TextFault (List Token)

/-- the fault that an array or object is left open with -/
def endingOf : Rest → Option TextFault
  | .ok _ => none
  | .error fault => some fault

/-- a container at this depth is not entered -/
def depthLimit : Nat := 128

/-- a value that takes one token -/
def scalar? : Token → Option Draft
  | .null => some .null
  | .bool b => some (.bool b)
  | .number (.ok n) => some (.number n)
  | .number (.error fault) => some (.unreadable fault)
  | .string (.ok s) => some (.string s)
  | .string (.error fault) => some (.unreadable fault)
  | _ => none

/-- the fault of a token that does not begin a value -/
def refused : Token → TextFault
  | .broken fault => fault
  | .brokenString fault => fault
  | _ => .expectedValue

/-- the fault of a token where a key is due after a comma -/
def keyRefused : Token → TextFault
  | .brokenString fault => fault
  | .closeObject => .trailingComma
  | _ => .keyNotString

mutual

/-- read a value that stands `depth` containers deep -/
def readValue (fuel depth : Nat) (ts : List Token) : Draft × Rest :=
  match fuel, ts with
  | 0, _ => (.broken .tooDeep, .error .tooDeep)
  | _, [] => (.broken .endInValue, .error .endInValue)
  | fuel + 1, .openArray :: rest =>
    let (items, after) :=
      match rest with
      | [] => ([], .error .endInList)
      | .closeArray :: rest => ([], .ok rest)
      | rest => readItems fuel (depth + 1) rest
    (.array (decide (depthLimit ≤ depth + 1)) items (endingOf after), after)
  | fuel + 1, .openObject :: rest =>
    let (members, after) :=
      match rest with
      | [] => ([], .error .endInObject)
      | .closeObject :: rest => ([], .ok rest)
      | .string key :: rest => readMembers fuel (depth + 1) key rest
      | .brokenString fault :: _ => ([], .error fault)
      | _ => ([], .error .keyNotString)
    (.object (decide (depthLimit ≤ depth + 1)) members (endingOf after), after)
  | _ + 1, t :: rest =>
    match scalar? t with
    | some value => (value, .ok rest)
    | none => (.broken (refused t), .error (refused t))

/-- read an item and those after it -/
def readItems (fuel depth : Nat) (ts : List Token) : List Draft × Rest :=
  match fuel with
  | 0 => ([], .error .tooDeep)
  | fuel + 1 =>
    match readValue fuel depth ts with
    | (item, .error fault) => ([item], .error fault)
    | (item, .ok []) => ([item], .error .endInList)
    | (item, .ok (.closeArray :: rest)) => ([item], .ok rest)
    | (item, .ok (.comma :: .closeArray :: _)) => ([item], .error .trailingComma)
    | (item, .ok (.comma :: rest)) =>
      let (items, after) := readItems fuel depth rest
      (item :: items, after)
    | (item, .ok _) => ([item], .error .expectedListComma)

/-- read the value of a key and the members after it -/
def readMembers (fuel depth : Nat) (key : Except TextFault String) (ts : List Token) : Entries × Rest :=
  match fuel, ts with
  | 0, _ => ([], .error .tooDeep)
  | fuel + 1, .colon :: ts =>
    match readValue fuel depth ts with
    | (value, .error fault) => ([(key, value)], .error fault)
    | (value, .ok []) => ([(key, value)], .error .endInObject)
    | (value, .ok (.closeObject :: rest)) => ([(key, value)], .ok rest)
    | (value, .ok (.comma :: .string next :: rest)) =>
      let (members, after) := readMembers fuel depth next rest
      ((key, value) :: members, after)
    | (value, .ok (.comma :: t :: _)) => ([(key, value)], .error (keyRefused t))
    | (value, .ok [.comma]) => ([(key, value)], .error .endInValue)
    | (value, .ok _) => ([(key, value)], .error .expectedObjectComma)
  | _, [] => ([(key, .broken .endInObject)], .error .endInObject)
  | _, _ => ([(key, .broken .expectedColon)], .error .expectedColon)

end

/-- the draft of a text, and the fault of having more after the value -/
def ofText (text : String) : Draft × Option TextFault :=
  let ts := tokens text.toList
  match readValue (2 * ts.length + 1) 0 ts with
  | (draft, .ok (_ :: _)) => (draft, some .trailingCharacters)
  | (draft, _) => (draft, none)

/-! ## Faults in a draft -/

mutual

/-- the fault that reading all of a value meets first -/
def fault? : Draft → Option TextFault
  | .null => none
  | .bool _ => none
  | .number _ => none
  | .string _ => none
  | .array deep items ending => if deep then some .tooDeep else (faultInItems? items).or ending
  | .object deep members ending => if deep then some .tooDeep else (faultInMembers? members).or ending
  | .unreadable fault => some fault
  | .broken fault => some fault

def faultInItems? : List Draft → Option TextFault
  | [] => none
  | item :: rest => (fault? item).or (faultInItems? rest)

def faultInMembers? : List (Except TextFault String × Draft) → Option TextFault
  | [] => none
  | (.error fault, _) :: _ => some fault
  | (.ok _, value) :: rest => (fault? value).or (faultInMembers? rest)

end

mutual

/-- the fault that skipping over a value meets: only a text that breaks off -/
def skipFault? : Draft → Option TextFault
  | .null => none
  | .bool _ => none
  | .number _ => none
  | .string _ => none
  | .array _ items ending => (skipFaultInItems? items).or ending
  | .object _ members ending => (skipFaultInMembers? members).or ending
  | .unreadable _ => none
  | .broken fault => some fault

def skipFaultInItems? : List Draft → Option TextFault
  | [] => none
  | item :: rest => (skipFault? item).or (skipFaultInItems? rest)

def skipFaultInMembers? : List (Except TextFault String × Draft) → Option TextFault
  | [] => none
  | (_, value) :: rest => (skipFault? value).or (skipFaultInMembers? rest)

end

/-! ## Values and drafts -/

mutual

/-- the value of a draft without regard to its faults; the last of several members under one key stays -/
def strip : Draft → Json
  | .null => .null
  | .bool b => .bool b
  | .number n => .number n
  | .string s => .string s
  | .array _ items _ => .array (stripItems items)
  | .object _ members _ => .object (sortMembers (stripMembers members))
  | .unreadable _ => .null
  | .broken _ => .null

def stripItems : List Draft → List Json
  | [] => []
  | item :: rest => strip item :: stripItems rest

/-- the values of members whose keys are readable -/
def stripMembers : List (Except TextFault String × Draft) → Json.Members
  | [] => []
  | (.error _, _) :: rest => stripMembers rest
  | (.ok key, value) :: rest => (key, strip value) :: stripMembers rest

end

mutual

def ofJson : Json → Draft
  | .null => .null
  | .bool b => .bool b
  | .number n => .number n
  | .string s => .string s
  | .array items => .array false (ofItems items) none
  | .object members => .object false (ofMembers members) none

def ofItems : List Json → List Draft
  | [] => []
  | item :: rest => ofJson item :: ofItems rest

def ofMembers : List (String × Json) → Entries
  | [] => []
  | (key, value) :: rest => (.ok key, ofJson value) :: ofMembers rest

end

mutual

/-- how many containers a value nests -/
def height : Draft → Nat
  | .null => 0
  | .bool _ => 0
  | .number _ => 0
  | .string _ => 0
  | .array _ items _ => heightOfItems items + 1
  | .object _ members _ => heightOfMembers members + 1
  | .unreadable _ => 0
  | .broken _ => 0

def heightOfItems : List Draft → Nat
  | [] => 0
  | item :: rest => max (height item) (heightOfItems rest)

def heightOfMembers : List (Except TextFault String × Draft) → Nat
  | [] => 0
  | (_, value) :: rest => max (height value) (heightOfMembers rest)

end

end Draft

/-- read a text as a value, every part of it -/
def parse (text : String) : Outcome Json :=
  let (draft, trailing) := Draft.ofText text
  match draft.fault?.or trailing with
  | some fault => .error (.text fault)
  | none => .ok draft.strip

end ApiSurface.Json
