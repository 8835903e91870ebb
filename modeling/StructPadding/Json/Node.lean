import StructPadding.Decimal.Shortest
import StructPadding.Json.Value

/-!
# Readings of JSON text

A reading is the tree of a text as far as it can be read. Where the text stops making sense the tree
says so at that very place, so that whoever walks the tree from left to right meets the first
problem first, whether it is one of the text or one of what the text should hold.

A value that nobody asked for is skipped, and then only its form matters: a number may be out of
range and a string may be undecodable. Some faults are put in other words there.
-/

namespace StructPadding.Json

/-- What is wrong with a text that should be JSON. -/
inductive Fault where
  | endInValue
  | endInList
  | endInObject
  | endInString
  | expectedValue
  | expectedWord
  | expectedColon
  | expectedListEnd
  | expectedObjectEnd
  | trailingComma
  | trailingCharacters
  | keyNotString
  | invalidNumber
  | numberOutOfRange
  | invalidEscape
  | controlCharacter
  | invalidCodePoint
  | loneSurrogate
  | unfinishedSurrogate
  | tooDeep
deriving DecidableEq

def Fault.message : Fault → String
  | endInValue => "EOF while parsing a value"
  | endInList => "EOF while parsing a list"
  | endInObject => "EOF while parsing an object"
  | endInString => "EOF while parsing a string"
  | expectedValue => "expected value"
  | expectedWord => "expected ident"
  | expectedColon => "expected `:`"
  | expectedListEnd => "expected `,` or `]`"
  | expectedObjectEnd => "expected `,` or `\x7d`"
  | trailingComma => "trailing comma"
  | trailingCharacters => "trailing characters"
  | keyNotString => "key must be a string"
  | invalidNumber => "invalid number"
  | numberOutOfRange => "number out of range"
  | invalidEscape => "invalid escape"
  | controlCharacter => "control character (\\u0000-\\u001F) found while parsing a string"
  | invalidCodePoint => "invalid unicode code point"
  | loneSurrogate => "lone leading surrogate in hex escape"
  | unfinishedSurrogate => "unexpected end of hex escape"
  | tooDeep => "recursion limit exceeded"

/-- How the text goes on after the last item of a list or the last member of an object. -/
inductive Ending where
  /-- The closing bracket. -/
  | closed
  /-- The end of the text. -/
  | ended
  /-- A comma and then the closing bracket. -/
  | comma
  /-- A comma and then the end of the text. -/
  | commaEnded
  /-- Something that is neither a comma nor the closing bracket. -/
  | stray
  /-- The last item or member is where the text stops making sense. -/
  | inside
deriving DecidableEq

/-- A value as far as its text can be read. -/
inductive Node where
  | null
  | bool (value : Bool)
  | int (value : Int)
  | float (negative : Bool) (value : Decimal.Double)
  | text (value : String)
  /-- A string or a number of good form that stands for no value. -/
  | spoiled (isText : Bool) (fault : Fault)
  /-- A string, or anything else, that the text breaks off or goes wrong in; the fault of the value
  if it is kept, and the fault of the value if it is skipped. -/
  | broken (isText : Bool) (kept skipped : Fault)
  /-- No value, because the text ends or goes wrong before it. -/
  | missing (fault : Fault)
  | list (items : List Node) (ending : Ending)
  /-- Keys are strings, as far as they can be read. -/
  | object (members : List (Node × Node)) (ending : Ending)

namespace Ending

/-- The fault of a list that is kept, once its items are read. -/
def listFault? : Ending → Option Fault
  | closed => none
  | ended => some .endInList
  | comma => some .trailingComma
  | commaEnded => some .endInValue
  | stray | inside => some .expectedListEnd

/-- The fault of a list that is skipped. -/
def skippedListFault? : Ending → Option Fault
  | closed => none
  | ended => some .endInList
  | comma => some .expectedValue
  | commaEnded => some .endInValue
  | stray | inside => some .expectedListEnd

/-- The fault of an object that is kept, once its members are read. -/
def objectFault? : Ending → Option Fault
  | closed => none
  | ended => some .endInObject
  | comma => some .trailingComma
  | commaEnded => some .endInValue
  | stray | inside => some .expectedObjectEnd

/-- The fault of an object that is skipped. -/
def skippedObjectFault? : Ending → Option Fault
  | closed => none
  | ended => some .endInObject
  | comma => some .keyNotString
  | commaEnded => some .endInObject
  | stray | inside => some .expectedObjectEnd

/-- The fault of a list that holds a record and has all its fields. -/
def recordFault? : Ending → Option Fault
  | closed => none
  | ended => some .endInList
  | comma => some .trailingComma
  | commaEnded | stray | inside => some .trailingCharacters

end Ending

namespace Node

/-- The fault of a key that is skipped. -/
def skippedKeyFault? : Node → Option Fault
  | text _ | spoiled .. => none
  | broken _ _ skipped => some skipped
  | _ => some .keyNotString

mutual

/-- The first fault of a value that is skipped. -/
def skipFault? : Node → Option Fault
  | broken _ _ skipped => some skipped
  | missing fault => some fault
  | list items ending => (skipItems items).orElse fun _ => ending.skippedListFault?
  | object members ending => (skipMembers members).orElse fun _ => ending.skippedObjectFault?
  | _ => none

def skipItems : List Node → Option Fault
  | [] => none
  | item :: items => item.skipFault?.orElse fun _ => skipItems items

def skipMembers : List (Node × Node) → Option Fault
  | [] => none
  | (key, value) :: members =>
    key.skippedKeyFault?.orElse fun _ => value.skipFault?.orElse fun _ => skipMembers members

end

mutual

/-- How deep lists and objects are nested in a value. -/
def depth : Node → Nat
  | list items _ => depthItems items + 1
  | object members _ => depthMembers members + 1
  | _ => 0

def depthItems : List Node → Nat
  | [] => 0
  | item :: items => max item.depth (depthItems items)

def depthMembers : List (Node × Node) → Nat
  | [] => 0
  | (_, value) :: members => max value.depth (depthMembers members)

end

end Node

mutual

/-- The reading of the text of a value. -/
def toNode : Json → Node
  | null => .null
  | bool value => .bool value
  | int value => .int value
  | string value => .text value
  | array items => .list (itemNodes items) .closed
  | object members => .object (memberNodes members) .closed

def itemNodes : List Json → List Node
  | [] => []
  | item :: items => item.toNode :: itemNodes items

def memberNodes : List (String × Json) → List (Node × Node)
  | [] => []
  | (key, value) :: members => (.text key, value.toNode) :: memberNodes members

end

end StructPadding.Json
