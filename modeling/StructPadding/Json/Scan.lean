import StructPadding.Json.Node
import StructPadding.Text.Utf8

/-!
# Reading JSON text

Bytes become a reading in one pass from left to right. Nothing is refused here: what goes wrong is
part of the reading.
-/

namespace StructPadding.Json

/-- The bytes after the blanks they start with. -/
def skipBlanks (bytes : List UInt8) : List UInt8 :=
  bytes.dropWhile fun b => b == 0x20 || b == 0x0a || b == 0x09 || b == 0x0d

def isDigit (b : UInt8) : Bool :=
  0x30 ≤ b && b ≤ 0x39

/-- The value of a hexadecimal digit. -/
def hexDigit? (b : UInt8) : Option Nat :=
  if isDigit b then some (b.toNat - 0x30)
  else if 0x61 ≤ b && b ≤ 0x66 then some (b.toNat - 0x61 + 10)
  else if 0x41 ≤ b && b ≤ 0x46 then some (b.toNat - 0x41 + 10)
  else none

/-- The number that four hexadecimal digits stand for, and the bytes after them. -/
def hexFour : List UInt8 → Except Fault (Nat × List UInt8)
  | a :: b :: c :: d :: rest =>
    match hexDigit? a, hexDigit? b, hexDigit? c, hexDigit? d with
    | some a, some b, some c, some d => .ok (((a * 16 + b) * 16 + c) * 16 + d, rest)
    | _, _, _, _ => .error .invalidEscape
  | _ => .error .endInString

/-- A string that was read, or where it goes wrong. -/
inductive Scanned where
  | text (content : Except Fault String) (rest : List UInt8)
  | broken (kept skipped : Fault)

/-- What one escape stands for. -/
inductive Escape where
  | bytes (content : List UInt8) (rest : List UInt8)
  /-- Good form, but no character. -/
  | spoiled (fault : Fault) (rest : List UInt8)
  | broken (fault : Fault)

/-- A code point by its number. A number from the first half of the surrogates needs one from the
second half right after it. -/
def unicodeEscape (rest : List UInt8) : Escape :=
  match hexFour rest with
  | .error fault => .broken fault
  | .ok (n, rest) =>
    if 0xdc00 ≤ n ∧ n ≤ 0xdfff then .spoiled .loneSurrogate rest
    else if n < 0xd800 ∨ 0xdbff < n then
      .bytes (Text.Utf8.encode (String.singleton (Char.ofNat n))) rest
    else
      match rest with
      | [] | [0x5c] => .broken .endInString
      | 0x5c :: 0x75 :: after =>
        match hexFour after with
        | .error fault => .broken fault
        | .ok (m, after) =>
          if 0xdc00 ≤ m ∧ m ≤ 0xdfff then
            let c := Char.ofNat (0x10000 + (n - 0xd800) * 0x400 + (m - 0xdc00))
            .bytes (Text.Utf8.encode (String.singleton c)) after
          else .spoiled .loneSurrogate after
      | _ => .spoiled .unfinishedSurrogate rest

/-- The escape whose backslash was just read. -/
def escape : List UInt8 → Escape
  | [] => .broken .endInString
  | b :: rest =>
    if b == 0x22 || b == 0x5c || b == 0x2f then .bytes [b] rest
    else if b == 0x62 then .bytes [0x08] rest
    else if b == 0x66 then .bytes [0x0c] rest
    else if b == 0x6e then .bytes [0x0a] rest
    else if b == 0x72 then .bytes [0x0d] rest
    else if b == 0x74 then .bytes [0x09] rest
    else if b == 0x75 then unicodeEscape rest
    else .broken .invalidEscape

/-- Reads a string whose opening quote was just read; each step reads a byte. `spoilt` is the first
fault that only matters if the string is kept; `content` is what was read so far, backwards. -/
def scanTextFrom : Nat → Option Fault → List UInt8 → List UInt8 → Scanned
  | 0, _, _, _ => .broken .endInString .endInString
  | steps + 1, spoilt, content, bytes =>
    match bytes with
    | [] => .broken (spoilt.getD .endInString) .endInString
    | b :: rest =>
      if b == 0x22 then
        match spoilt, Text.Utf8.decode content.reverse with
        | some fault, _ => .text (.error fault) rest
        | none, .error _ => .text (.error .invalidCodePoint) rest
        | none, .ok cs => .text (.ok (String.ofList cs)) rest
      else if b == 0x5c then
        match escape rest with
        | .bytes more rest => scanTextFrom steps spoilt (more.reverse ++ content) rest
        | .spoiled fault rest => scanTextFrom steps (some (spoilt.getD fault)) content rest
        | .broken fault => .broken (spoilt.getD fault) fault
      else if b < 0x20 then .broken (spoilt.getD .controlCharacter) .controlCharacter
      else scanTextFrom steps spoilt (b :: content) rest

/-- Adds digits to a number for as long as it fits 64 bits; the number, and how many fitted. -/
def gather : Nat → List UInt8 → Nat × Nat
  | n, [] => (n, 0)
  | n, d :: ds =>
    let next := n * 10 + (d.toNat - 0x30)
    if next < UInt64.size then
      let (total, taken) := gather next ds
      (total, taken + 1)
    else (n, 0)

/-- The number that its parts stand for. Without a fraction or an exponent it is an integer if it
fits 64 bits and is not a negative zero. -/
def number (negative : Bool) (whole fraction : List UInt8) (isFloat : Bool) (exponent : Int) :
    Node :=
  let (n, taken) := gather 0 whole
  let beyond := whole.length - taken
  let integral := !isFloat && beyond == 0
  if integral && !negative then .int n
  else if integral && n != 0 && n ≤ 0x8000000000000000 then .int (-n)
  else
    let (digits, places) := gather n fraction
    match Decimal.Double.ofDecimal digits (beyond - places + exponent) with
    | some value => .float negative value
    | none => .spoiled false .numberOutOfRange

/-- Reads the exponent of a number after its mark: its value and the bytes after it, or the fault of
the number when it is kept. -/
def scanExponent (bytes : List UInt8) : Except Fault (Int × List UInt8) :=
  let (negative, digits) :=
    match bytes with
    | 0x2b :: rest => (false, rest)
    | 0x2d :: rest => (true, rest)
    | _ => (false, bytes)
  match digits with
  | [] => .error .endInValue
  | d :: _ =>
    if isDigit d then
      let shown := digits.takeWhile isDigit
      let n : Int := shown.foldl (fun n d => n * 10 + (d.toNat - 0x30)) 0
      .ok (if negative then -n else n, digits.dropWhile isDigit)
    else .error .invalidNumber

/-- Reads the rest of a number after its whole part. -/
def scanFraction (negative : Bool) (whole bytes : List UInt8) : Node × Option (List UInt8) :=
  let (point, fraction, rest) :=
    match bytes with
    | 0x2e :: rest => (true, rest.takeWhile isDigit, rest.dropWhile isDigit)
    | _ => (false, [], bytes)
  if point && fraction.isEmpty then
    (.broken false (if rest.isEmpty then .endInValue else .invalidNumber) .invalidNumber, none)
  else
    match rest with
    | 0x65 :: after | 0x45 :: after =>
      match scanExponent after with
      | .ok (exponent, after) => (number negative whole fraction true exponent, some after)
      | .error fault => (.broken false fault .invalidNumber, none)
    | _ => (number negative whole fraction point 0, some rest)

/-- Reads a number after its sign. The whole part is zero, or digits that do not start with zero. -/
def scanNumber (negative : Bool) : List UInt8 → Node × Option (List UInt8)
  | [] => (.broken false .endInValue .invalidNumber, none)
  | d :: rest =>
    if d == 0x30 then
      if (rest.head?.map isDigit).getD false then
        (.broken false .invalidNumber .invalidNumber, none)
      else scanFraction negative [d] rest
    else if isDigit d then
      scanFraction negative (d :: rest.takeWhile isDigit) (rest.dropWhile isDigit)
    else (.broken false .invalidNumber .invalidNumber, none)

/-- Reads the rest of a word. -/
def scanWord (value : Node) : List UInt8 → List UInt8 → Node × Option (List UInt8)
  | [], bytes => (value, some bytes)
  | _ :: _, [] => (.broken false .endInValue .endInValue, none)
  | w :: ws, b :: bytes =>
    if w == b then scanWord value ws bytes
    else (.broken false .expectedWord .expectedWord, none)

/-- Reads a string whose opening quote was just read as a node, with the bytes after it unless it is
broken. -/
def scanText (steps : Nat) (bytes : List UInt8) : Node × Option (List UInt8) :=
  match scanTextFrom steps none [] bytes with
  | .text (.ok s) rest => (.text s, some rest)
  | .text (.error fault) rest => (.spoiled true fault, some rest)
  | .broken kept skipped => (.broken true kept skipped, none)

/-- Reads a number, a word or a string. -/
def scanScalar (steps : Nat) : List UInt8 → Node × Option (List UInt8)
  | [] => (.missing .endInValue, none)
  | b :: rest =>
    if b == 0x22 then scanText steps rest
    else if b == 0x2d then scanNumber true rest
    else if isDigit b then scanNumber false (b :: rest)
    else if b == 0x6e then scanWord .null [0x75, 0x6c, 0x6c] rest
    else if b == 0x74 then scanWord (.bool true) [0x72, 0x75, 0x65] rest
    else if b == 0x66 then scanWord (.bool false) [0x61, 0x6c, 0x73, 0x65] rest
    else (.broken false .expectedValue .expectedValue, none)

/-- Lists and objects in reading, with the bytes after them unless the text stops making sense. -/
abbrev Reading (α : Type) : Type :=
  List α × Ending × Option (List UInt8)

mutual

/-- Reads a value. Of three steps at least one reads a byte. -/
def scanValue : Nat → List UInt8 → Node × Option (List UInt8)
  | 0, _ => (.missing .endInValue, none)
  | steps + 1, bytes =>
    match skipBlanks bytes with
    | 0x5b :: rest =>
      let (items, ending, rest) := scanItems steps true rest
      (.list items ending, rest)
    | 0x7b :: rest =>
      let (members, ending, rest) := scanMembers steps true rest
      (.object members ending, rest)
    | bytes => scanScalar (steps + 1) bytes

/-- Reads the items of a list that are left. -/
def scanItems : Nat → Bool → List UInt8 → Reading Node
  | 0, _, _ => ([], .ended, none)
  | steps + 1, first, bytes =>
    match skipBlanks bytes, first with
    | [], _ => ([], .ended, none)
    | 0x5d :: rest, _ => ([], .closed, some rest)
    | bytes, true => scanItem steps bytes
    | 0x2c :: rest, false =>
      match skipBlanks rest with
      | [] => ([], .commaEnded, none)
      | 0x5d :: _ => ([], .comma, none)
      | bytes => scanItem steps bytes
    | _, false => ([], .stray, none)

/-- Reads an item and those after it. -/
def scanItem : Nat → List UInt8 → Reading Node
  | 0, _ => ([], .ended, none)
  | steps + 1, bytes =>
    match scanValue steps bytes with
    | (item, none) => ([item], .inside, none)
    | (item, some rest) =>
      let (items, ending, rest) := scanItems steps false rest
      (item :: items, ending, rest)

/-- Reads the members of an object that are left. -/
def scanMembers : Nat → Bool → List UInt8 → Reading (Node × Node)
  | 0, _, _ => ([], .ended, none)
  | steps + 1, first, bytes =>
    match skipBlanks bytes, first with
    | [], _ => ([], .ended, none)
    | 0x7d :: rest, _ => ([], .closed, some rest)
    | bytes, true => scanMember steps bytes
    | 0x2c :: rest, false =>
      match skipBlanks rest with
      | [] => ([], .commaEnded, none)
      | 0x7d :: _ => ([], .comma, none)
      | bytes => scanMember steps bytes
    | _, false => ([], .stray, none)

/-- Reads a member and those after it. What stands in the place of a key without being a string ends
the object. -/
def scanMember : Nat → List UInt8 → Reading (Node × Node)
  | 0, _ => ([], .ended, none)
  | steps + 1, 0x22 :: bytes =>
    match scanText (steps + 1) bytes with
    | (key, none) => ([(key, .missing .endInObject)], .inside, none)
    | (key, some rest) =>
      match skipBlanks rest with
      | 0x3a :: rest =>
        match scanValue steps rest with
        | (value, none) => ([(key, value)], .inside, none)
        | (value, some rest) =>
          let (members, ending, rest) := scanMembers steps false rest
          ((key, value) :: members, ending, rest)
      | [] => ([(key, .missing .endInObject)], .inside, none)
      | _ => ([(key, .missing .expectedColon)], .inside, none)
  | _ + 1, _ =>
    ([(.broken false .keyNotString .keyNotString, .missing .keyNotString)], .inside, none)

end

/-- A text as a value, and whether more than blanks follows it. -/
structure Document where
  root : Node
  trailing : Bool

/-- Reads a text. -/
def read (bytes : List UInt8) : Document :=
  let (root, rest) := scanValue (4 * bytes.length + 4) bytes
  ⟨root, !(skipBlanks (rest.getD [])).isEmpty⟩

end StructPadding.Json
