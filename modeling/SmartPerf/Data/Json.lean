import SmartPerf.Data.ObjectMap

namespace SmartPerf.Data

/-! Reading JSON texts, given as code units of 16 bits, into values. -/

/-- The numbers into which decimal literals are read. -/
structure NumberFormat where
  Number : Type
  /-- The number of a literal: its sign, its digits as one number, and the power of ten. -/
  read : Bool → Nat → Int → Number
  ofInt : Int → Number
  read_exact : ∀ value : Int, value.natAbs < 2 ^ 53 → read (decide (value < 0)) value.natAbs 0 = ofInt value
  ofInt_inj : ∀ value other : Int, value.natAbs < 2 ^ 53 → other.natAbs < 2 ^ 53 → ofInt value = ofInt other → value = other

inductive Json (Number : Type) where
  | null
  | bool (value : Bool)
  | number (value : Number)
  | string (value : List UInt16)
  | array (values : List (Json Number))
  | object (members : List (List UInt16 × Json Number))

namespace Json

def unit (char : Char) : UInt16 := char.toNat.toUInt16

def units (text : String) : List UInt16 := text.toList.map unit

def quote : UInt16 := 34

def backslash : UInt16 := 92

def comma : UInt16 := 44

variable (code : UInt16) (text : List UInt16) {Number : Type}

def isSpace : Bool := code = 32 ∨ code = 9 ∨ code = 10 ∨ code = 13

def skipSpace : List UInt16 := text.dropWhile isSpace

def isDigit : Bool := 48 ≤ code ∧ code ≤ 57

def digitsValue (digits : List UInt16) : Nat := digits.foldl (fun value code => 10 * value + (code.toNat - 48)) 0

def parseDigits : Option (List UInt16 × List UInt16) :=
  match text.takeWhile isDigit with
  | [] => none
  | digit :: digits => some (digit :: digits, text.dropWhile isDigit)

/-- The digits in front of the point: a zero, or digits that do not start with one. -/
def parseWhole : List UInt16 → Option (List UInt16 × List UInt16)
  | [] => none
  | code :: rest => if code = unit '0' then some ([code], rest) else parseDigits (code :: rest)

def parseFraction : List UInt16 → Option (List UInt16 × List UInt16)
  | [] => some ([], [])
  | code :: rest => if code = unit '.' then parseDigits rest else some ([], code :: rest)

def parseSigned : List UInt16 → Option (Int × List UInt16)
  | [] => none
  | code :: rest =>
    if code = unit '-' then (parseDigits rest).map fun (digits, rest) => (-(digitsValue digits : Int), rest)
    else (parseDigits (if code = unit '+' then rest else code :: rest)).map fun (digits, rest) => ((digitsValue digits : Int), rest)

def parseExponent : List UInt16 → Option (Int × List UInt16)
  | [] => some (0, [])
  | code :: rest => if code = unit 'e' ∨ code = unit 'E' then parseSigned rest else some (0, code :: rest)

def parseMagnitude : Option ((Nat × Int) × List UInt16) :=
  (parseWhole text).bind fun (whole, rest) =>
    (parseFraction rest).bind fun (fraction, rest) =>
      (parseExponent rest).map fun (exponent, rest) => ((digitsValue (whole ++ fraction), exponent - fraction.length), rest)

def hexDigit : Option Nat :=
  if isDigit code then some (code.toNat - 48)
  else if 97 ≤ code ∧ code ≤ 102 then some (code.toNat - 87)
  else if 65 ≤ code ∧ code ≤ 70 then some (code.toNat - 55)
  else none

def hexUnit (first second third fourth : UInt16) : Option UInt16 := do
  let first ← hexDigit first
  let second ← hexDigit second
  let third ← hexDigit third
  let fourth ← hexDigit fourth
  some (((first * 16 + second) * 16 + third) * 16 + fourth).toUInt16

def escapeTable : List (Char × UInt16) :=
  [('"', 34), ('\\', 92), ('/', 47), ('b', 8), ('f', 12), ('n', 10), ('r', 13), ('t', 9)]

def escaped : Option UInt16 := (escapeTable.find? fun entry => unit entry.1 = code).map Prod.snd

def parseString : List UInt16 → Option (List UInt16 × List UInt16)
  | [] => none
  | code :: rest =>
    if code = quote then some ([], rest)
    else if code = backslash then
      match rest with
      | [] => none
      | escape :: rest =>
        if escape = unit 'u' then
          match rest with
          | first :: second :: third :: fourth :: rest =>
            (hexUnit first second third fourth).bind fun value =>
              (parseString rest).map fun (text, rest) => (value :: text, rest)
          | _ => none
        else (escaped escape).bind fun value => (parseString rest).map fun (text, rest) => (value :: text, rest)
    else if code < 32 then none
    else (parseString rest).map fun (text, rest) => (code :: text, rest)

def dropWord : List UInt16 → List UInt16 → Option (List UInt16)
  | [], text => some text
  | _ :: _, [] => none
  | code :: word, other :: text => if code = other then dropWord word text else none

def parseElements (parseValue : List UInt16 → Option (Json Number × List UInt16)) :
    Nat → List UInt16 → Option (List (Json Number) × List UInt16)
  | 0, _ => none
  | fuel + 1, text =>
    (parseValue text).bind fun (value, rest) =>
      match skipSpace rest with
      | [] => none
      | code :: rest =>
        if code = comma then (parseElements parseValue fuel rest).map fun (values, rest) => (value :: values, rest)
        else if code = unit ']' then some ([value], rest)
        else none

def parseKey (text : List UInt16) : Option (List UInt16 × List UInt16) :=
  match skipSpace text with
  | [] => none
  | code :: rest =>
    if code = quote then
      (parseString rest).bind fun (key, rest) =>
        match skipSpace rest with
        | [] => none
        | code :: rest => if code = unit ':' then some (key, rest) else none
    else none

def parseMembers (parseValue : List UInt16 → Option (Json Number × List UInt16)) :
    Nat → List UInt16 → Option (List (List UInt16 × Json Number) × List UInt16)
  | 0, _ => none
  | fuel + 1, text =>
    (parseKey text).bind fun (key, rest) =>
      (parseValue rest).bind fun (value, rest) =>
        match skipSpace rest with
        | [] => none
        | code :: rest =>
          if code = comma then (parseMembers parseValue fuel rest).map fun (members, rest) => ((key, value) :: members, rest)
          else if code = unit '}' then some ([(key, value)], rest)
          else none

/-- A later member replaces the value of an earlier one with the same key. -/
def ofMembers (members : List (List UInt16 × Json Number)) : Json Number :=
  .object (members.foldl (fun map member => upsert member.1 (fun _ => member.2) map) [])

def parseArray (parseValue : List UInt16 → Option (Json Number × List UInt16)) (text : List UInt16) :
    Option (Json Number × List UInt16) :=
  match skipSpace text with
  | [] => none
  | code :: rest =>
    if code = unit ']' then some (.array [], rest)
    else (parseElements parseValue text.length text).map fun (values, rest) => (.array values, rest)

def parseObject (parseValue : List UInt16 → Option (Json Number × List UInt16)) (text : List UInt16) :
    Option (Json Number × List UInt16) :=
  match skipSpace text with
  | [] => none
  | code :: rest =>
    if code = unit '}' then some (.object [], rest)
    else (parseMembers parseValue text.length text).map fun (members, rest) => (ofMembers members, rest)

def parseWord (text : List UInt16) : Option (Json Number × List UInt16) :=
  match dropWord (units "null") text, dropWord (units "true") text, dropWord (units "false") text with
  | some rest, _, _ => some (.null, rest)
  | _, some rest, _ => some (.bool true, rest)
  | _, _, some rest => some (.bool false, rest)
  | _, _, _ => none

/-- A value at some depth; `fuel` bounds the nesting. -/
def parseValue (format : NumberFormat) : Nat → List UInt16 → Option (Json format.Number × List UInt16)
  | 0, _ => none
  | fuel + 1, text =>
    match skipSpace text with
    | [] => none
    | code :: rest =>
      if code = quote then (parseString rest).map fun (value, rest) => (.string value, rest)
      else if code = unit '[' then parseArray (parseValue format fuel) rest
      else if code = unit '{' then parseObject (parseValue format fuel) rest
      else if code = unit '-' then
        (parseMagnitude rest).map fun ((digits, exponent), rest) => (.number (format.read true digits exponent), rest)
      else if isDigit code then
        (parseMagnitude (code :: rest)).map fun ((digits, exponent), rest) =>
          (.number (format.read false digits exponent), rest)
      else parseWord (code :: rest)

def parse (format : NumberFormat) (text : List UInt16) : Option (Json format.Number) :=
  (parseValue format (text.length + 1) text).bind fun (value, rest) => if skipSpace rest = [] then some value else none

end Json

end SmartPerf.Data
