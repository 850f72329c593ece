import Jobflow.Js.Json

/-!
# Parsing JSON

`JSON.parse` of a text, as a descent over its characters; `fuel` bounds both the nesting and the length of each list
and string.
-/

namespace Js

/-! ## Characters -/

namespace JsonParser

def isSpace (c : Char) : Bool := c = ' ' || c = '\t' || c = '\n' || c = '\r'

def skip (cs : List Char) : List Char := cs.dropWhile isSpace

/-- The character after a backslash, but for `u`. -/
def escaped (c : Char) : Option Char :=
  if c = '"' ∨ c = '\\' ∨ c = '/' then some c
  else if c = 'b' then some '\x08'
  else if c = 'f' then some '\x0c'
  else if c = 'n' then some '\n'
  else if c = 'r' then some '\r'
  else if c = 't' then some '\t'
  else none

/-- The code unit four hexadecimal digits name. -/
def readHex : List Char → Option (Nat × List Char)
  | a :: b :: c :: d :: r => (Number.digitsIn 16 [a, b, c, d]).map fun n => (n, r)
  | _ => none

def readEscape : List Char → Option (Nat × List Char)
  | [] => none
  | c :: r => if c = 'u' then readHex r else (escaped c).map fun c => (c.toNat, r)

/-- A character of a string: its code point, or the code unit an escape names. -/
def readUnit : List Char → Option (Nat × List Char)
  | [] => none
  | c :: r => if c = '\\' then readEscape r else if c.toNat < 0x20 then none else some (c.toNat, r)

/-- A string up to its closing quote. -/
def readUnits : Nat → List Char → Option (List Nat × List Char)
  | 0, _ | _, [] => none
  | fuel + 1, c :: r =>
    if c = '"' then some ([], r)
    else do
      let (n, r) ← readUnit (c :: r)
      let (ns, r) ← readUnits fuel r
      some (n :: ns, r)

/-- Two escaped surrogates are one character. One alone, which no `String` holds, is read as U+FFFD. -/
def joinUnits : List Nat → List Char
  | [] => []
  | n :: ns =>
    if 0xD800 ≤ n ∧ n < 0xDC00 then
      match ns with
      | m :: ns' =>
        if 0xDC00 ≤ m ∧ m < 0xE000 then Char.ofNat (0x10000 + (n - 0xD800) * 0x400 + (m - 0xDC00)) :: joinUnits ns'
        else '\uFFFD' :: joinUnits (m :: ns')
      | [] => ['\uFFFD']
    else if 0xDC00 ≤ n ∧ n < 0xE000 then '\uFFFD' :: joinUnits ns
    else Char.ofNat n :: joinUnits ns

def readString (fuel : Nat) (cs : List Char) : Option (String × List Char) :=
  (readUnits fuel cs).map fun (ns, r) => (String.ofList (joinUnits ns), r)

/-! ## Numbers -/

/-- What a number token is made of. -/
def isNumberChar (c : Char) : Bool := Number.isDigit c || c = '-' || c = '+' || c = '.' || c = 'e' || c = 'E'

def isExponent : List Char → Bool
  | [] => true
  | c :: r => (c = 'e' || c = 'E') && (Number.splitSign r).2 ≠ [] && (Number.splitSign r).2.all Number.isDigit

def isFraction : List Char → Bool
  | '.' :: r => r.takeWhile Number.isDigit ≠ [] && isExponent (r.dropWhile Number.isDigit)
  | r => isExponent r

/-- No zero before other digits. -/
def isUnsigned (cs : List Char) : Bool :=
  let whole := cs.takeWhile Number.isDigit
  (whole = ['0'] || whole ≠ [] && whole.head? ≠ some '0') && isFraction (cs.dropWhile Number.isDigit)

def isNumberText : List Char → Bool
  | '-' :: cs => isUnsigned cs
  | cs => isUnsigned cs

/-- The longest run of number characters must be one number: nothing that may follow a number begins with one. -/
def readNumber (cs : List Char) : Option (Value × List Char) :=
  let token := cs.takeWhile isNumberChar
  if isNumberText token then some (.number (.parse (String.ofList token)), cs.dropWhile isNumberChar) else none

/-! ## Values -/

def readWord (word : List Char) (v : Value) (cs : List Char) : Option (Value × List Char) :=
  if word <+: cs then some (v, cs.drop word.length) else none

/-- One or more items up to the closing bracket. -/
def readList {α : Type} (item : List Char → Option (α × List Char)) (close : Char) :
    Nat → List Char → Option (List α × List Char)
  | 0, _ => none
  | fuel + 1, cs => do
    let (a, r) ← item cs
    match skip r with
    | [] => none
    | c :: r =>
      if c = ',' then do
        let (as, r) ← readList item close fuel r
        some (a :: as, r)
      else if c = close then some ([a], r)
      else none

/-- What is between the brackets: nothing, or a list. -/
def readItems {α : Type} (item : List Char → Option (α × List Char)) (close : Char) (fuel : Nat) (cs : List Char) :
    Option (List α × List Char) :=
  match skip cs with
  | [] => none
  | c :: r => if c = close then some ([], r) else readList item close fuel (c :: r)

def readMember (fuel : Nat) (value : List Char → Option (Value × List Char)) (cs : List Char) :
    Option ((String × Value) × List Char) :=
  match skip cs with
  | [] => none
  | c :: r =>
    if c = '"' then do
      let (key, r) ← readString fuel r
      match skip r with
      | [] => none
      | c :: r =>
        if c = ':' then do
          let (v, r) ← value r
          some ((key, v), r)
        else none
    else none

/-- Of the members of one key the last counts. -/
def readValue : Nat → List Char → Option (Value × List Char)
  | 0, _ => none
  | fuel + 1, cs =>
    match skip cs with
    | [] => none
    | c :: r =>
      if c = '"' then (readString fuel r).map fun (s, r) => (.string s, r)
      else if c = '[' then (readItems (readValue fuel) ']' fuel r).map fun (items, r) => (.array none items, r)
      else if c = '{' then
        (readItems (readMember fuel (readValue fuel)) '}' fuel r).map fun (members, r) =>
          (.object none (InsertionMap.ofList members).entries, r)
      else if c = 'n' then readWord "ull".toList .null r
      else if c = 't' then readWord "rue".toList (.bool true) r
      else if c = 'f' then readWord "alse".toList (.bool false) r
      else readNumber (c :: r)

end JsonParser

open JsonParser

/-- `JSON.parse`; `none` is the `SyntaxError`. -/
def parse (text : List Char) : Option Value :=
  match readValue (text.length + 1) text with
  | some (v, r) => if skip r = [] then some v else none
  | none => none

end Js
