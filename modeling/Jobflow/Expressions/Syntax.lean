import Jobflow.Js.Value

/-!
# Constraint expressions: tokens and trees (src/expressions)

`tokenize` is `Tokenizer.tokenize` (tokenizer.ts:23-63). The source keeps a cursor `pos` into the
input; here the rest of the input is the list being read, and `skip` counts the characters of it
that a token already took. `pos` is kept for the texts of errors and the tokens' `pos` fields,
counted in UTF-16 units.

`parse` is `ExpressionParser.parse` (parser.ts:9-17). The parser's `i` is the list of tokens still
to be read. Parenthesised and argument expressions re-enter `parseOr`; `depth` bounds that nesting,
and the number of tokens is enough of it, since each re-entry has consumed a parenthesis.
-/

namespace Jobflow.Expressions

open Js

/-! ## Tokens -/

inductive TokenType where
  | ident | number | string | op | lparen | rparen | comma | eof
  deriving DecidableEq

def TokenType.text : TokenType → String
  | .ident => "ident"
  | .number => "number"
  | .string => "string"
  | .op => "op"
  | .lparen => "lparen"
  | .rparen => "rparen"
  | .comma => "comma"
  | .eof => "eof"

structure Token where
  type : TokenType
  value : String
  pos : Nat
  deriving DecidableEq

def charUnits (c : Char) : Nat := if c.toNat ≤ 0xFFFF then 1 else 2

def units (cs : List Char) : Nat := (cs.map charUnits).sum

/-- `/[a-zA-Z_]/`. -/
def isIdentStart (c : Char) : Bool := ('a' ≤ c && c ≤ 'z') || ('A' ≤ c && c ≤ 'Z') || c = '_'

/-- `/[a-zA-Z0-9_.]/`. -/
def isIdentChar (c : Char) : Bool := isIdentStart c || Number.isDigit c || c = '.'

/-- `/[0-9.]/`. -/
def isNumberChar (c : Char) : Bool := Number.isDigit c || c = '.'

/-- The characters that start an operator (tokenizer.ts:41). -/
def isOpChar (c : Char) : Bool := c ∈ ['+', '-', '*', '/', '<', '>', '=', '!', '&', '|']

/-- `readOp` (tokenizer.ts:69-76): one of the six two-character operators, else one character. -/
def readOp : List Char → List Char
  | c :: d :: _ =>
    if [c, d] ∈ [['=', '='], ['!', '='], ['<', '='], ['>', '='], ['&', '&'], ['|', '|']] then [c, d] else [c]
  | cs => cs

/-- `Tokenizer.tokenize`. -/
def tokenizeFrom : List Char → Nat → Nat → Except Exception (List Token)
  | [], skip, pos => .ok [⟨.eof, "", pos + skip⟩]
  | c :: cs, skip + 1, pos => tokenizeFrom cs skip (pos + charUnits c)
  | c :: cs, 0, pos =>
    if Number.isSpace c then tokenizeFrom cs 0 (pos + charUnits c)
    else if c = '(' then do .ok (⟨.lparen, "(", pos⟩ :: (← tokenizeFrom cs 0 (pos + 1)))
    else if c = ')' then do .ok (⟨.rparen, ")", pos⟩ :: (← tokenizeFrom cs 0 (pos + 1)))
    else if c = ',' then do .ok (⟨.comma, ",", pos⟩ :: (← tokenizeFrom cs 0 (pos + 1)))
    else if isOpChar c then
      let op := readOp (c :: cs)
      do .ok (⟨.op, String.ofList op, pos + op.length⟩ :: (← tokenizeFrom cs (op.length - 1) (pos + 1)))
    else if c = '"' ∨ c = '\'' then
      -- `readString`: up to the quote or the end of the input, and one position past it
      let text := cs.takeWhile (· ≠ c)
      do .ok (⟨.string, String.ofList text, pos + units text + 2⟩ ::
        (← tokenizeFrom cs (text.length + 1) (pos + 1)))
    else if Number.isDigit c then
      let text := c :: cs.takeWhile isNumberChar
      do .ok (⟨.number, String.ofList text, pos + text.length⟩ :: (← tokenizeFrom cs (text.length - 1) (pos + 1)))
    else if isIdentStart c then
      let text := c :: cs.takeWhile isIdentChar
      do .ok (⟨.ident, String.ofList text, pos + text.length⟩ :: (← tokenizeFrom cs (text.length - 1) (pos + 1)))
    else .error (.error ("unexpected character at " ++ toString pos ++ ": " ++ String.ofList [c]))

def tokenize (input : String) : Except Exception (List Token) := tokenizeFrom input.toList 0 0

/-! ## Trees (ast.ts) -/

inductive UnaryOp where
  | not | neg
  deriving DecidableEq

inductive ExprNode where
  | literal (value : Value)
  | ident (name : String)
  | unary (op : UnaryOp) (arg : ExprNode)
  | binary (op : String) (left right : ExprNode)
  | call (name : String) (args : List ExprNode)

/-! ## The parser -/

abbrev Parser := List Token → Except Exception (ExprNode × List Token)

/-- `peek()`: the token list ends in `eof`, which is never consumed. -/
def peek : List Token → Token
  | t :: _ => t
  | [] => ⟨.eof, "", 0⟩

/-- `consume(type)`. -/
def consume (type : TokenType) (ts : List Token) : Except Exception (Token × List Token) :=
  if (peek ts).type ≠ type then .error (.error ("expected " ++ type.text ++ ", got " ++ (peek ts).type.text))
  else .ok (peek ts, ts.tail)

/-- The `while (ops.includes(this.peek().value))` loop of a left-associative level: the operator is
recognised by its text alone and then consumed as an `op` token. -/
def leftLoop (ops : List String) (operand : Parser) : Nat → ExprNode → Parser
  | 0, left, ts => .ok (left, ts)
  | fuel + 1, left, ts =>
    if (peek ts).value ∈ ops then do
      let (op, ts) ← consume .op ts
      let (right, ts) ← operand ts
      leftLoop ops operand fuel (.binary op.value left right) ts
    else .ok (left, ts)

/-- A level `left = operand(); while (…) left = { op, left, right: operand() }`. -/
def leftLevel (ops : List String) (operand : Parser) : Parser := fun ts => do
  let (left, ts) ← operand ts
  leftLoop ops operand ts.length left ts

/-- The `while (this.peek().type === "comma")` loop of a call's arguments. -/
def argLoop (parseOr : Parser) : Nat → List ExprNode → List Token → Except Exception (List ExprNode × List Token)
  | 0, args, ts => .ok (args, ts)
  | fuel + 1, args, ts =>
    if (peek ts).type = .comma then do
      let (_, ts) ← consume .comma ts
      let (arg, ts) ← parseOr ts
      argLoop parseOr fuel (args ++ [arg]) ts
    else .ok (args, ts)

/-- The arguments of a call, after its opening parenthesis (parser.ts:92-100). -/
def parseArgs (parseOr : Parser) (ts : List Token) : Except Exception (List ExprNode × List Token) := do
  let (args, ts) ← if (peek ts).type ≠ .rparen then do
      let (arg, ts) ← parseOr ts
      argLoop parseOr ts.length [arg] ts
    else .ok ([], ts)
  let (_, ts) ← consume .rparen ts
  .ok (args, ts)

/-- `parsePrimary` (parser.ts:74-112). -/
def parsePrimary (parseOr : Parser) : Parser := fun ts =>
  let t := peek ts
  match t.type with
  | .number => .ok (.literal (.number (.parse t.value)), ts.tail)
  | .string => .ok (.literal (.string t.value), ts.tail)
  | .ident =>
    if t.value = "true" then .ok (.literal (.bool true), ts.tail)
    else if t.value = "false" then .ok (.literal (.bool false), ts.tail)
    else if t.value = "null" then .ok (.literal .null, ts.tail)
    else if (peek ts.tail).type = .lparen then do
      let (args, ts) ← parseArgs parseOr ts.tail.tail
      .ok (.call t.value args, ts)
    else .ok (.ident t.value, ts.tail)
  | .lparen => do
    let (inner, ts) ← parseOr ts.tail
    let (_, ts) ← consume .rparen ts
    .ok (inner, ts)
  | type => .error (.error ("unexpected token " ++ type.text))

/-- `parseUnary` (parser.ts:62-72). -/
def parseUnary (parseOr : Parser) : Parser
  | [] => parsePrimary parseOr []
  | t :: ts =>
    if t.value = "!" then do
      let _ ← consume .op (t :: ts)
      let (arg, ts) ← parseUnary parseOr ts
      .ok (.unary .not arg, ts)
    else if t.value = "-" then do
      let _ ← consume .op (t :: ts)
      let (arg, ts) ← parseUnary parseOr ts
      .ok (.unary .neg arg, ts)
    else parsePrimary parseOr (t :: ts)

def parseMul (parseOr : Parser) : Parser := leftLevel ["*", "/"] (parseUnary parseOr)

def parseAdd (parseOr : Parser) : Parser := leftLevel ["+", "-"] (parseMul parseOr)

/-- `parseComparison` (parser.ts:37-45): at most one comparison operator. -/
def parseComparison (parseOr : Parser) : Parser := fun ts => do
  let (left, ts) ← parseAdd parseOr ts
  if (peek ts).value ∈ ["==", "!=", "<", "<=", ">", ">="] then
    let (op, ts) ← consume .op ts
    let (right, ts) ← parseAdd parseOr ts
    .ok (.binary op.value left right, ts)
  else .ok (left, ts)

def parseAnd (parseOr : Parser) : Parser := leftLevel ["&&"] (parseComparison parseOr)

/-- `parseOr`, with the nesting of parentheses and argument lists still allowed. -/
def parseOr : Nat → Parser
  | 0 => fun _ => .error (.error "nesting")
  | depth + 1 => leftLevel ["||"] (parseAnd (parseOr depth))

/-- `ExpressionParser.parse`. -/
def parse (input : String) : Except Exception ExprNode := do
  let ts ← tokenize input
  let (node, rest) ← parseOr (ts.length + 1) ts
  if (peek rest).type ≠ .eof then .error (.error ("unexpected token " ++ (peek rest).value)) else .ok node

end Jobflow.Expressions
