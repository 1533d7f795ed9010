/-!
# Tokens of JSON text

The lexical grammar of JSON: numbers without leading zeros, strings without control characters, and
blanks that are spaces, tabs or line ends. A string may escape halves of a surrogate pair, so its
contents are kept as units until someone asks for the text.
-/
namespace LexPivot.Json

/-- A part of a string: a character, or an escape of four hexadecimal digits. -/
inductive TextUnit where
  | char (c : Char)
  | escape (code : Nat)
deriving DecidableEq, Repr

inductive Token where
  | openBrace
  | closeBrace
  | openBracket
  | closeBracket
  | colon
  | comma
  /-- One of the words for true, false and null. -/
  | word
  /-- A number written with digits alone. -/
  | natural (n : Nat)
  /-- A number with a sign, a fraction or an exponent. -/
  | number
  | text (units : List TextUnit)
deriving DecidableEq, Repr

def hexDigit? (c : Char) : Option Nat :=
  if '0' ≤ c ∧ c ≤ '9' then some (c.toNat - 48)
  else if 'a' ≤ c ∧ c ≤ 'f' then some (c.toNat - 87)
  else if 'A' ≤ c ∧ c ≤ 'F' then some (c.toNat - 55)
  else none

def hexCode? (a b c d : Char) : Option Nat :=
  match hexDigit? a, hexDigit? b, hexDigit? c, hexDigit? d with
  | some a, some b, some c, some d => some (((a * 16 + b) * 16 + c) * 16 + d)
  | _, _, _, _ => none

/-- The character that a letter after a backslash stands for. -/
def escaped? : Char → Option Char
  | '"' => some '"'
  | '\\' => some '\\'
  | '/' => some '/'
  | 'b' => some '\x08'
  | 'f' => some '\x0c'
  | 'n' => some '\n'
  | 'r' => some '\r'
  | 't' => some '\t'
  | _ => none

/-- The units of a string up to its closing quote, and what follows it. -/
def scanText : List Char → Option (List TextUnit × List Char)
  | [] => none
  | '"' :: rest => some ([], rest)
  | '\\' :: 'u' :: a :: b :: c :: d :: rest =>
    match hexCode? a b c d, scanText rest with
    | some code, some (units, rest) => some (.escape code :: units, rest)
    | _, _ => none
  | '\\' :: e :: rest =>
    match escaped? e, scanText rest with
    | some c, some (units, rest) => some (.char c :: units, rest)
    | _, _ => none
  | c :: rest =>
    if c.toNat < 32 then none
    else
      match scanText rest with
      | some (units, rest) => some (.char c :: units, rest)
      | none => none

/-- At least one digit, and what follows the digits. -/
def scanDigits (cs : List Char) : Option (List Char × List Char) :=
  match cs.takeWhile Char.isDigit with
  | [] => none
  | digits => some (digits, cs.dropWhile Char.isDigit)

/-- Whether there is a fraction, and what follows it. -/
def scanFraction : List Char → Option (Bool × List Char)
  | '.' :: rest => (scanDigits rest).map fun (_, rest) => (true, rest)
  | rest => some (false, rest)

/-- Whether there is an exponent, and what follows it. -/
def scanExponent : List Char → Option (Bool × List Char)
  | e :: rest =>
    if e = 'e' || e = 'E' then
      let digits :=
        match rest with
        | '+' :: rest => rest
        | '-' :: rest => rest
        | rest => rest
      (scanDigits digits).map fun (_, rest) => (true, rest)
    else some (false, e :: rest)
  | [] => some (false, [])

def digitsValue (digits : List Char) : Nat :=
  digits.foldl (fun n c => n * 10 + (c.toNat - 48)) 0

/-- A number without its sign, and what follows it. -/
def scanUnsigned (cs : List Char) : Option (Token × List Char) :=
  match scanDigits cs with
  | none => none
  | some (digits, rest) =>
    if digits.head? = some '0' && 1 < digits.length then none
    else
      match scanFraction rest with
      | none => none
      | some (fraction, rest) =>
        match scanExponent rest with
        | none => none
        | some (exponent, rest) =>
          some (if fraction || exponent then .number else .natural (digitsValue digits), rest)

def isBlank (c : Char) : Bool := c = ' ' || c = '\t' || c = '\n' || c = '\r'

/-- The first token of a text that does not start with a blank, and what follows it. -/
def scanToken : List Char → Option (Token × List Char)
  | '\x7b' :: rest => some (.openBrace, rest)
  | '\x7d' :: rest => some (.closeBrace, rest)
  | '[' :: rest => some (.openBracket, rest)
  | ']' :: rest => some (.closeBracket, rest)
  | ':' :: rest => some (.colon, rest)
  | ',' :: rest => some (.comma, rest)
  | 't' :: 'r' :: 'u' :: 'e' :: rest => some (.word, rest)
  | 'f' :: 'a' :: 'l' :: 's' :: 'e' :: rest => some (.word, rest)
  | 'n' :: 'u' :: 'l' :: 'l' :: rest => some (.word, rest)
  | '"' :: rest => (scanText rest).map fun (units, rest) => (.text units, rest)
  | '-' :: rest => (scanUnsigned rest).map fun (_, rest) => (.number, rest)
  | cs => scanUnsigned cs

/-- The tokens of a text, at most `budget` of them. Every token has a character of its own, so the
length of the text is budget enough. -/
def scanWithin : Nat → List Char → Option (List Token)
  | 0, cs => if cs.all isBlank then some [] else none
  | budget + 1, cs =>
    match cs.dropWhile isBlank with
    | [] => some []
    | c :: rest =>
      match scanToken (c :: rest) with
      | none => none
      | some (token, rest) => (scanWithin budget rest).map (token :: ·)

/-- The tokens of a text, if it consists of tokens. -/
def tokens? (text : String) : Option (List Token) := scanWithin text.length text.toList

def isHighSurrogate (code : Nat) : Bool := 0xd800 ≤ code && code < 0xdc00

def isLowSurrogate (code : Nat) : Bool := 0xdc00 ≤ code && code < 0xe000

/-- The characters of a string, in which every surrogate must be one of a pair. -/
def decode? : List TextUnit → Option (List Char)
  | [] => some []
  | .char c :: rest => (decode? rest).map (c :: ·)
  | .escape high :: .escape low :: rest =>
    if isHighSurrogate high then
      if isLowSurrogate low then
        let code := 0x10000 + (high - 0xd800) * 1024 + (low - 0xdc00)
        (decode? rest).map (Char.ofNat code :: ·)
      else none
    else if isLowSurrogate high then none
    else (decode? (.escape low :: rest)).map (Char.ofNat high :: ·)
  | .escape code :: rest =>
    if isHighSurrogate code || isLowSurrogate code then none
    else (decode? rest).map (Char.ofNat code :: ·)

end LexPivot.Json
