import LexPivot.Json.Token

/-!
# Skipping JSON values

Reading past a value of any kind, however deeply it is nested, without building it.
-/
namespace LexPivot.Json

inductive Container where
  | array
  | object
deriving DecidableEq, Repr

/-- What may come next in the innermost open container. -/
inductive Expected where
  | value
  | valueOrClose
  | key
  | keyOrClose
  | colon
  | commaOrClose
deriving DecidableEq, Repr

/-- The containers open, and what is expected next, after a value starts with `token`. -/
def startValue (opened : List Container) : Token → Option (List Container × Expected)
  | .openBracket => some (.array :: opened, .valueOrClose)
  | .openBrace => some (.object :: opened, .keyOrClose)
  | .word | .natural _ | .number | .text _ => some (opened, .commaOrClose)
  | _ => none

/-- The containers open, and what is expected next, after `token`. -/
def advance (opened : List Container) (expected : Expected) (token : Token) :
    Option (List Container × Expected) :=
  match expected, token, opened with
  | .value, token, opened => startValue opened token
  | .valueOrClose, .closeBracket, _ :: outer => some (outer, .commaOrClose)
  | .valueOrClose, token, opened => startValue opened token
  | .key, .text _, opened => some (opened, .colon)
  | .keyOrClose, .text _, opened => some (opened, .colon)
  | .keyOrClose, .closeBrace, _ :: outer => some (outer, .commaOrClose)
  | .colon, .colon, opened => some (opened, .value)
  | .commaOrClose, .comma, .array :: outer => some (.array :: outer, .value)
  | .commaOrClose, .comma, .object :: outer => some (.object :: outer, .key)
  | .commaOrClose, .closeBracket, .array :: outer => some (outer, .commaOrClose)
  | .commaOrClose, .closeBrace, .object :: outer => some (outer, .commaOrClose)
  | _, _, _ => none

/-- The tokens after the outermost of the open containers is closed. -/
def skipFrom (opened : List Container) (expected : Expected) : List Token → Option (List Token)
  | [] => none
  | token :: rest =>
    match advance opened expected token with
    | none => none
    | some ([], _) => some rest
    | some (opened, expected) => skipFrom opened expected rest

/-- The tokens after one value. -/
def skipValue (tokens : List Token) : Option (List Token) := skipFrom [] .value tokens

end LexPivot.Json
