/-
Faults of a JSON text.
-/
namespace Stencil.Json

/-- What can be wrong with the text of a JSON value. -/
inductive Fault where
  | endInValue
  | endInObject
  | endInArray
  | endInString
  | unknownWord
  | notAValue
  | missingColon
  | missingCommaInObject
  | missingCommaInArray
  | trailingComma
  | trailingCharacters
  | keyNotAString
  | badEscape
  | badNumber
  | numberOutOfRange
  | unpairedLead
  | unpairedTrail
  | controlCharacter
  | tooDeep
deriving DecidableEq, Repr

/-- The wording of a fault. -/
def Fault.message : Fault → String
  | endInValue => "EOF while parsing a value"
  | endInObject => "EOF while parsing an object"
  | endInArray => "EOF while parsing a list"
  | endInString => "EOF while parsing a string"
  | unknownWord => "expected ident"
  | notAValue => "expected value"
  | missingColon => "expected `:`"
  | missingCommaInObject => "expected `,` or `\x7d`"
  | missingCommaInArray => "expected `,` or `]`"
  | trailingComma => "trailing comma"
  | trailingCharacters => "trailing characters"
  | keyNotAString => "key must be a string"
  | badEscape => "invalid escape"
  | badNumber => "invalid number"
  | numberOutOfRange => "number out of range"
  | unpairedLead => "unexpected end of hex escape"
  | unpairedTrail => "lone leading surrogate in hex escape"
  | controlCharacter => "control character (\\u0000-\\u001F) found while parsing a string"
  | tooDeep => "recursion limit exceeded"

end Stencil.Json
