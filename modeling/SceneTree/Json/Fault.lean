/-! What can be wrong with a JSON text. -/
namespace SceneTree.Json

inductive Fault where
  | endInValue | endInList | endInObject | endInString
  | noValue | noWord | noColon | noListSeparator | noObjectSeparator
  | keyNotString | trailingComma | trailingText
  | malformedNumber | numberOutOfRange
  | controlCharacter | malformedEscape | unpairedSurrogate | unfinishedSurrogate | malformedUtf8
  | tooDeep
deriving DecidableEq

def Fault.message : Fault → String
  | .endInValue => "EOF while parsing a value"
  | .endInList => "EOF while parsing a list"
  | .endInObject => "EOF while parsing an object"
  | .endInString => "EOF while parsing a string"
  | .noValue => "expected value"
  | .noWord => "expected ident"
  | .noColon => "expected `:`"
  | .noListSeparator => "expected `,` or `]`"
  | .noObjectSeparator => "expected `,` or `\x7d`"
  | .keyNotString => "key must be a string"
  | .trailingComma => "trailing comma"
  | .trailingText => "trailing characters"
  | .malformedNumber => "invalid number"
  | .numberOutOfRange => "number out of range"
  | .controlCharacter => "control character (\\u0000-\\u001F) found while parsing a string"
  | .malformedEscape => "invalid escape"
  | .unpairedSurrogate => "lone leading surrogate in hex escape"
  | .unfinishedSurrogate => "unexpected end of hex escape"
  | .malformedUtf8 => "invalid unicode code point"
  | .tooDeep => "recursion limit exceeded"

end SceneTree.Json
