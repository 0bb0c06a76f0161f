namespace Likeness.Yaml

-- A place in a text: lines and columns count from zero, `index` counts characters.
structure Mark where
  line : Nat
  column : Nat
  index : Nat
deriving DecidableEq

namespace Mark

def start : Mark := ⟨0, 0, 0⟩

def isStart (m : Mark) : Bool := m.line == 0 && m.column == 0

-- A place as messages name it. The start of the text is not named.
def text (m : Mark) : String :=
  if m.isStart then "" else s!" at line {m.line + 1} column {m.column + 1}"

end Mark

-- What was being read when a text turned out to be malformed.
inductive Activity where
  | nextToken
  | simpleKey
  | directive
  | versionDirective
  | tagDirective
  | tagDirectiveHandle
  | tagDirectiveStart
  | anchor
  | alias
  | tag
  | tagPart
  | blockScalar
  | plainScalar
  | quotedScalar
  | escape
  | node
  | blockNode
  | flowNode
  | blockCollection
  | blockMapping
  | flowSequence
  | flowMapping

def Activity.text : Activity → String
  | .nextToken => "while scanning for the next token"
  | .simpleKey => "while scanning a simple key"
  | .directive => "while scanning a directive"
  | .versionDirective => "while scanning a %YAML directive"
  | .tagDirective => "while scanning a %TAG directive"
  | .tagDirectiveHandle => "while parsing a tag directive"
  | .tagDirectiveStart => "while scanning a tag directive"
  | .anchor => "while scanning an anchor"
  | .alias => "while scanning an alias"
  | .tag => "while scanning a tag"
  | .tagPart => "while parsing a tag"
  | .blockScalar => "while scanning a block scalar"
  | .plainScalar => "while scanning a plain scalar"
  | .quotedScalar => "while scanning a quoted scalar"
  | .escape => "while parsing a quoted scalar"
  | .node => "while parsing a node"
  | .blockNode => "while parsing a block node"
  | .flowNode => "while parsing a flow node"
  | .blockCollection => "while parsing a block collection"
  | .blockMapping => "while parsing a block mapping"
  | .flowSequence => "while parsing a flow sequence"
  | .flowMapping => "while parsing a flow mapping"

-- What is wrong with a text.
inductive Cause where
  -- at a number of bytes from the start
  | controlCharacter (bytes : Nat)
  | noTokenStart
  | keyWithoutColon
  | entryNotAllowed
  | keyNotAllowed
  | valueNotAllowed
  | unknownDirective
  | noDirectiveName
  | badDirectiveName
  | noLineEnd
  | noVersionPoint
  | longVersion
  | noVersion
  | noBlank
  | noBlankOrBreak
  | noWord
  | noExclamation
  | noTagEnd
  | noTagText
  | noOctet
  | badLeadingOctet
  | badTrailingOctet
  | zeroIndent
  | tabInIndent
  | tabBeforeIndent
  | documentInScalar
  | endInScalar
  | unknownEscape
  | noHexDigit
  | badCharacter
  | unexpectedColon
  | noDocumentStart
  | secondVersion
  | otherVersion
  | secondHandle
  | unknownHandle
  | noContent
  | noDash
  | noKey
  | noSequenceEnd
  | noMappingEnd

def Cause.text : Cause → String
  | .controlCharacter 0 => "control characters are not allowed"
  | .controlCharacter bytes => s!"control characters are not allowed at position {bytes}"
  | .noTokenStart => "found character that cannot start any token"
  | .keyWithoutColon => "could not find expected ':'"
  | .entryNotAllowed => "block sequence entries are not allowed in this context"
  | .keyNotAllowed => "mapping keys are not allowed in this context"
  | .valueNotAllowed => "mapping values are not allowed in this context"
  | .unknownDirective => "found unknown directive name"
  | .noDirectiveName => "could not find expected directive name"
  | .badDirectiveName => "found unexpected non-alphabetical character"
  | .noLineEnd => "did not find expected comment or line break"
  | .noVersionPoint => "did not find expected digit or '.' character"
  | .longVersion => "found extremely long version number"
  | .noVersion => "did not find expected version number"
  | .noBlank => "did not find expected whitespace"
  | .noBlankOrBreak => "did not find expected whitespace or line break"
  | .noWord => "did not find expected alphabetic or numeric character"
  | .noExclamation => "did not find expected '!'"
  | .noTagEnd => "did not find the expected '>'"
  | .noTagText => "did not find expected tag URI"
  | .noOctet => "did not find URI escaped octet"
  | .badLeadingOctet => "found an incorrect leading UTF-8 octet"
  | .badTrailingOctet => "found an incorrect trailing UTF-8 octet"
  | .zeroIndent => "found an indentation indicator equal to 0"
  | .tabInIndent => "found a tab character where an indentation space is expected"
  | .tabBeforeIndent => "found a tab character that violates indentation"
  | .documentInScalar => "found unexpected document indicator"
  | .endInScalar => "found unexpected end of stream"
  | .unknownEscape => "found unknown escape character"
  | .noHexDigit => "did not find expected hexdecimal number"
  | .badCharacter => "found invalid Unicode character escape code"
  | .unexpectedColon => "found unexpected ':'"
  | .noDocumentStart => "did not find expected <document start>"
  | .secondVersion => "found duplicate %YAML directive"
  | .otherVersion => "found incompatible YAML document"
  | .secondHandle => "found duplicate %TAG directive"
  | .unknownHandle => "found undefined tag handle"
  | .noContent => "did not find expected node content"
  | .noDash => "did not find expected '-' indicator"
  | .noKey => "did not find expected key"
  | .noSequenceEnd => "did not find expected ',' or ']'"
  | .noMappingEnd => "did not find expected ',' or '\x7d'"

-- Where a text is malformed, and what was being read, with its own start.
structure Fault where
  cause : Cause
  mark : Mark
  activity : Option (Activity × Mark)

def Fault.message (f : Fault) : String :=
  f.cause.text ++ f.mark.text ++
    match f.activity with
    | none => ""
    | some (activity, start) =>
      let same := start.line == f.mark.line && start.column == f.mark.column
      ", " ++ activity.text ++ if same then "" else start.text

end Likeness.Yaml
