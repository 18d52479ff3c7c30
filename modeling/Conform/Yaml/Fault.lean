/-! Why a text is no YAML document. -/

namespace Conform.Yaml

inductive Fault where
  | forbiddenCharacter
  | unexpectedCharacter
  | unclosedScalar
  | unknownEscape
  /-- The line of a block scalar's indicator. -/
  | malformedHeader
  | tabInIndentation
  | malformedAnchor
  | malformedTag
  | malformedDirective
  /-- A line begins with a key, but no colon follows. -/
  | missingColon
  /-- An entry, a key or a value stands where none may begin. -/
  | misplacedIndicator
  | unexpectedToken
  | unknownHandle
  | unknownAnchor
  | severalDocuments
  | nestedTooDeep
  | tooManyReferences
  | duplicateKey
  /-- A scalar does not have the type of its tag. -/
  | mistypedScalar
  /-- An integer of more than 64 bits. -/
  | integerTooGreat
  /-- A tag of the application where no such tag is understood. -/
  | unsupportedTag
  /-- A collection where a scalar is needed. -/
  | notScalar
  deriving DecidableEq

end Conform.Yaml
