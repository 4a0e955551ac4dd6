import Wireframe.Diagnostic

/-!
# Lexemes

A text is cut into lexemes, each with the place where it starts and the place behind it.
Some lexemes have no characters of their own: they tell where the indentation of a block
starts or ends a collection, and where a key starts that only its colon gives away.
-/

namespace Wireframe.Yaml

/-- A line of instructions before a document. -/
inductive Directive
  | version (major minor : Nat)
  | tag (handle stem : String)
  | other (name : String)
  deriving DecidableEq, Repr

inductive LexemeKind
  | streamEnd
  | directive (d : Directive)
  | documentStart
  | documentEnd
  | blockSequenceStart
  | blockMappingStart
  | blockEnd
  | flowSequenceStart
  | flowMappingStart
  | flowSequenceEnd
  | flowMappingEnd
  | key
  | value
  | blockEntry
  | flowEntry
  | reference (name : String)
  | anchor (name : String)
  | tag (handle : Option String) (suffix : String)
  | scalar (text : String) (plain : Bool)
  deriving DecidableEq, Repr

def LexemeKind.name : LexemeKind → String
  | streamEnd => "<stream end>"
  | directive _ => "<directive>"
  | documentStart => "<document start>"
  | documentEnd => "<document end>"
  | blockSequenceStart => "<block sequence start>"
  | blockMappingStart => "<block mapping start>"
  | blockEnd => "<block end>"
  | flowSequenceStart => "["
  | flowMappingStart => "\x7b"
  | flowSequenceEnd => "]"
  | flowMappingEnd => "\x7d"
  | key => "?"
  | value => ":"
  | blockEntry => "-"
  | flowEntry => ","
  | reference _ => "<alias>"
  | anchor _ => "<anchor>"
  | tag _ _ => "<tag>"
  | scalar _ _ => "<scalar>"

structure Lexeme where
  kind : LexemeKind
  start : Position
  stop : Position
  deriving DecidableEq, Repr

end Wireframe.Yaml
