import Wireframe.Element.Given
import Wireframe.Element.FieldType
import Wireframe.Json.Reader
import Wireframe.Text.Lowercase

/-!
# Settings

The settings bound the size and the depth of documents, name the keywords of
free-text search and describe the tables that are made from shorthands.  They are
resolved from arguments, which win, and environment variables.
-/

namespace Wireframe

open Wireframe.Text Given

structure Settings where
  maxDepth : Int
  maxNodes : Int
  searchKeywords : List String
  placeholderTypes : List String
  pageSize : Int
  pageSizeOptions : List Int
  deriving DecidableEq, Repr

/-- Why settings cannot be resolved. -/
inductive SettingsError
  | unreadVariable (name : String)
  | invalid (faults : List Fault)
  deriving DecidableEq, Repr

namespace SettingsError

def message : SettingsError → String
  | unreadVariable name =>
    s!"error parsing value for field \"{name}\" from source \"EnvSettingsSource\""
  | invalid _ => ""

end SettingsError

namespace Settings

def default : Settings where
  maxDepth := 32
  maxNodes := 100000
  searchKeywords := ["キーワード", "検索", "search", "keyword"]
  placeholderTypes := []
  pageSize := 10
  pageSizeOptions := [10, 25, 50, 100]

instance : Inhabited Settings := ⟨default⟩

/-- The names of the settings, in the order in which they are checked, and whether the
value of the environment variable is JSON. -/
def names : List (String × Bool) :=
  [("max_depth", false), ("max_nodes", false), ("search_keywords", true),
   ("placeholder_field_types", true), ("page_size", false), ("page_size_options", true)]

/-- What the name of every environment variable starts with, in lower case. -/
def variableStem : String := "screendoc_"

/-- The value that an environment variable gives to a setting.  The names of variables are
matched in either case, and JSON null stands for no value. -/
def ofVariable (environment : List (String × String)) (name : String) (isJson : Bool) :
    Except SettingsError (Option Value) :=
  let found := environment.reverse.find? fun v => lower v.1 == variableStem ++ name
  match found with
  | none => .ok none
  | some (_, text) =>
    if isJson then
      match Json.parse? text with
      | none => .error (.unreadVariable name)
      | some .null => .ok none
      | some j => .ok (some j.toValue)
    else .ok (some (.text text))

/-- The values of the settings that are given, by name. -/
def gather (environment : List (String × String)) (arguments : Entries) :
    List (String × Bool) → Except SettingsError (List (String × Value))
  | [] => .ok []
  | (name, isJson) :: rest => do
    let supplied ← ofVariable environment name isJson
    let others ← gather environment arguments rest
    match Entries.get? name arguments <|> supplied with
    | some v => .ok ((name, v) :: others)
    | none => .ok others

/-- The given values as settings, or all faults in the order of the settings. -/
def ofValues (given : List (String × Value)) : Except (List Fault) Settings :=
  let size := readScalar (Coercion.toIntegerFrom (some 1))
  let text := readScalar (Coercion.toText false)
  let maxDepth := readNamed given "max_depth" default.maxDepth size
  let maxNodes := readNamed given "max_nodes" default.maxNodes size
  let keywords := readNamed given "search_keywords" default.searchKeywords
    (readMany .notTuple text)
  let placeholders := readNamed given "placeholder_field_types" default.placeholderTypes
    (readMany .notSet text)
  let pageSize := readNamed given "page_size" default.pageSize size
  let options := readNamed given "page_size_options" default.pageSizeOptions
    (readMany .notTuple (readScalar Coercion.toInteger))
  match maxDepth, maxNodes, keywords, placeholders, pageSize, options with
  | .ok maxDepth, .ok maxNodes, .ok keywords, .ok placeholders, .ok pageSize, .ok options =>
    .ok ⟨maxDepth, maxNodes, keywords, placeholders.eraseDups, pageSize, options⟩
  | maxDepth, maxNodes, keywords, placeholders, pageSize, options =>
    .error (faultsOf maxDepth ++ faultsOf maxNodes ++ faultsOf keywords ++
      faultsOf placeholders ++ faultsOf pageSize ++ faultsOf options)

/-- Resolves the settings.  All variables are read before any value is checked. -/
def resolve (environment : List (String × String)) (arguments : Entries) :
    Except SettingsError Settings := do
  let given ← gather environment arguments names
  (ofValues given).mapError SettingsError.invalid

/-- Whether fields of a type need neither an identifier nor a label. -/
def isPlaceholder (s : Settings) (type : Value) : Bool :=
  match type with
  | .text t => s.placeholderTypes.contains t
  | _ => false

def isDisplayOnly (s : Settings) (type : Value) : Bool :=
  match type with
  | .text t => (FieldType.ofTag t).isDisplayOnly || s.isPlaceholder type
  | _ => false

def isWordChar (c : Char) : Bool := ('a' ≤ c && c ≤ 'z') || ('0' ≤ c && c ≤ '9')

def isGap : Option Char → Bool
  | none => true
  | some c => !isWordChar c

/-- Whether a text has a word at some place, where the word has no word character next to it. -/
def hasWord (word : List Char) (before : Option Char) (s : List Char) : Bool :=
  (isGap before && word.isPrefixOf s && isGap (s.drop word.length).head?) ||
    match s with
    | [] => false
    | c :: rest => hasWord word (some c) rest

/-- Whether a text has another one at some place. -/
def hasPart (part : List Char) (s : List Char) : Bool :=
  part.isPrefixOf s ||
    match s with
    | [] => false
    | _ :: rest => hasPart part rest

/-- Whether a keyword matches a name; both are in lower case.  A keyword in ASCII matches
whole words only. -/
def matchesKeyword (name keyword : List Char) : Bool :=
  if keyword.all fun c => c.toNat < 0x80 then hasWord keyword none name else hasPart keyword name

def isSearch (s : Settings) (name : String) : Bool :=
  s.searchKeywords.any fun k => matchesKeyword (lower name).toList (lower k).toList

end Settings

end Wireframe
