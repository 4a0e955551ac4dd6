import Wireframe.Element.Attributes
import Wireframe.Value.Same

/-!
# Elements

An element is a part of a finished document: a value, a list, a table with names
as keys, or a record with the attributes of its type.  Records of unrecognized
fields carry extra attributes as they were written.
-/

namespace Wireframe

inductive Element
  | value (v : Value)
  | list (items : List Element)
  | table (entries : List (String × Element))
  | record (type : RecordType) (attributes : List (String × Element))
      (extras : List (String × Value))
  deriving Repr

instance : Inhabited Element := ⟨.value .null⟩

namespace Element

@[match_pattern] abbrev null : Element := .value .null
@[match_pattern] abbrev text (s : String) : Element := .value (.text s)
@[match_pattern] abbrev flag (b : Bool) : Element := .value (.flag b)
@[match_pattern] abbrev integer (i : Int) : Element := .value (.integer i)

def isNull : Element → Bool
  | null => true
  | _ => false

def attribute? (name : String) : Element → Option Element
  | record _ attributes _ => (attributes.find? fun a => a.1 == name).map Prod.snd
  | _ => none

/-- The items of a list; nothing else has items. -/
def items : Element → List Element
  | list xs => xs
  | _ => []

/-- The entries of a table; nothing else has entries. -/
def entries : Element → List (String × Element)
  | table es => es
  | _ => []

def text? : Element → Option String
  | text s => some s
  | _ => none

def type? : Element → Option RecordType
  | record t _ _ => some t
  | _ => none

mutual

/-- The plain tree of an element.  Attributes that are null may be left out. -/
def toValue (nulls : Bool) : Element → Value
  | value v => v
  | list xs => .list (toValues nulls xs)
  | table es => .map (toEntries nulls es)
  | record _ attributes extras =>
    .map (toAttributes nulls attributes ++
      Entries.named (extras.filter fun e => nulls || e.2.isPresent))

def toValues (nulls : Bool) : List Element → List Value
  | [] => []
  | x :: xs => toValue nulls x :: toValues nulls xs

def toEntries (nulls : Bool) : List (String × Element) → List (Key × Value)
  | [] => []
  | (name, x) :: es => (.text name, toValue nulls x) :: toEntries nulls es

def toAttributes (nulls : Bool) : List (String × Element) → List (Key × Value)
  | [] => []
  | (name, x) :: es =>
    if nulls || !x.isNull then (.text name, toValue nulls x) :: toAttributes nulls es
    else toAttributes nulls es

end

mutual

/-- Whether two elements are the same, where `shared` tells if undefined numbers may be. -/
def same (shared : Bool) : Element → Element → Bool
  | value v, value w => v.same shared w
  | list xs, list ys => sameItems shared xs ys
  | table es, table fs => es.length == fs.length && sameEntries shared es fs
  | record t as xs, record u bs ys =>
    t == u && as.length == bs.length && sameEntries shared as bs &&
      (Value.map (Entries.named xs)).same shared (.map (Entries.named ys))
  | _, _ => false

def sameItems (shared : Bool) : List Element → List Element → Bool
  | [], [] => true
  | x :: xs, y :: ys => same shared x y && sameItems shared xs ys
  | _, _ => false

/-- Whether each entry has its like in the other table. -/
def sameEntries (shared : Bool) : List (String × Element) → List (String × Element) → Bool
  | [], _ => true
  | (name, x) :: es, fs =>
    (match fs.find? fun f => f.1 == name with
      | some f => same shared x f.2
      | none => false) && sameEntries shared es fs

end

/-- What a simple default stands for. -/
def ofSimpleDefault : Default → Element
  | .text s => .text s
  | .integer i => .integer i
  | .noItems => .list []
  | _ => .null

def blank (type : RecordType) : Element :=
  .record type (type.attributes.map fun a => (a.name, ofSimpleDefault a.default)) []

/-- What an attribute that is not written has, unless it has to be written. -/
def ofDefault? : Default → Option Element
  | .required => none
  | .blank type => some (blank type)
  | d => some (ofSimpleDefault d)

end Element

end Wireframe
