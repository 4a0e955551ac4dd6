import Wireframe.Element.FieldType

/-!
# What an attribute accepts

Every record of a document has a fixed list of attributes.  An attribute has the
spellings under which it may be written, a shape and a default.  A shape is a list
of alternatives, tried in order, and may admit null.
-/

namespace Wireframe

inductive RecordType
  | option
  | validation
  | confirmation
  | layout
  | navigation
  | errorHandling
  | tableColumn
  | rowAction
  | sorting
  | paging
  | filterField
  | filtering
  | emptyState
  | rowGrouping
  | stickyHeader
  | columnResizing
  | photo
  | browserItem
  | timelineItem
  | tabItem
  | sectionLink
  | definition
  | stepperStep
  | tenant
  | userInfo
  | headerDropdownLink
  | headerLink
  | launcherItem
  | header
  | naviDropdownLink
  | naviLink
  | navi
  | formSection
  | stepStatus
  | wizardStep
  | wizard
  | screen
  | parameter
  | component
  | rule
  | document
  | action (t : ActionType)
  | field (t : FieldType)
  deriving DecidableEq, Repr

namespace RecordType

def className : RecordType → String
  | option => "SelectOption"
  | validation => "FieldValidation"
  | confirmation => "ConfirmConfig"
  | layout => "LayoutConfig"
  | navigation => "NavigationConfig"
  | errorHandling => "ErrorHandlerConfig"
  | tableColumn => "DataTableColumn"
  | rowAction => "DataTableRowAction"
  | sorting => "DataTableSortConfig"
  | paging => "DataTablePaginationConfig"
  | filterField => "DataTableFilterField"
  | filtering => "DataTableFilterConfig"
  | emptyState => "DataTableEmptyState"
  | rowGrouping => "DataTableGroupConfig"
  | stickyHeader => "DataTableFixedHeaderConfig"
  | columnResizing => "DataTableResizeConfig"
  | photo => "PhotoConfig"
  | browserItem => "BrowserItem"
  | timelineItem => "TimelineItem"
  | tabItem => "TabItem"
  | sectionLink => "SectionNavItem"
  | definition => "DefinitionItem"
  | stepperStep => "StepperStep"
  | tenant => "Tenant"
  | userInfo => "UserInfo"
  | headerDropdownLink => "HeaderNavDropdownItem"
  | headerLink => "HeaderNavItem"
  | launcherItem => "AppLauncherItem"
  | header => "AppHeaderConfig"
  | naviDropdownLink => "AppNaviDropdownItem"
  | naviLink => "AppNaviItem"
  | navi => "AppNaviConfig"
  | formSection => "FormSection"
  | stepStatus => "StepStatus"
  | wizardStep => "WizardStep"
  | wizard => "WizardConfig"
  | screen => "ScreenDefinition"
  | parameter => "ComponentParam"
  | component => "CommonComponent"
  | rule => "ValidationRule"
  | document => "Document"
  | action t => t.className
  | field t => t.className

end RecordType

/-- One alternative of a shape. -/
inductive Kind
  | anything
  | text
  | flag
  | integer (least : Option Int)
  | number
  | word (choices : List String)
  | oneOf (choices : List Int)
  | listOf (item : Kind)
  | tableOf (value : Kind)
  | row
  | optionList
  | commaList
  | record (type : RecordType)
  | action
  | field
  deriving DecidableEq, Repr

namespace Kind

@[match_pattern] abbrev whole : Kind := .integer none

end Kind

/-- Shapes that several attributes share and that have a name of their own. -/
inductive NamedShape
  | align
  | condition
  | direction
  | options
  | size
  | variant
  deriving DecidableEq, Repr

namespace NamedShape

def name : NamedShape → String
  | align => "Align"
  | condition => "Condition"
  | direction => "Direction"
  | options => "Options"
  | size => "Size"
  | variant => "Variant"

def kinds : NamedShape → List Kind
  | align => [.word ["left", "center", "right"]]
  | condition => [.tableOf .anything]
  | direction => [.word ["horizontal", "vertical"]]
  | options => [.optionList, .text]
  | size => [.word ["small", "medium", "large"]]
  | variant => [.word ["info", "success", "warning", "error"]]

end NamedShape

/-- The values that an attribute accepts: null if the shape admits it, and what one of
the alternatives accepts. -/
structure Shape where
  nullable : Bool
  kinds : List Kind
  named : Option NamedShape
  deriving DecidableEq, Repr

namespace Shape

def one (k : Kind) : Shape := ⟨false, [k], none⟩

def any (ks : List Kind) : Shape := ⟨false, ks, none⟩

def ofNamed (n : NamedShape) : Shape := ⟨false, n.kinds, some n⟩

def orNull (s : Shape) : Shape := { s with nullable := true }

end Shape

/-- What an attribute that is not written has. -/
inductive Default
  | required
  | null
  | text (s : String)
  | integer (i : Int)
  | noItems
  | blank (type : RecordType)
  deriving DecidableEq, Repr

structure Attribute where
  name : String
  spellings : List String
  shape : Shape
  default : Default
  title : Option String
  description : Option String
  deriving DecidableEq, Repr

namespace Attribute

/-- An attribute with its name as the only spelling and no texts of its own. -/
def of (name : String) (shape : Shape) (default : Default) : Attribute :=
  ⟨name, [name], shape, default, none, none⟩

def need (name : String) (k : Kind) : Attribute := of name (.one k) .required

def needAny (name : String) (ks : List Kind) : Attribute := of name (.any ks) .required

def may (name : String) (k : Kind) : Attribute := of name (Shape.one k).orNull .null

def mayAny (name : String) (ks : List Kind) : Attribute := of name (Shape.any ks).orNull .null

def mayNamed (name : String) (n : NamedShape) : Attribute :=
  of name (Shape.ofNamed n).orNull .null

/-- An attribute that keeps whatever is written. -/
def free (name : String) : Attribute := of name (.one .anything) .null

def orText (name : String) (k : Kind) (s : String) : Attribute := of name (.one k) (.text s)

def orInteger (name : String) (k : Kind) (i : Int) : Attribute := of name (.one k) (.integer i)

def orNoItems (name : String) (s : Shape) : Attribute := of name s .noItems

def orBlank (name : String) (type : RecordType) : Attribute :=
  of name (.one (.record type)) (.blank type)

/-- The spellings of the attribute, the one that wins first. -/
def spelled (a : Attribute) (spellings : List String) : Attribute :=
  { a with spellings := spellings }

def titled (a : Attribute) (title description : String) : Attribute :=
  { a with title := some title, description := some description }

end Attribute

end Wireframe
