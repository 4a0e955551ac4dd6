import Wireframe.Settings
import Wireframe.Slug
import Wireframe.Value.Text

/-!
# Tables from shorthands

A screen that only lists the names of columns gets a table with one column for
each.  Its filters come from a list of names too, where a name that matches a
search keyword turns on the search box instead.  The names are written first.
-/

namespace Wireframe.Canonical

def object (entries : List (String × Value)) : Value := .map (Entries.named entries)

/-- A name with the place of its item. -/
def numbered (stem : String) (place : Nat) : String := stem ++ "_" ++ toString place

/-- The text of a name, empty if there is none. -/
def nameText (name : Value) : Except NoText String :=
  if name.isPresent then name.write else .ok ""

def column (label : String) (place : Nat) : Value :=
  object [("id", .text (numbered "col" place)), ("label", .text label), ("sortable", .flag true)]

def filterField (name : String) (place : Nat) : Value :=
  object [("id", .text (numbered "filter" place)), ("label", .text name),
    ("column", .text (numbered "col" place)), ("type", .text "select"), ("options", .list [])]

/-- The filters of a table: names that stand for free-text search are left out. -/
def filters (settings : Settings) (names : List String) : Value :=
  let kept := names.filter fun n => !settings.isSearch n
  object [("enabled", .flag true), ("show_search", .flag (kept.length < names.length)),
    ("fields", .list (kept.zipIdx.map fun n => filterField n.1 n.2))]

def paging (settings : Settings) : Value :=
  object [("enabled", .flag true), ("page_size", .integer settings.pageSize),
    ("page_size_options", .list (settings.pageSizeOptions.map Value.integer))]

def emptyState : Value :=
  object [("title", .text "No data"), ("description", .text "There is no data to display"),
    ("icon", .text "📭")]

/-- The table with such columns and filters under such a name. -/
def tableOf (settings : Settings) (labels filterLabels : List String) (name : String) : Value :=
  let slug := Slug.ofName name
  let filtering :=
    if filterLabels.isEmpty then [] else [("filters", filters settings filterLabels)]
  object ([("id", .text (if slug.isEmpty then "data_table" else slug ++ "_table")),
    ("type", .text "data_table"), ("label", .text (if name.isEmpty then "List" else name)),
    ("columns", .list (labels.zipIdx.map fun c => column c.1 c.2)), ("data", .list []),
    ("selection", .text "single"), ("pagination", paging settings), ("empty_state", emptyState),
    ("hoverable", .flag true), ("striped", .flag true)] ++ filtering)

def table (settings : Settings) (columns : List Value) (filterNames screenName : Value) :
    Except NoText Value := do
  let name ← nameText screenName
  let labels ← columns.mapM Value.write
  let filterLabels ← (filterNames.items?.getD []).mapM Value.write
  .ok (tableOf settings labels filterLabels name)

end Wireframe.Canonical
