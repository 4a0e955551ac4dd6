import Wireframe.Element.Kind

/-!
# Descriptions of records

The sentences that explain records to the authors of documents.
-/

namespace Wireframe.RecordType

/-- The explanation of a record, empty if its name says enough. -/
def explanation : RecordType → String
  | .option => "A selectable option of a select-like field."
  | .validation => "Validation rules attached to a field or a shared rule."
  | .confirmation => "Confirmation dialog shown before an action runs."
  | .layout => "Layout hints for a screen or a component."
  | .navigation => "Navigation performed after a successful submit."
  | .errorHandling => "Behavior after a failed submit."
  | .action .navigate => "Moves to another screen."
  | .action .reset => "Resets the listed fields, or every field when none is listed."
  | .tableColumn => "A single table column."
  | .rowAction => "An action offered on every table row."
  | .sorting => "Initial sort order of a table."
  | .paging => "Pagination of table rows."
  | .filterField => "A filter control bound to a column."
  | .filtering => "Filtering controls shown above a table."
  | .emptyState => "Message shown when a table has no rows."
  | .rowGrouping => "Row grouping."
  | .stickyHeader => "Sticky table header."
  | .columnResizing => "Column resizing."
  | .field .combobox => "Searchable select with optional asynchronous option loading."
  | .field .fileUpload =>
    "File upload control.\n\nAccepted file types may be authored as an `accept` list or " ++
      "as a\ncomma-joined `accepted_types` string, which takes precedence."
  | .field .repeater => "A group of fields the user can repeat any number of times."
  | .field .dataTable => "Tabular data display with selection, sorting, paging and filters."
  | .browserItem => "A node of a hierarchical browser column."
  | .field .heading =>
    "Section heading.\n\nThe heading text defaults to the field label when no explicit\n" ++
      "`text` is authored."
  | .field .loader => "Loading indicator. Accepts both snake_case and camelCase attributes."
  | .field .unrecognized =>
    "Fallback variant for field types unknown to this library.\n\nThe authored `type` " ++
      "tag and every authored attribute are preserved,\nso a rendering layer can show a " ++
      "placeholder for the field."
  | .header => "Application header bar shown above a screen."
  | .navi => "Application navigation bar shown above a screen."
  | .formSection => "A named group of fields of a multi-section screen."
  | .wizardStep => "A single step of a wizard."
  | .wizard => "Multi-step form configuration."
  | .screen =>
    "A single application screen.\n\nScreen content is exactly one of: sections (with " ++
      "`fields` holding\nevery section field flattened in order), a flat field list, or a\n" ++
      "wizard. Legacy shorthands are resolved before the definition is built."
  | .parameter => "A parameter accepted by a shared component."
  | .component => "A component shared by several screens."
  | .rule => "A named, reusable validation rule."
  | .document =>
    "The fully validated and normalized document.\n\nScreens, shared components and " ++
      "validation rules are keyed by name.\nA document is immutable and owned by the " ++
      "caller that parsed it."
  | _ => ""

def plain : List RecordType :=
  [.option, .validation, .confirmation, .layout, .navigation, .errorHandling, .tableColumn,
   .rowAction, .sorting, .paging, .filterField, .filtering, .emptyState, .rowGrouping,
   .stickyHeader, .columnResizing, .photo, .browserItem, .timelineItem, .tabItem, .sectionLink,
   .definition, .stepperStep, .tenant, .userInfo, .headerDropdownLink, .headerLink,
   .launcherItem, .header, .naviDropdownLink, .naviLink, .navi, .formSection, .stepStatus,
   .wizardStep, .wizard, .screen, .parameter, .component, .rule, .document]

end Wireframe.RecordType
