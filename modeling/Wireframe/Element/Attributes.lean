import Wireframe.Element.Kind

/-!
# The attributes of every record

The attributes are listed in the order in which they are read.  A field has the
attributes that all fields share, then those of its family, then its type and the
attributes of its type.
-/

namespace Wireframe

open Attribute

/-- The description that screens, steps, components and fields may have. -/
def description : Attribute :=
  (may "description" .text).titled "Description"
    "Detailed human-readable description of the element."

namespace FieldType

/-- A few types take text only as the initial value. -/
def initialValue : FieldType → Attribute
  | browser | calendar | segmentedControl => may "default" .text
  | _ => free "default"

def sharedAttributes (t : FieldType) : List Attribute :=
  [description,
   (orText "id" .text "unknown").titled "Field identifier"
     "Identifier of the field, unique within its screen.",
   (orText "label" .text "Unknown").titled "Field label"
     "Human-readable label shown next to the field.",
   may "required" .flag,
   may "disabled" .flag,
   may "readonly" .flag,
   may "placeholder" .text,
   t.initialValue,
   mayAny "validation" [.record .validation, .text],
   mayNamed "visible_when" .condition,
   (may "class_name" .text).spelled ["class_name", "class"]]

/-- The attributes of a family of types: choices have options and switches have labels. -/
def familyAttributes : FieldType → List Attribute
  | select | multiSelect | radioGroup | checkboxGroup =>
    [(orNoItems "options" (.ofNamed .options)).titled "Options"
      ("Selectable options, or a string referencing an option list supplied by the " ++
        "rendering layer. Scalar items are expanded into options whose value and label " ++
        "are equal.")]
  | combobox | segmentedControl | dropdown => [mayNamed "options" .options]
  | checkbox | toggle =>
    [may "checked_label" .text,
     may "unchecked_label" .text,
     mayNamed "size" .size,
     may "name" .text,
     may "label_position" (.word ["left", "right"])]
  | _ => []

/-- The attributes that only fields of the type have. -/
def ownAttributes : FieldType → List Attribute
  | .text =>
    [may "min_length" .whole,
     may "max_length" .whole,
     may "pattern" .text,
     may "input_type" (.word ["text", "email", "url", "tel", "password"])]
  | .number =>
    [mayAny "min" [.whole, .number],
     mayAny "max" [.whole, .number],
     mayAny "step" [.whole, .number],
     may "unit" .text]
  | .textarea =>
    [may "rows" .whole,
     may "min_length" .whole,
     may "max_length" .whole,
     may "resizable" .flag]
  | .select =>
    [may "searchable" .flag,
     may "clearable" .flag,
     may "size" (.word ["s", "default"]),
     may "name" .text]
  | .multiSelect =>
    [may "min_selections" .whole,
     may "max_selections" .whole,
     may "searchable" .flag]
  | .combobox =>
    [may "mode" (.word ["single", "multi"]),
     may "async_loader" .text,
     may "min_search_length" .whole,
     may "debounce_ms" .whole,
     may "clearable" .flag,
     may "max_selections" .whole,
     may "no_options_message" .text,
     may "loading_message" .text]
  | .radioGroup =>
    [mayNamed "direction" .direction]
  | .checkboxGroup =>
    [may "min_selections" .whole,
     may "max_selections" .whole,
     mayNamed "direction" .direction]
  | .datePicker =>
    [may "format" .text,
     may "min_date" .text,
     may "max_date" .text,
     may "include_time" .flag]
  | .timePicker =>
    [may "format" .text,
     may "minute_step" .whole]
  | .durationPicker =>
    [may "units" (.listOf (.word ["hours", "minutes", "seconds", "days"])),
     mayAny "min_duration" [.whole, .number],
     mayAny "max_duration" [.whole, .number]]
  | .durationInput =>
    [(may "display_unit" (.word ["hours", "minutes", "seconds"])).spelled
      ["display_unit", "unit"],
     may "format" .text]
  | .fileUpload =>
    [(may "accept" .commaList).spelled ["accepted_types", "accept"],
     may "max_size" .whole,
     may "multiple" .flag,
     may "max_files" .whole,
     may "drag_drop" .flag]
  | .repeater =>
    [(orNoItems "item_fields" (.one (.listOf .field))).titled "Item fields"
      "Fields rendered for every repeated item, in order.",
     may "min_items" .whole,
     may "max_items" .whole,
     may "add_button_label" .text,
     may "show_remove_button" .flag,
     may "sortable" .flag]
  | .dataTable =>
    [orNoItems "columns" (.one (.listOf (.record .tableColumn))),
     may "data" (.listOf .row),
     may "selection" (.word ["none", "single", "multiple"]),
     may "row_actions" (.listOf (.record .rowAction)),
     may "default_sort" (.record .sorting),
     may "pagination" (.record .paging),
     may "filters" (.record .filtering),
     may "empty_state" (.record .emptyState),
     may "height" .text,
     may "striped" .flag,
     may "hoverable" .flag,
     may "bordered" .flag,
     may "compact" .flag,
     may "responsive" .flag,
     mayAny "fixed_header" [.record .stickyHeader, .flag],
     may "grouping" (.record .rowGrouping),
     mayAny "column_resize" [.record .columnResizing, .flag],
     may "layout" (.word ["auto", "fixed"])]
  | .googleMapEmbed =>
    [may "height" .text,
     may "width" .text,
     may "show_open_link" .flag,
     may "zoom" .whole]
  | .photoManager =>
    [may "photos" (.listOf (.record .photo)),
     may "max_photos" .whole,
     may "max_file_size" .whole,
     may "accepted_formats" (.listOf .text),
     may "columns" .whole]
  | .imageUploader =>
    [may "accepted_formats" (.listOf .text),
     may "max_file_size" .whole,
     may "max_files" .whole,
     may "min_files" .whole]
  | .badge =>
    [may "color" (.word ["gray", "blue", "green", "yellow", "red"]),
     may "size" (.word ["small", "medium"]),
     may "dot" .flag,
     may "count" .whole,
     may "max_count" .whole,
     may "text" .text]
  | .browser =>
    [orNoItems "items" (.one (.listOf (.record .browserItem))),
     (may "max_columns" .whole).spelled ["max_columns", "maxColumns"],
     may "height" .text]
  | .calendar =>
    [(may "from_date" .text).spelled ["from_date", "from"],
     (may "to_date" .text).spelled ["to_date", "to"],
     (may "week_starts_on" (.oneOf [0, 1])).spelled ["week_starts_on", "weekStartsOn"],
     may "locale" .text]
  | .heading =>
    [orInteger "level" (.oneOf [1, 2, 3, 4, 5, 6]) 2,
     orText "text" .text "",
     may "size" (.word ["xs", "sm", "md", "lg", "xl", "2xl"]),
     mayNamed "align" .align,
     may "color" (.word ["default", "primary", "secondary", "muted", "danger", "success",
         "warning"]),
     may "icon" .text]
  | .tooltip =>
    [orText "content" .text "",
     may "position" (.word ["top", "bottom", "left", "right"]),
     may "delay" .whole,
     may "show_arrow" .flag,
     may "is_html" .flag,
     may "max_width" .text]
  | .pagination =>
    [orInteger "total_items" .whole 0,
     may "current_page" .whole,
     may "page_size" .whole,
     may "page_size_options" (.listOf .whole),
     may "show_page_size_selector" .flag,
     may "show_item_count" .flag,
     may "show_jump_buttons" .flag,
     may "max_page_buttons" .whole,
     may "compact" .flag,
     mayNamed "align" .align]
  | .floatArea =>
    [may "position" (.word ["top", "bottom"]),
     may "show_shadow" .flag,
     may "show_border" .flag,
     may "z_index" .whole,
     may "responsive" .flag,
     may "sticky" .flag,
     (may "align" (.word ["left", "center", "right", "space-between"])).spelled
       ["float_align", "align"],
     may "padding" .text,
     may "gap" .text,
     may "aria_label" .text]
  | .loader =>
    [(mayNamed "size" .size).spelled ["loader_size", "size"],
     (may "loader_type" (.word ["primary", "light"])).spelled ["loader_type", "loaderType"],
     may "overlay" .flag,
     (may "show_progress" .flag).spelled ["show_progress", "showProgress"],
     (mayAny "initial_progress" [.whole, .number]).spelled
       ["initial_progress", "initialProgress"]]
  | .notificationBar =>
    [mayNamed "variant" .variant,
     may "dismissible" .flag]
  | .responseMessage =>
    [mayNamed "variant" .variant]
  | .timeline =>
    [may "items" (.listOf (.record .timelineItem))]
  | .chip =>
    [may "variant" (.word ["default", "primary", "success", "warning", "danger"]),
     may "removable" .flag]
  | .statusLabel =>
    [may "variant" (.word ["default", "primary", "success", "warning", "danger", "info"])]
  | .tabs =>
    [may "tabs" (.listOf (.record .tabItem))]
  | .lineClamp =>
    [may "lines" .whole,
     may "text" .text]
  | .disclosure =>
    [(may "default_open" .flag).spelled ["default_open", "defaultOpen"]]
  | .accordionPanel =>
    [(may "default_open" .flag).spelled ["default_open", "defaultOpen"]]
  | .sectionNav =>
    [may "items" (.listOf (.record .sectionLink))]
  | .definitionList =>
    [may "items" (.listOf (.record .definition))]
  | .stepper =>
    [may "steps" (.listOf (.record .stepperStep)),
     (may "current_step" .whole).spelled ["current_step", "currentStep"]]
  | .informationPanel =>
    [mayNamed "variant" .variant]
  | .deleteConfirmDialog =>
    [may "message" .text]
  | _ => []

/-- The tag of a known type is fixed; a field of another type keeps the tag it has. -/
def typeAttribute : FieldType → Attribute
  | unrecognized => orText "type" .text unrecognized.tag
  | t => orText "type" (.word [t.tag]) t.tag

def attributes (t : FieldType) : List Attribute :=
  t.sharedAttributes ++ t.familyAttributes ++ t.typeAttribute :: t.ownAttributes

end FieldType

namespace ActionType

def sharedAttributes : List Attribute :=
  [(need "id" .text).titled "Action identifier"
     "Identifier of the action, unique within its screen.",
   (need "label" .text).titled "Action label"
     "Text shown on the action button.",
   may "icon" .text,
   may "style" (.word ["primary", "secondary", "danger", "link"]),
   mayNamed "disabled_when" .condition,
   may "confirm" (.record .confirmation)]

/-- The attributes that only actions of the type have. -/
def ownAttributes : ActionType → List Attribute
  | .submit =>
    [may "url" .text,
     may "method" (.word ["GET", "POST", "PUT", "DELETE", "PATCH"]),
     may "on_success" (.record .navigation),
     may "on_error" (.record .errorHandling)]
  | .navigate =>
    [(need "to" .text).titled "Destination"
      "Name of the destination screen or a URL.",
     may "params" (.tableOf .text)]
  | .custom =>
    [may "handler" .text,
     may "params" (.tableOf .anything)]
  | .reset =>
    [may "fields" (.listOf .text)]

def attributes (t : ActionType) : List Attribute :=
  sharedAttributes ++ orText "type" (.word [t.tag]) t.tag :: t.ownAttributes

end ActionType

def stepStates : Kind := .word ["pending", "completed", "error", "warning", "closed"]

namespace RecordType

/-- The attributes of a record in the order in which they are read. -/
def attributes : RecordType → List Attribute
  | .option =>
    [needAny "value" [.text, .whole, .number, .flag],
     need "label" .text,
     may "disabled" .flag,
     may "group" .text,
     may "icon" .text,
     may "description" .text]
  | .validation =>
    [mayAny "required" [.flag, .text],
     mayAny "min" [.whole, .number, .text],
     mayAny "max" [.whole, .number, .text],
     mayAny "pattern" [.text, .tableOf .text],
     may "custom" .text,
     may "message" .text]
  | .confirmation =>
    [need "title" .text,
     need "message" .text,
     may "confirm_label" .text,
     may "cancel_label" .text]
  | .layout =>
    [may "columns" .whole,
     may "type" (.word ["form", "grid", "stack", "tabs"]),
     may "gap" .text]
  | .navigation =>
    [need "to" .text,
     may "params" (.tableOf .text),
     may "message" .text]
  | .errorHandling =>
    [may "message" .text,
     may "retry" .flag,
     may "redirect" .text]
  | .tableColumn =>
    [need "id" .text,
     need "label" .text,
     may "field" .text,
     may "width" .text,
     may "min_width" .text,
     may "max_width" .text,
     may "resizable" .flag,
     may "sortable" .flag,
     may "filterable" .flag,
     may "format" (.word ["text", "number", "date", "datetime", "currency", "status"]),
     may "status_map" (.tableOf (.tableOf .text)),
     may "currency_format" (.tableOf .anything),
     may "align" (.word ["left", "center", "right"]),
     may "fixed" (.word ["left", "right"]),
     may "colspan" .whole,
     may "rowspan" .whole]
  | .rowAction =>
    [need "id" .text,
     need "label" .text,
     may "icon" .text,
     may "style" (.word ["primary", "secondary", "danger", "link"]),
     may "confirm" (.record .confirmation),
     may "handler" .text]
  | .sorting =>
    [need "column" .text,
     orText "direction" (.word ["asc", "desc"]) "asc"]
  | .paging =>
    [may "enabled" .flag,
     may "page_size" .whole,
     may "page_size_options" (.listOf .whole),
     may "current_page" .whole,
     may "total_count" .whole]
  | .filterField =>
    [need "id" .text,
     need "label" .text,
     need "column" .text,
     orText "type" (.word ["text", "select", "date_range", "number_range"]) "text",
     may "options" (.listOf (.record .option)),
     may "placeholder" .text]
  | .filtering =>
    [may "enabled" .flag,
     (may "show_search" .flag).titled "Search box flag"
      "Whether a free-text search box is shown next to the filters.",
     may "fields" (.listOf (.record .filterField)),
     may "layout" (.word ["inline", "stacked"])]
  | .emptyState =>
    [may "title" .text,
     may "description" .text,
     may "icon" .text,
     may "action" (.tableOf .anything)]
  | .rowGrouping =>
    [may "enabled" .flag,
     may "field" .text,
     may "header_renderer" .text,
     may "default_expanded" .flag,
     may "collapsible" .flag]
  | .stickyHeader =>
    [may "enabled" .flag,
     may "offset" .whole]
  | .columnResizing =>
    [may "enabled" .flag,
     may "min_width" .whole,
     may "max_width" .whole,
     may "on_resize" .text]
  | .photo =>
    [need "id" .text,
     need "src" .text,
     may "alt" .text,
     may "is_main" .flag]
  | .browserItem =>
    [need "value" .text,
     need "label" .text,
     may "children" (.listOf (.record .browserItem)),
     may "disabled" .flag]
  | .timelineItem =>
    [need "time" .text,
     need "title" .text,
     may "description" .text]
  | .tabItem =>
    [need "id" .text,
     need "label" .text,
     may "content" .text]
  | .sectionLink =>
    [need "id" .text,
     need "label" .text,
     may "href" .text]
  | .definition =>
    [need "term" .text,
     need "description" .text]
  | .stepperStep =>
    [need "id" .text,
     need "label" .text,
     may "completed" .flag]
  | .tenant =>
    [need "id" .text,
     need "name" .text]
  | .userInfo =>
    [orText "name" .text "",
     may "email" .text,
     (may "avatar_url" .text).spelled ["avatar_url", "avatarUrl"]]
  | .headerDropdownLink =>
    [need "id" .text,
     need "label" .text,
     may "href" .text,
     may "divider" .flag]
  | .headerLink =>
    [need "id" .text,
     need "label" .text,
     may "href" .text,
     may "active" .flag,
     may "disabled" .flag,
     may "dropdown" (.listOf (.record .headerDropdownLink))]
  | .launcherItem =>
    [need "id" .text,
     need "name" .text,
     need "url" .text,
     may "icon" .text]
  | .header =>
    [may "logo" .text,
     (may "logo_alt" .text).spelled ["logo_alt", "logoAlt"],
     (may "logo_href" .text).spelled ["logo_href", "logoHref"],
     (orText "app_name" .text "").spelled ["app_name", "appName"],
     may "tenants" (.listOf (.record .tenant)),
     (may "current_tenant_id" .text).spelled ["current_tenant_id", "currentTenantId"],
     (orBlank "user_info" .userInfo).spelled ["user_info", "userInfo"],
     may "navigations" (.listOf (.record .headerLink)),
     (may "app_launcher" (.listOf (.record .launcherItem))).spelled
       ["app_launcher", "appLauncher"],
     (may "help_page_url" .text).spelled ["help_page_url", "helpPageUrl"],
     (may "show_release_note" .flag).spelled ["show_release_note", "showReleaseNote"],
     (may "release_note_text" .text).spelled ["release_note_text", "releaseNoteText"],
     (may "show_data_sync" .flag).spelled ["show_data_sync", "showDataSync"]]
  | .naviDropdownLink =>
    [need "id" .text,
     need "label" .text,
     may "icon" .text,
     may "disabled" .flag,
     may "href" .text]
  | .naviLink =>
    [need "id" .text,
     need "label" .text,
     need "type" (.word ["button", "anchor", "dropdown"]),
     may "icon" .text,
     may "disabled" .flag,
     may "current" .flag,
     may "href" .text,
     may "target" (.word ["_blank", "_self", "_parent", "_top"]),
     (may "dropdown_items" (.listOf (.record .naviDropdownLink))).spelled
       ["dropdown_items", "dropdownItems"]]
  | .navi =>
    [may "label" .text,
     orNoItems "items" (.one (.listOf (.record .naviLink)))]
  | .formSection =>
    [(orText "section_name" .text "").titled "Section name"
      "Name shown in the section navigation.",
     may "icon" .text,
     may "publish_toggle" .flag,
     may "input_fields" (.listOf .field)]
  | .stepStatus =>
    [need "type" stepStates,
     need "text" .text]
  | .wizardStep =>
    [description,
     need "id" .text,
     need "title" .text,
     may "subtitle" .text,
     need "fields" (.listOf .field),
     mayNamed "next_condition" .condition,
     mayAny "status" [stepStates, .record .stepStatus],
     may "skippable" .flag]
  | .wizard =>
    [need "steps" (.listOf (.record .wizardStep)),
     may "layout" (.word ["horizontal", "vertical"]),
     may "validate_on_step" .flag,
     may "allow_back" .flag,
     may "show_progress" .flag,
     may "clickable_steps" .flag,
     (may "active_index" (.integer (some 0))).spelled ["active_index", "activeIndex"]]
  | .screen =>
    [description,
     (need "title" .text).titled "Screen title"
      "Title shown at the top of the screen.",
     may "app_header" (.record .header),
     may "app_navi" (.record .navi),
     may "wizard" (.record .wizard),
     may "sections" (.listOf (.record .formSection)),
     may "fields" (.listOf .field),
     may "actions" (.listOf .action),
     may "layout" (.record .layout)]
  | .parameter =>
    [need "name" .text,
     need "type" (.word ["string", "number", "boolean", "array", "object"]),
     may "required" .flag,
     free "default"]
  | .component =>
    [description,
     need "name" .text,
     need "type" (.word ["field_group", "action_group", "layout", "template"]),
     may "fields" (.listOf .field),
     may "actions" (.listOf .action),
     may "layout" (.record .layout),
     may "template" .text,
     may "params" (.listOf (.record .parameter)),
     (may "used_in" (.listOf .text)).titled "Usages"
      "Names of the screens using the component."]
  | .rule =>
    [need "name" .text,
     need "rules" (.record .validation),
     may "message" .text]
  | .document =>
    [(need "view" (.tableOf (.record .screen))).titled "Screens"
      "Screen definitions keyed by screen name.",
     may "common_components" (.tableOf (.record .component)),
     may "validations" (.tableOf (.record .rule))]
  | .action t => t.attributes
  | .field t => t.attributes

end RecordType

end Wireframe
