/-!
# Field types

The type of a field decides which attributes it has.  A field says its type by a
tag; one whose tag is not known keeps everything that was written.
-/

namespace Wireframe

inductive FieldType
  | text
  | number
  | textarea
  | select
  | multiSelect
  | combobox
  | radioGroup
  | checkboxGroup
  | checkbox
  | toggle
  | datePicker
  | timePicker
  | durationPicker
  | durationInput
  | fileUpload
  | repeater
  | dataTable
  | googleMapEmbed
  | photoManager
  | imageUploader
  | badge
  | browser
  | calendar
  | heading
  | tooltip
  | pagination
  | floatArea
  | loader
  | notificationBar
  | responseMessage
  | timeline
  | chip
  | statusLabel
  | segmentedControl
  | tabs
  | lineClamp
  | disclosure
  | accordionPanel
  | sectionNav
  | definitionList
  | stepper
  | informationPanel
  | dropdown
  | deleteConfirmDialog
  | unrecognized
  deriving DecidableEq, Repr

namespace FieldType

/-- The types with attributes of their own, in the order in which they are listed. -/
def known : List FieldType :=
  [.text, .number, .textarea, .select, .multiSelect, .combobox, .radioGroup, .checkbox,
   .checkboxGroup, .datePicker, .timePicker, .durationPicker, .durationInput, .fileUpload,
   .repeater, .dataTable, .googleMapEmbed, .photoManager, .toggle, .imageUploader, .badge,
   .browser, .calendar, .heading, .tooltip, .pagination, .floatArea, .loader, .notificationBar,
   .responseMessage, .timeline, .chip, .statusLabel, .segmentedControl, .tabs, .lineClamp,
   .disclosure, .accordionPanel, .sectionNav, .stepper, .informationPanel, .dropdown,
   .deleteConfirmDialog, .definitionList]

def tag : FieldType → String
  | text => "text"
  | number => "number"
  | textarea => "textarea"
  | select => "select"
  | multiSelect => "multi_select"
  | combobox => "combobox"
  | radioGroup => "radio_group"
  | checkboxGroup => "checkbox_group"
  | checkbox => "checkbox"
  | toggle => "toggle"
  | datePicker => "date_picker"
  | timePicker => "time_picker"
  | durationPicker => "duration_picker"
  | durationInput => "duration_input"
  | fileUpload => "file_upload"
  | repeater => "repeater"
  | dataTable => "data_table"
  | googleMapEmbed => "google_map_embed"
  | photoManager => "photo_manager"
  | imageUploader => "image_uploader"
  | badge => "badge"
  | browser => "browser"
  | calendar => "calendar"
  | heading => "heading"
  | tooltip => "tooltip"
  | pagination => "pagination"
  | floatArea => "float_area"
  | loader => "loader"
  | notificationBar => "notification_bar"
  | responseMessage => "response_message"
  | timeline => "timeline"
  | chip => "chip"
  | statusLabel => "status_label"
  | segmentedControl => "segmented_control"
  | tabs => "tabs"
  | lineClamp => "line_clamp"
  | disclosure => "disclosure"
  | accordionPanel => "accordion_panel"
  | sectionNav => "section_nav"
  | definitionList => "definition_list"
  | stepper => "stepper"
  | informationPanel => "information_panel"
  | dropdown => "dropdown"
  | deleteConfirmDialog => "delete_confirm_dialog"
  | unrecognized => "unrecognized"

def className : FieldType → String
  | text => "TextField"
  | number => "NumberField"
  | textarea => "TextareaField"
  | select => "SelectField"
  | multiSelect => "MultiSelectField"
  | combobox => "ComboboxField"
  | radioGroup => "RadioGroupField"
  | checkboxGroup => "CheckboxGroupField"
  | checkbox => "CheckboxField"
  | toggle => "ToggleField"
  | datePicker => "DatePickerField"
  | timePicker => "TimePickerField"
  | durationPicker => "DurationPickerField"
  | durationInput => "DurationInputField"
  | fileUpload => "FileUploadField"
  | repeater => "RepeaterField"
  | dataTable => "DataTableField"
  | googleMapEmbed => "GoogleMapEmbedField"
  | photoManager => "PhotoManagerField"
  | imageUploader => "ImageUploaderField"
  | badge => "BadgeField"
  | browser => "BrowserField"
  | calendar => "CalendarField"
  | heading => "HeadingField"
  | tooltip => "TooltipField"
  | pagination => "PaginationField"
  | floatArea => "FloatAreaField"
  | loader => "LoaderField"
  | notificationBar => "NotificationBarField"
  | responseMessage => "ResponseMessageField"
  | timeline => "TimelineField"
  | chip => "ChipField"
  | statusLabel => "StatusLabelField"
  | segmentedControl => "SegmentedControlField"
  | tabs => "TabsField"
  | lineClamp => "LineClampField"
  | disclosure => "DisclosureField"
  | accordionPanel => "AccordionPanelField"
  | sectionNav => "SectionNavField"
  | definitionList => "DefinitionListField"
  | stepper => "StepperField"
  | informationPanel => "InformationPanelField"
  | dropdown => "DropdownField"
  | deleteConfirmDialog => "DeleteConfirmDialogField"
  | unrecognized => "UnrecognizedField"

def ofTag (tag : String) : FieldType :=
  (known.find? fun t => t.tag == tag).getD unrecognized

/-- Fields with a choice of options need an option list or a reference to one. -/
def isSelect (t : FieldType) : Bool :=
  t == select || t == multiSelect || t == radioGroup || t == checkboxGroup

/-- Fields that only show something do without an identifier. -/
def isDisplayOnly : FieldType → Bool
  | heading | notificationBar | responseMessage | timeline | chip | statusLabel | loader
  | stepper | sectionNav | tabs | disclosure | accordionPanel | informationPanel
  | floatArea => true
  | _ => false

end FieldType

/-- What pressing the button of an action does. -/
inductive ActionType
  | submit
  | navigate
  | custom
  | reset
  deriving DecidableEq, Repr

namespace ActionType

def all : List ActionType := [submit, navigate, custom, reset]

def tag : ActionType → String
  | submit => "submit"
  | navigate => "navigate"
  | custom => "custom"
  | reset => "reset"

def className : ActionType → String
  | submit => "SubmitAction"
  | navigate => "NavigateAction"
  | custom => "CustomAction"
  | reset => "ResetAction"

def ofTag? (tag : String) : Option ActionType :=
  all.find? fun t => t.tag == tag

end ActionType

/-- What a shared component provides. -/
inductive ComponentType
  | fieldGroup
  | actionGroup
  | layout
  | template
  deriving DecidableEq, Repr

namespace ComponentType

def all : List ComponentType := [fieldGroup, actionGroup, layout, template]

def tag : ComponentType → String
  | fieldGroup => "field_group"
  | actionGroup => "action_group"
  | layout => "layout"
  | template => "template"

end ComponentType

end Wireframe
