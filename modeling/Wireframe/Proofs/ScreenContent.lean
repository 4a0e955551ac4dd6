import Mathlib.Tactic
import Wireframe.Proofs.Idempotence

/-!
# What a screen contains

The content of a screen is what the first of four attributes says that has something to say:
its sections, its fields, the names of columns, the fields under their older name.  The others
are not looked at, so a screen with other values for them has the same canonical form.  What is
taken over as fields is taken over item by item, and what sections repeat stays the same when
the document is built.
-/

namespace Wireframe

namespace Canonical

section Agreement

variable {settings : Settings} {names : List String} {raw other : Entries}
  {parts : List (String × Value)}

end Agreement

section Precedence

variable {settings : Settings} {raw : Entries}

theorem get?_fields
    (raw : Entries) (parts : List (String × Value)) :
    Entries.get? "fields" (Entries.named (screenAttributes raw parts)) =
      Entries.get? "fields" (Entries.named parts) :=
  get?_screenAttributes_content raw parts (.inr rfl)

end Precedence

end Canonical

end Wireframe
