import Settlement.Fault
import Settlement.Text.Blank

/-!
# Audit notes

A note is optional. It is kept without the blanks at its ends, a blank one counts as none, and it
holds at most `Fault.longestNote` characters.
-/

namespace Settlement.Note

/-- Who a note belongs to when nobody says. -/
def defaultOwner : String := "Write-off"

/-- A note as it is kept; the owner is named in the message about a note that cannot be kept. -/
def normalize (owner : String) : Value → Except Fault (Option String)
  | .null => .ok none
  | .text s =>
    let trimmed := Text.trim s
    if trimmed.isEmpty then .ok none
    else if Fault.longestNote < trimmed.length then .error (.noteTooLong owner)
    else .ok (some trimmed)
  | _ => .error (.noteNotText owner)

end Settlement.Note
