import FleetControl.Json

/-!
# Notifications

A message for people. One without recipients and without a room is dropped
before any delivery.
-/
namespace FleetControl

structure Notification where
  subject : String
  message : String
  recipients : List String
  room : Option String
  deriving DecidableEq, Repr

namespace Notification

/-- Whether anybody would receive the notification. -/
def isAddressed (n : Notification) : Bool := !n.recipients.isEmpty || n.room.isSome

def toJson (n : Notification) : Json :=
  .object [
    ("subject", .string n.subject),
    ("message", .string n.message),
    ("recipients", Json.ofTexts n.recipients),
    ("room", Json.ofOption Json.string n.room)]

end Notification

end FleetControl
