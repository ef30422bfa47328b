import FleetControl.Http
import FleetControl.Notification
import FleetControl.Config

/-!
# Delivery of notifications

Where a notification goes: into a record, into the log, or to a webhook that
takes it as JSON.
-/
namespace FleetControl

inductive Sink where
  | recording
  | log
  | webhook (url : String)
  deriving DecidableEq, Repr

namespace Sink

/-- The sink of a configuration. A webhook needs an address. -/
def ofConfig (c : NotificationSettings) : Except ControlError Sink :=
  match c.backend, c.webhookUrl with
  | .log, _ => .ok log
  | .webhook, some url => .ok (webhook url)
  | .webhook, none => .error (.config "notifications.webhook_url is required")

/-- Deliver a notification over a network. -/
def send {σ : Type} (sink : Sink) (e : Http.Exchange σ) (n : Notification) (s : σ) :
    Except ControlError Unit × σ :=
  match sink with
  | recording | log => (.ok (), s)
  | webhook url =>
      match Http.send e ⟨"POST", url, some n.toJson⟩ s with
      | (.error e, s) => (.error e, s)
      | (.ok r, s) =>
          if Http.isSuccess r.status then (.ok (), s)
          else (.error (.notification ("webhook returned " ++ Http.statusText r.status)), s)

/-- What a sink keeps of a notification that it delivers. -/
def record : Sink → Notification → List Notification
  | recording, n => [n]
  | log, _ | webhook _, _ => []

/-- Deliver a notification in the background, unless nobody would receive it.
Nobody hears of a failure. Gives what the sink keeps. -/
def notify {σ : Type} (sink : Sink) (e : Http.Exchange σ) (n : Notification) (s : σ) :
    List Notification × σ :=
  if n.isAddressed then (sink.record n, (sink.send e n s).2) else ([], s)

theorem notify_of_not_isAddressed {σ : Type} (sink : Sink) (e : Http.Exchange σ)
    {n : Notification} (s : σ) (h : n.isAddressed = false) : sink.notify e n s = ([], s) := by
  simp [notify, h]

end Sink

end FleetControl
