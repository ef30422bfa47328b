import FleetControl.Http
import FleetControl.Json.Fields
import FleetControl.Provider

/-!
# The provisioning service

A provider behind an HTTP service. A call becomes one request, and its reply is
read from the response. Calls about no hosts at all need no request.
-/
namespace FleetControl.Provisioning

def hostsBody (ids : List HostId) : List (String × Json) := [("host_ids", Json.ofTexts ids)]

/-- The path of a call, relative to the address of the service. -/
def path : ProviderCall → String
  | .launchHosts cluster _ _ => "/clusters/" ++ cluster ++ "/hosts"
  | .terminateHosts cluster _ _ => "/clusters/" ++ cluster ++ "/hosts/terminate"
  | .listTerminated _ => "/hosts/terminated"
  | .listRunning _ => "/hosts/running"
  | .attachToPool _ cluster => "/clusters/" ++ cluster ++ "/pool/attach"
  | .currentPoolSize cluster => "/clusters/" ++ cluster ++ "/pool"
  | .hostTags _ _ => "/hosts/tags"

/-- The body of a call's request. The size of a pool is asked for without one. -/
def body? : ProviderCall → Option Json
  | .launchHosts _ count image =>
      some (.object (("count", Json.ofNat count) ::
        (image.elim [] fun image => [("image", .string image)])))
  | .terminateHosts _ ids drain => some (.object (hostsBody ids ++ [("drain", .bool drain)]))
  | .listTerminated ids | .listRunning ids | .attachToPool ids _ => some (.object (hostsBody ids))
  | .currentPoolSize _ => none
  | .hostTags ids tag => some (.object (hostsBody ids ++ [("tag", .string tag)]))

def request (address : String) (c : ProviderCall) : Http.Request :=
  ⟨if (body? c).isSome then "POST" else "GET", address ++ path c, body? c⟩

/-- The reply to a call about no hosts. -/
def withoutHosts? : (c : ProviderCall) → Option c.Reply
  | .terminateHosts _ [] _ => some ()
  | .listTerminated [] => some .empty
  | .listRunning [] => some []
  | .attachToPool [] _ => some ()
  | .hostTags [] _ => some .empty
  | _ => none

/-- The list of hosts in a response. -/
def hostsOf? (j : Json) : Option (List HostId) := do
  let f ← j.fields? [("host_ids", false)]
  f.required "host_ids" (Json.list? Json.text?)

def sizeOf? (j : Json) : Option Nat := do
  let f ← j.fields? [("size", false)]
  f.required "size" Json.nat64?

/-- A member whose value is a text. -/
def textMember? (m : String × Json) : Option (String × String) := m.2.text?.map fun s => (m.1, s)

/-- Texts by name. -/
def textsOf? : Json → Option (Table String)
  | .object ms => (ms.mapM textMember?).map Table.ofList
  | _ => none

def tagsOf? (j : Json) : Option (Table String) := do
  let f ← j.fields? [("tags", false)]
  f.required "tags" textsOf?

/-- The reply that a response without an error brings. Of the hosts reported
running only those asked for count. -/
def read? (content : String) : (c : ProviderCall) → Option c.Reply
  | .launchHosts _ _ _ => (Json.parse? content).bind hostsOf?
  | .terminateHosts _ _ _ => some ()
  | .listTerminated _ => ((Json.parse? content).bind hostsOf?).map IdSet.ofList
  | .listRunning ids =>
      ((Json.parse? content).bind hostsOf?).map fun running => ids.filter running.contains
  | .attachToPool _ _ => some ()
  | .currentPoolSize _ => (Json.parse? content).bind sizeOf?
  | .hostTags _ _ => (Json.parse? content).bind tagsOf?

/-- What a response means for a call. -/
def interpret (c : ProviderCall) (r : Http.Response) : Except ControlError c.Reply :=
  if Http.isSuccess r.status then
    match read? r.body c with
    | some reply => .ok reply
    | none => .error (Http.failure "error decoding response body")
  else .error (.fleet (path c ++ " failed: " ++ Http.statusText r.status))

/-- Answer a call over a network. -/
def answer {σ : Type} (e : Http.Exchange σ) (address : String) (c : ProviderCall) (s : σ) :
    Except ControlError c.Reply × σ :=
  match withoutHosts? c with
  | some reply => (.ok reply, s)
  | none =>
      match Http.send e (request address c) s with
      | (.ok r, s) => (interpret c r, s)
      | (.error e, s) => (.error e, s)

/-- The address of a service without slashes at its end. -/
def address (url : String) : String :=
  String.ofList (url.toList.reverse.dropWhile (· == '/')).reverse

end FleetControl.Provisioning
