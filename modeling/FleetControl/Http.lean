import FleetControl.Error
import FleetControl.Json.Parser

/-!
# HTTP exchanges

A request with a JSON body and the answer of a server, if the server can be
reached. The server is a parameter: a function from a request and its own state.
-/
namespace FleetControl.Http

structure Request where
  method : String
  path : String
  body : Option Json

structure Response where
  status : Nat
  body : String
  deriving DecidableEq, Repr

/-- One exchange with a server; no response if no connection can be made. -/
abbrev Exchange (σ : Type) := Request → σ → Option Response × σ

/-- A network on which no server can be reached. -/
def unreachable {σ : Type} : Exchange σ := fun _ s => (none, s)

/-- A server with a fixed list of responses, which writes down its requests. -/
structure Server where
  responses : List Response
  seen : List Request

/-- Give the next response, and an empty failure when there are no more. A
response without content has no body. -/
def Server.exchange : Exchange Server := fun request s =>
  match s.responses with
  | [] => (some ⟨500, ""⟩, { s with seen := s.seen ++ [request] })
  | r :: rs =>
      (some (if r.status = 204 then ⟨204, ""⟩ else r), ⟨rs, s.seen ++ [request]⟩)

/-- The phrase of a status. -/
def reason : Nat → String
  | 400 => "Bad Request"
  | 401 => "Unauthorized"
  | 403 => "Forbidden"
  | 404 => "Not Found"
  | 409 => "Conflict"
  | 418 => "I'm a teapot"
  | 422 => "Unprocessable Entity"
  | 429 => "Too Many Requests"
  | 500 => "Internal Server Error"
  | 501 => "Not Implemented"
  | 502 => "Bad Gateway"
  | 503 => "Service Unavailable"
  | 504 => "Gateway Timeout"
  | _ => "<unknown status code>"

def statusText (status : Nat) : String := toString status ++ " " ++ reason status

def isSuccess (status : Nat) : Bool := 200 ≤ status && status ≤ 299

/-- The error of an exchange that brought no usable response. -/
def failure (detail : String) : ControlError := .http detail

/-- The response of a server, or the error that it could not be reached. -/
def send {σ : Type} (e : Exchange σ) (request : Request) (s : σ) :
    Except ControlError Response × σ :=
  match e request s with
  | (some r, s) => (.ok r, s)
  | (none, s) => (.error (failure "error sending request"), s)

end FleetControl.Http
