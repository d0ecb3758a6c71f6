import DbSlayer.Http.Parse

/-! # Which answer a request gets

The tests of `slayer_http_request_dispatch`, in their order. What each page holds
is not modelled here, only which of them is sent.
-/

namespace DbSlayer.Server

open DbSlayer.Http

/-- What the dispatcher reads of the server. -/
structure Config where
  authToken : Option Bytes
  /-- The URLs of each entry of the service map. -/
  services : List (List Bytes)

/-- What the dispatcher reads of a connection. -/
structure Request where
  /-- The path that `apr_uri_parse` found. -/
  path : Option Bytes
  parse : RequestParse
  localIp : Bytes
  remoteIp : Bytes

/-- How the dispatcher answers. `noPath` sends nothing; `goingDown` is the answer to
a `/shutdown` from the machine itself. -/
inductive Reply where
  | noPath
  | health
  | unauthorized
  | metrics
  | service (i : Nat)
  | forbidden
  | goingDown
  | stats
  | statsLog
  | statsError
  | statsArgs
  | file
deriving DecidableEq, Repr

/-- The loop that collects in which bits two tokens differ, whatever the bytes are. -/
def tokenDifference (difference : Byte) : Bytes → Bytes → Byte
  | a :: provided, b :: expected => tokenDifference (difference ||| (a ^^^ b)) provided expected
  | _, _ => difference

/-- The bytes in front of the terminator, compared in full. -/
def slayerAuthTokenMatches (provided expected : Bytes) : Bool :=
  if strlen provided ≠ strlen expected then false
  else tokenDifference 0 (cstr provided) (cstr expected) = 0

/-- The test of the `Authorization` header, which is made when there is a token. -/
def authorized (config : Config) (request : Request) : Bool :=
  match config.authToken with
  | none => true
  | some token =>
      match headerGet request.parse (bytes "Authorization") with
      | none => false
      | some header =>
          strcmp (header.take 7) (bytes "Bearer ") = 0 &&
            slayerAuthTokenMatches (header.drop 7) token

/-- The first entry of the service map that lists the path. -/
def findService (config : Config) (path : Bytes) : Option Nat :=
  config.services.findIdx? fun urls => urls.any fun url => strcmp path url = 0

/-- The part of the dispatcher behind the services. -/
def fallback (request : Request) (path : Bytes) : Reply :=
  if strcmp path (bytes "/shutdown") = 0 then
    if strcmp request.localIp request.remoteIp ≠ 0 then .forbidden else .goingDown
  else if strcmp path (bytes "/stats") = 0 then .stats
  else if strcmp path (bytes "/stats/log") = 0 then .statsLog
  else if strcmp path (bytes "/stats/error") = 0 then .statsError
  else if strcmp path (bytes "/stats/args") = 0 then .statsArgs
  else .file

def route (config : Config) (request : Request) : Reply :=
  match request.path with
  | none => .noPath
  | some path =>
      if strcmp path (bytes "/health") = 0 then .health
      else if !authorized config request then .unauthorized
      else if strcmp path (bytes "/metrics") = 0 then .metrics
      else
        match findService config path with
        | some i => .service i
        | none => fallback request path

end DbSlayer.Server
