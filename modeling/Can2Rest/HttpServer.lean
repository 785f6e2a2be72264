import Can2Rest.RestApi
import Can2Rest.Startup

/-!
# The HTTP server

This file models `rest_api::recieve_thread_function` with the part of `httplib`
that takes a request through the routes to the response that is written.  The
server has handlers for errors and for exceptions and none of the other hooks of
the library, and it serves no files.
-/

namespace Can2Rest

open Foundation Shared

namespace HttpServer

/-! ## Requests -/

/-- The methods that `parse_request_line` knows. -/
inductive Method where
  | get
  | head
  | post
  | put
  | delete
  | connect
  | options
  | trace
  | patch
  | pri
  deriving DecidableEq

def Method.expectContent : Method → Bool
  | .post | .put | .patch | .pri | .delete => true
  | _ => false

inductive ContentError where
  | malformed
  | tooLong
  | unknownEncoding
  deriving DecidableEq

def ContentError.status : ContentError → Int
  | .malformed => 400
  | .tooLong => 413
  | .unknownEncoding => 415

/-- `ranges` holds -1 where the header leaves an end of a range open. -/
structure Request where
  method : Method
  path : Bytes
  ranges : List (Int × Int)
  content : Except ContentError Bytes

def Request.body (request : Request) : Bytes :=
  match request.content with
  | .ok body => body
  | .error _ => []

/-- Why a request is answered before the routing. -/
inductive Refusal where
  | descriptor
  | uriTooLong
  | badRequest
  | badRange
  deriving DecidableEq

def Refusal.status : Refusal → Int
  | .descriptor => 500
  | .uriTooLong => 414
  | .badRequest => 400
  | .badRange => 416

/-- A refused request may have been read in part. -/
inductive Arrival where
  | refused (refusal : Refusal) (isHead : Bool) (ranges : List (Int × Int))
  | parsed (request : Request)

/-! ## Routes -/

inductive Route where
  | root
  | types
  | version
  | config
  | receive (digits : Bytes)
  | list
  | send
  deriving DecidableEq

def getRoute? (path : Bytes) : Option Route :=
  if path = ascii "/" then some .root
  else if path = ascii "/types" then some .types
  else if path = ascii "/version" then some .version
  else if path = ascii "/config" then some .config
  else if ascii "/receive/" <+: path ∧ path.drop 9 ≠ [] ∧ (path.drop 9).all isDigit then
    some (.receive (path.drop 9))
  else if path = ascii "/list" then some .list
  else none

/-- The handler that `dispatch_request` finds for the method and the path. -/
def route? (request : Request) : Option Route :=
  match request.method with
  | .get | .head => getRoute? request.path
  | .post => if request.path = ascii "/send" then some .send else none
  | _ => none

/-- Content that cannot be read ends the routing before a handler is looked for. -/
def matched (request : Request) : Option Route :=
  if request.method.expectContent then
    match request.content with
    | .error _ => none
    | .ok _ => route? request
  else route? request

/-! ## Handlers -/

/-- `VERSION` of the build. -/
def version : Bytes := ascii "0.1.0"

def rootResponse : Response :=
  RestApi.withStatus 200 (RestApi.content
    [(ascii "version", .string version),
     (ascii "version", .string (ascii "/version")),
     (ascii "list", .string (ascii "/list")),
     (ascii "send", .string (ascii "/send")),
     (ascii "receive", .string (ascii "/receive")),
     (ascii "types", .string (ascii "/types")),
     (ascii "config", .string (ascii "/config"))])

def typesResponse : Response :=
  RestApi.withStatus 200 (RestApi.content
    [(ascii "NONE", .string (ascii "0")),
     (ascii "RAW", .string (ascii "1")),
     (ascii "INT", .string (ascii "2")),
     (ascii "BYTE", .string (ascii "3"))])

def versionResponse : Response :=
  RestApi.withStatus 200 (RestApi.content [(ascii "version", .string version)])

def configResponse (config : ConfigParser) : Response := ⟨200, config.toJson⟩

def handler (undefined : Binary64.OutOfRange) (config : ConfigParser) (request : Request) :
    Route → Code Response
  | .root => pure rootResponse
  | .types => pure typesResponse
  | .version => pure versionResponse
  | .config => pure (configResponse config)
  | .receive digits => RestApi.receive (some digits)
  | .list => RestApi.list
  | .send => RestApi.postSend undefined request.body

def exceptionHandler : Response :=
  RestApi.withStatus 500 (RestApi.content [(ascii "exception", .int 500)])

/-! ## Routing -/

/-- What is thrown: a `std::exception`, or something else. -/
inductive Fault where
  | exception
  | other
  deriving DecidableEq

/-- A handler that throws, with what it has made of the response by then. -/
structure Throw where
  fault : Fault
  response : Response

/-- Whether the request was routed, and the response so far. -/
structure Answer where
  routed : Bool
  response : Response

/-- The `catch` clauses around the routing. -/
def caught (throw : Throw) : Answer :=
  match throw.fault with
  | .exception => ⟨true, exceptionHandler⟩
  | .other => ⟨false, RestApi.withStatus 500 throw.response⟩

/-- `dispatch_request`, where `handled` is what the handlers return. -/
def dispatch (handled : Request → Route → Response) (throw : Option Throw)
    (request : Request) : Answer :=
  match route? request with
  | some route =>
      match throw with
      | some throw => caught throw
      | none => ⟨true, handled request route⟩
  | none =>
      match request.method with
      | .connect | .trace | .pri => ⟨false, ⟨400, []⟩⟩
      | _ => ⟨false, ⟨-1, []⟩⟩

def routing (handled : Request → Route → Response) (throw : Option Throw)
    (request : Request) : Answer :=
  if request.method.expectContent then
    match request.content with
    | .error error => ⟨false, ⟨error.status, []⟩⟩
    | .ok _ => dispatch handled throw request
  else dispatch handled throw request

/-! ## Ranges -/

/-- The conversion of an `ssize_t` to a `size_t`. -/
def asSize (n : Int) : Nat := (n % 2 ^ 64).toNat

def rangeOffsetAndLength (range : Int × Int) (size : Nat) : Nat × Nat :=
  if range.1 = -1 ∧ range.2 = -1 then (0, size)
  else
    let first := if range.1 = -1 then max 0 (size - range.2) else range.1
    let last := if range.1 = -1 ∨ range.2 = -1 then (size : Int) - 1 else range.2
    (asSize first, (asSize (last - first) + 1) % 2 ^ 64)

def contentRange (offset length size : Nat) : Bytes :=
  ascii "bytes " ++ toDecimal offset ++ ascii "-" ++
    toDecimal (asSize (offset + length - 1)) ++ ascii "/" ++ toDecimal size

/-- `make_multipart_ranges_data`, for a response that is JSON. -/
def multipartRanges (boundary body : Bytes) : List (Int × Int) → Option Bytes
  | [] => some (ascii "--" ++ boundary ++ ascii "--\r\n")
  | range :: rest =>
      let (offset, length) := rangeOffsetAndLength range body.length
      if offset < body.length then do
        let parts ← multipartRanges boundary body rest
        return ascii "--" ++ boundary ++ ascii "\r\n" ++
          ascii "Content-Type: application/json\r\n" ++
          ascii "Content-Range: " ++ contentRange offset length body.length ++
          ascii "\r\n\r\n" ++ (body.drop offset).take length ++ ascii "\r\n" ++ parts
      else none

/-- `apply_ranges`: the boundary is drawn at random, and nothing is compressed. -/
def applyRanges (boundary : Bytes) (ranges : List (Int × Int)) (response : Response) :
    Response :=
  if response.body = [] then response
  else
    match ranges with
    | [] => response
    | [range] =>
        let (offset, length) := rangeOffsetAndLength range response.body.length
        if offset < response.body.length then
          { response with body := (response.body.drop offset).take length }
        else ⟨416, []⟩
    | _ =>
        match multipartRanges boundary response.body ranges with
        | some data => { response with body := data }
        | none => ⟨416, []⟩

/-! ## Responses -/

/-- A status that is still unset is filled in. -/
def settled (ranges : List (Int × Int)) (answer : Answer) : Response :=
  if answer.response.status = -1 then
    RestApi.withStatus (if answer.routed then if ranges = [] then 200 else 206 else 404)
      answer.response
  else answer.response

/-- `write_response_core` up to the ranges; the error handler always handles. -/
def writeResponseCore (boundary : Bytes) (ranges : List (Int × Int)) (response : Response)
    (needApplyRanges : Bool) : Response :=
  if 400 ≤ response.status then applyRanges boundary ranges RestApi.errorHandler
  else if needApplyRanges then applyRanges boundary ranges response
  else response

/-- What is written for a response: no body where the method is `HEAD`. -/
def written (isHead : Bool) (response : Response) : Response :=
  if isHead then { response with body := [] } else response

def processRequest (handled : Request → Route → Response) (throw : Option Throw)
    (boundary : Bytes) : Arrival → Response
  | .refused refusal isHead ranges =>
      written isHead (writeResponseCore boundary ranges ⟨refusal.status, []⟩ false)
  | .parsed request =>
      let answer := routing handled throw request
      written (request.method = .head)
        (writeResponseCore boundary request.ranges (settled request.ranges answer)
          answer.routed)

end HttpServer

end Can2Rest
