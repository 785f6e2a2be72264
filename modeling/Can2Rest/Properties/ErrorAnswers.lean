import Can2Rest.HttpServer

/-!
# Error answers

The library calls the error handler for every status from 400 on, also where a
handler or the exception handler has set it, and the error handler replaces both
the status and the body.
-/

namespace Can2Rest.Properties

open Foundation Shared HttpServer

/-- The route whose handler is called for a request. -/
def calledRoute : Arrival → Option Route
  | .refused _ _ _ => none
  | .parsed request => matched request

/-- What the handlers return in a state. -/
def handledIn (undefined : Binary64.OutOfRange) (config : ConfigParser) (env : Env)
    (state : Bridge) (request : Request) (route : Route) : Response :=
  ((handler undefined config request route).run bridge env state).1

/-- Errors that a handler, or the exception handler, has chosen are written. -/
structure ErrorsReach (handled : Request → Route → Response) (throw : Option Throw)
    (boundary : Bytes) (arrival : Arrival) : Prop where
  answered : ∀ request route, arrival = .parsed request → matched request = some route →
    throw.isNone → 400 ≤ (handled request route).status →
      processRequest handled throw boundary arrival =
        written (request.method = .head) (handled request route)
  thrown : ∀ request route thrown, arrival = .parsed request → matched request = some route →
    throw = some thrown →
      processRequest handled throw boundary arrival =
        written (request.method = .head) (caught thrown).response
  notFound : (processRequest handled throw boundary arrival).status = 404 →
    calledRoute arrival = none

/-! ## What is written -/

theorem status_written (isHead : Bool) (response : Response) :
    (written isHead response).status = response.status := by
  unfold written
  split <;> rfl

theorem status_applyRanges (boundary : Bytes) (ranges : List (Int × Int)) (response : Response) :
    (applyRanges boundary ranges response).status = response.status ∨
      (applyRanges boundary ranges response).status = 416 := by
  unfold applyRanges
  split
  · exact .inl rfl
  split
  · exact .inl rfl
  · dsimp only
    split
    · exact .inl rfl
    · exact .inr rfl
  · split
    · exact .inl rfl
    · exact .inr rfl

/-- No error status is written as it was chosen, unless the error handler chose it. -/
theorem status_writeResponseCore_of_error (boundary : Bytes) (ranges : List (Int × Int))
    {response : Response} (h : 400 ≤ response.status) (needApplyRanges : Bool) :
    (writeResponseCore boundary ranges response needApplyRanges).status = 404 ∨
      (writeResponseCore boundary ranges response needApplyRanges).status = 416 := by
  rw [writeResponseCore, if_pos h]
  exact status_applyRanges boundary ranges RestApi.errorHandler

theorem status_writeResponseCore_of_ok {boundary : Bytes} {ranges : List (Int × Int)}
    {response : Response} (h : response.status < 400) (needApplyRanges : Bool) :
    (writeResponseCore boundary ranges response needApplyRanges).status ≠ 404 := by
  rw [writeResponseCore, if_neg (by omega)]
  split
  · rcases status_applyRanges boundary ranges response with hstatus | hstatus
    · omega
    · omega
  · omega

/-! ## Routed requests -/

def calledAnswer (throw : Option Throw) (returned : Response) : Answer :=
  match throw with
  | some throw => caught throw
  | none => ⟨true, returned⟩

section Called

variable {handled : Request → Route → Response} {throw : Option Throw} {request : Request}
  {route : Route}

theorem dispatch_of_route (h : route? request = some route) :
    dispatch handled throw request = calledAnswer throw (handled request route) := by
  unfold dispatch
  cases throw with
  | none => simp only [h, calledAnswer]
  | some thrown => simp only [h, calledAnswer]

theorem routing_of_matched (h : matched request = some route) :
    routing handled throw request = calledAnswer throw (handled request route) := by
  unfold matched at h
  unfold routing
  split at h
  next hcontent =>
      rw [if_pos hcontent]
      split at h
      next => cases h
      next => exact dispatch_of_route h
  next hcontent =>
      rw [if_neg hcontent]
      exact dispatch_of_route h

theorem processRequest_of_matched (h : matched request = some route) (boundary : Bytes) :
    processRequest handled throw boundary (.parsed request) =
      written (request.method = .head)
        (writeResponseCore boundary request.ranges
          (settled request.ranges (calledAnswer throw (handled request route)))
          (calledAnswer throw (handled request route)).routed) := by
  rw [processRequest, routing_of_matched h]

theorem applyRanges_nil (boundary : Bytes) (response : Response) :
    applyRanges boundary [] response = response := by
  unfold applyRanges
  split <;> rfl

theorem processRequest_of_noRanges (h : matched request = some route)
    (hranges : request.ranges = []) (boundary : Bytes) :
    processRequest handled none boundary (.parsed request) =
      written (request.method = .head) (RestApi.respond (handled request route)) := by
  rw [processRequest_of_matched h, hranges]
  congr 1
  unfold writeResponseCore settled RestApi.respond calledAnswer
  simp only [applyRanges_nil, if_true, ite_self]

theorem status_of_error {boundary : Bytes} (h : matched request = some route)
    (herror : (calledAnswer throw (handled request route)).response.status = 500) :
    (processRequest handled throw boundary (.parsed request)).status ≠ 500 := by
  have hsettled : settled request.ranges (calledAnswer throw (handled request route)) =
      (calledAnswer throw (handled request route)).response := by
    rw [settled, if_neg (by omega)]
  have hle : 400 ≤ (calledAnswer throw (handled request route)).response.status := by omega
  rw [processRequest_of_matched h, status_written, hsettled]
  have hwritten := status_writeResponseCore_of_error boundary request.ranges hle
    (calledAnswer throw (handled request route)).routed
  rcases hwritten with hstatus | hstatus
  · omega
  · omega

theorem status_of_ok {boundary : Bytes} (h : matched request = some route)
    (hok : (handled request route).status < 400) :
    (processRequest handled none boundary (.parsed request)).status ≠ 404 := by
  rw [processRequest_of_matched h, status_written]
  apply status_writeResponseCore_of_ok
  change (settled request.ranges ⟨true, handled request route⟩).status < 400
  unfold settled
  split
  · change (if request.ranges = [] then (200 : Int) else 206) < 400
    split <;> decide
  · exact hok

end Called

theorem status_caught (throw : Throw) : (caught throw).response.status = 500 := by
  unfold caught
  split <;> rfl

/-! ## The handlers of the service -/

theorem status_handledIn_send {undefined : Binary64.OutOfRange} {config : ConfigParser} {env : Env}
    {state : Bridge} {request : Request}
    (h : ∀ id payload, ¬ RestApi.Requests (cStr request.body) id payload) :
    (handledIn undefined config env state request .send).status = 500 := by
  obtain ⟨text, hrun⟩ := RestApi.run_postSend_of_not_requests undefined h env state
  rw [handledIn, handler, hrun]
  rfl

theorem status_receiveResponse (state : Bridge) (digits : Bytes) :
    (RestApi.receiveResponse state digits).status = 200 := by
  unfold RestApi.receiveResponse
  split <;> rfl

theorem status_handledIn_of_ok {undefined : Binary64.OutOfRange} {config : ConfigParser} {env : Env}
    {state : Bridge} {request : Request} {route : Route}
    (h : route = .send → ∃ id payload, RestApi.Requests (cStr request.body) id payload) :
    (handledIn undefined config env state request route).status < 400 := by
  cases route with
  | root => change (200 : Int) < 400; decide
  | types => change (200 : Int) < 400; decide
  | version => change (200 : Int) < 400; decide
  | config => change (200 : Int) < 400; decide
  | receive digits =>
      rw [handledIn, handler, RestApi.run_receive, status_receiveResponse]
      decide
  | list => change (-1 : Int) < 400; decide
  | send =>
      obtain ⟨id, payload, hrequests⟩ := h rfl
      rw [handledIn, handler, RestApi.run_postSend_of_requests hrequests]
      change (-1 : Int) < 400
      decide

/-! ## The errors of a request -/

/-- No handler is called that throws or that answers with an error. -/
def CallsCleanly (throw : Option Throw) (arrival : Arrival) : Prop :=
  ∀ request route, arrival = .parsed request → matched request = some route →
    throw = none ∧
      (route = .send → ∃ id payload, RestApi.Requests (cStr request.body) id payload)

section Service

variable {undefined : Binary64.OutOfRange} {config : ConfigParser} {env : Env} {state : Bridge}
  {arrival : Arrival} {throw : Option Throw} {boundary : Bytes}

theorem errorsReach_of_callsCleanly (h : CallsCleanly throw arrival) :
    ErrorsReach (handledIn undefined config env state) throw boundary arrival where
  answered := by
    intro request route harrival hmatched _ herror
    have hok : (handledIn undefined config env state request route).status < 400 :=
      status_handledIn_of_ok (h request route harrival hmatched).2
    omega
  thrown := by
    intro request route thrown harrival hmatched hthrow
    rw [(h request route harrival hmatched).1] at hthrow
    cases hthrow
  notFound := by
    intro hstatus
    cases arrival with
    | refused refusal isHead ranges => rfl
    | parsed request =>
        by_contra hcalled
        obtain ⟨route, hmatched⟩ := Option.ne_none_iff_exists'.mp hcalled
        obtain ⟨rfl, hrequests⟩ := h request route rfl hmatched
        exact status_of_ok hmatched (status_handledIn_of_ok hrequests) hstatus

theorem callsCleanly_of_errorsReach
    (h : ErrorsReach (handledIn undefined config env state) throw boundary arrival) :
    CallsCleanly throw arrival := by
  intro request route harrival hmatched
  subst harrival
  cases throw with
  | some thrown =>
      have hreplaced : (processRequest (handledIn undefined config env state) (some thrown)
          boundary (.parsed request)).status ≠ 500 :=
        status_of_error hmatched (status_caught thrown)
      refine absurd ?_ hreplaced
      rw [h.thrown request route thrown rfl hmatched rfl, status_written, status_caught]
  | none =>
      refine ⟨rfl, ?_⟩
      rintro rfl
      by_contra hnone
      have hsend : (handledIn undefined config env state request .send).status = 500 :=
        status_handledIn_send fun id payload hrequests => hnone ⟨id, payload, hrequests⟩
      have hreplaced : (processRequest (handledIn undefined config env state) none boundary
          (.parsed request)).status ≠ 500 := status_of_error hmatched hsend
      refine absurd ?_ hreplaced
      rw [h.answered request .send rfl hmatched rfl (by omega), status_written, hsend]

end Service

theorem errorsReach_iff (undefined : Binary64.OutOfRange) (config : ConfigParser) (env : Env)
    (state : Bridge) (throw : Option Throw) (boundary : Bytes) (arrival : Arrival) :
    ErrorsReach (handledIn undefined config env state) throw boundary arrival ↔
      CallsCleanly throw arrival :=
  ⟨callsCleanly_of_errorsReach, errorsReach_of_callsCleanly⟩

def emptySend : Request := ⟨.post, ascii "/send", [], .ok []⟩

theorem emptySend_error_replaced :
    ¬ ErrorsReach (handledIn .x86 ⟨fun _ => [], ∅⟩ {} (Bridge.start ∅ ∅)) none []
        (.parsed emptySend) := by
  intro h
  have hmatched : matched emptySend = some .send := by decide
  obtain ⟨-, hrequests⟩ := callsCleanly_of_errorsReach h emptySend .send rfl hmatched
  obtain ⟨id, payload, h⟩ := hrequests rfl
  exact RestApi.not_requests_nil h

end Can2Rest.Properties
