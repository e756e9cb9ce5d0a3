import RagFlow.Lib.GoString
import RagFlow.Lib.Json
import RagFlow.Lib.Runs

/-!
# The SSE client of the MCP endpoints

`fetchToolsSSE` of `internal/utility/mcp_client.go`: a dispatcher reads the events of the stream and
delivers responses to waiters, while the call registers a waiter, posts a request and waits, first
for `initialize` and then for `tools/list`.
-/

namespace RagFlow.Mcp

open RagFlow.Lib

structure Event where
  event : List Char
  data : List Char
  deriving DecidableEq

def joinLines (lines : List (List Char)) : List Char := ['\n'].intercalate lines

/-- `nextEvent` until the end of the stream; `event` and `dataLines` are of the event that is being
read. -/
def readEvents (event : List Char) (dataLines : List (List Char)) :
    List (List Char) → List Event
  | [] => if dataLines = [] ∧ event = [] then [] else [⟨event, joinLines dataLines⟩]
  | line :: lines =>
    let line := line.rdropWhile fun char => char = '\r' || char = '\n'
    if line = [] then
      if dataLines = [] ∧ event = [] then readEvents event dataLines lines
      else ⟨event, joinLines dataLines⟩ :: readEvents [] [] lines
    else if [':'] <+: line then readEvents event dataLines lines
    else
      match GoString.index id [':'] line with
      | none => readEvents event dataLines lines
      | some idx =>
        let value := GoString.trimPrefix id (line.drop (idx + 1)) [' ']
        if line.take idx = "event".toList then readEvents value dataLines lines
        else if line.take idx = "data".toList then readEvents event (dataLines ++ [value]) lines
        else readEvents event dataLines lines

structure RpcError where
  code : Int
  message : String

/-- An id that is missing is `null`. -/
structure Message where
  id : Json
  method : String
  result : Json
  error : Option RpcError

/-- What `encoding/json` provides: the first value of a text as a message, and the text of a value. -/
structure Decoder where
  decode : List Char → Option Message
  marshal : Json → String

inductive Request where
  | init
  | list
  deriving DecidableEq

def Request.key : Request → String
  | .init => "0"
  | .list => "1"

section Dispatch

variable (decoder : Decoder)

def normalizeID : Json → String
  | .null => ""
  | .string text => text
  | .number literal => literal
  | .bool value => decoder.marshal (.bool value)
  | .array items => decoder.marshal (.array items)
  | .object fields => decoder.marshal (.object fields)

def dispatched (event : Event) : Option Message :=
  if event.event ≠ [] ∧ event.event ≠ "message".toList then none
  else if GoString.trimSpace event.data = [] then none
  else
    match decoder.decode event.data with
    | none => none
    | some message =>
      match message.method, message.id with
      | "", _ => some message
      | _, .null => none
      | _, _ => some message

inductive Waiter where
  | unregistered
  | registered (channel : Option Message)
  | removed

inductive Outcome where
  | tools (listRes : Message)
  | refused (request : Request) (error : RpcError)
  | closed (request : Request)
  | failed

inductive Phase where
  | connecting
  | connected
  | posting (request : Request)
  | waiting (request : Request)
  | notifying
  | notified
  | finished (outcome : Outcome)

inductive Done where
  | closed
  | broken
  | expired
  deriving DecidableEq

structure Client where
  stream : List Event
  phase : Phase
  waiter : Request → Waiter
  received : Request → Option Message
  streamDone : Option Done

def start (stream : List Event) : Client where
  stream := stream
  phase := .connecting
  waiter _ := .unregistered
  received _ := none
  streamDone := none

def deliver (message : Message) (waiter : Request → Waiter) : Request → Waiter := fun request =>
  if normalizeID decoder message.id = request.key then
    match waiter request with
    | .registered none => .registered (some message)
    | other => other
  else waiter request

inductive Move where
  | nextEvent
  /-- The end of the stream is noticed, by an error or not. -/
  | streamEnds (done : Done)
  /-- The endpoint is refused by the guard, or the deadline passes. -/
  | fails
  | registers
  | posted (succeeds : Bool)
  | receives
  | seesDone

namespace Client

/-- `waitForEndpoint` skips all other events. -/
def readsEndpoint (client : Client) (event : Event) (rest : List Event) : Client :=
  if event.event = "endpoint".toList then
    if GoString.trimSpace event.data = [] then
      { client with stream := rest, phase := .finished .failed }
    else { client with stream := rest, phase := .connected }
  else { client with stream := rest }

def nextEvent (client : Client) : Client :=
  match client.stream with
  | [] => client
  | event :: rest =>
    match client.phase with
    | .connecting => client.readsEndpoint event rest
    | _ =>
      if client.streamDone = none then
        { client with
          stream := rest
          waiter := (dispatched decoder event).elim client.waiter fun message =>
            deliver decoder message client.waiter }
      else client

def streamEnds (client : Client) (done : Done) : Client :=
  if client.stream ≠ [] ∧ done ≠ .expired then client
  else
    match client.phase with
    | .connecting =>
      { client with
        phase := .finished (if done = .expired then .failed else .closed .init) }
    | _ => if client.streamDone = none then { client with streamDone := some done } else client

def register (client : Client) (request : Request) : Client :=
  { client with
    phase := .posting request
    waiter := fun other => if other = request then .registered none else client.waiter other }

def registers (client : Client) : Client :=
  match client.phase with
  | .connected => client.register .init
  | .notified => client.register .list
  | _ => client

def remove (client : Client) (request : Request) (phase : Phase) : Client :=
  { client with
    phase := phase
    waiter := fun other => if other = request then .removed else client.waiter other }

def posted (client : Client) (succeeds : Bool) : Client :=
  match client.phase with
  | .posting request =>
    if succeeds then { client with phase := .waiting request }
    else client.remove request (.finished .failed)
  | .notifying => { client with phase := if succeeds then .notified else .finished .failed }
  | _ => client

def afterResponse (request : Request) (message : Message) : Phase :=
  match message.error, request with
  | some error, _ => .finished (.refused request error)
  | none, .init => .notifying
  | none, .list => .finished (.tools message)

def receives (client : Client) : Client :=
  match client.phase with
  | .waiting request =>
    match client.waiter request with
    | .registered (some message) =>
      { client.remove request (afterResponse request message) with
        received := fun other =>
          if other = request then some message else client.received other }
    | _ => client
  | _ => client

def seesDone (client : Client) : Client :=
  match client.phase, client.streamDone with
  | .waiting request, some done =>
    { client.remove request
        (.finished (if done = .expired then .failed else .closed request)) with
      streamDone := none }
  | _, _ => client

end Client

def step (client : Client) (move : Move) : Client :=
  match client.phase, move with
  | .finished _, _ => client
  | _, .nextEvent => client.nextEvent decoder
  | _, .streamEnds done => client.streamEnds done
  | _, .fails => { client with phase := .finished .failed }
  | _, .registers => client.registers
  | _, .posted succeeds => client.posted succeeds
  | _, .receives => client.receives
  | _, .seesDone => client.seesDone

end Dispatch

end RagFlow.Mcp

/-!
# Which response a request gets

Along the runs where no message is taken for a response, none arrives before the waiter and the
stream does not end first, every request gets its first response.
-/

namespace RagFlow.Mcp

open RagFlow.Lib

section Correlation

variable (decoder : Decoder)

def Responds (request : Request) (message : Message) : Prop :=
  message.method = "" ∧ message.id = .number request.key

def response? (request : Request) (event : Event) : Option Message :=
  (dispatched decoder event).filter fun message =>
    message.method = "" && (match message.id with
      | .number literal => literal = request.key
      | _ => false)

def firstResponse (request : Request) (events : List Event) : Option Message :=
  events.findSome? (response? decoder request)

/-- What is used is the first response, and the call ends with the stream only if there is none. -/
structure Correlated (events : List Event) (client : Client) : Prop where
  used : ∀ request message, client.received request = some message →
    firstResponse decoder request events = some message
  answered : ∀ request, client.phase = .finished (.closed request) →
    firstResponse decoder request events = none

/-- A message comes when its waiter is there, and no waiter gets another message than a response. -/
def Expected (client : Client) (message : Message) : Prop :=
  ∀ request,
    (Responds request message → client.waiter request ≠ .unregistered) ∧
      (normalizeID decoder message.id = request.key → client.waiter request = .registered none →
        Responds request message)

def Orderly (client : Client) : Move → Prop
  | .nextEvent => ∀ event rest message, client.stream = event :: rest →
      dispatched decoder event = some message → Expected decoder client message
  | .seesDone => ∀ request message, client.phase = .waiting request →
      client.waiter request ≠ .registered (some message)
  | _ => True

end Correlation

variable {decoder : Decoder} {request : Request} {message : Message} {event : Event}
  {events past : List Event} {client : Client}

theorem response?_eq_some_iff :
    response? decoder request event = some message ↔
      dispatched decoder event = some message ∧ Responds request message := by
  rw [response?, Option.filter_eq_some_iff, Responds, Bool.and_eq_true, decide_eq_true_eq]
  refine and_congr_right fun _ => and_congr_right fun _ => ?_
  cases message.id <;> simp

theorem firstResponse_concat :
    firstResponse decoder request (past ++ [event]) =
      (firstResponse decoder request past).or (response? decoder request event) := by
  rw [firstResponse, List.findSome?_append]
  simp [firstResponse]

theorem firstResponse_of_prefix (found : firstResponse decoder request past = some message)
    (isPrefix : past <+: events) : firstResponse decoder request events = some message := by
  obtain ⟨rest, rfl⟩ := isPrefix
  rw [firstResponse, List.findSome?_append, ← firstResponse, found]
  rfl

def Phase.Before : Request → Phase → Prop
  | _, .connecting | _, .connected => True
  | .list, .posting request | .list, .waiting request => request = .init
  | .list, .notifying | .list, .notified => True
  | _, _ => False

/-- Every waiter has the first response that was on the stream so far. -/
structure Going (decoder : Decoder) (past events : List Event) (client : Client) : Prop where
  split : events = past ++ client.stream
  unregistered : ∀ request, client.waiter request = .unregistered →
    firstResponse decoder request past = none
  registered : ∀ request channel, client.waiter request = .registered channel →
    firstResponse decoder request past = channel
  received : ∀ request message, client.received request = some message →
    firstResponse decoder request past = some message
  ended : ∀ done, client.streamDone = some done → done ≠ .expired → client.stream = []
  before : ∀ request, client.phase.Before request → client.waiter request = .unregistered
  waits : ∀ request, client.phase = .posting request ∨ client.phase = .waiting request →
    ∃ channel, client.waiter request = .registered channel

/-- The call goes on like this, or it has returned as it should. -/
inductive Tracks (decoder : Decoder) (events : List Event) (client : Client) : Prop
  | going (past : List Event) (going : Going decoder past events client)
      (unfinished : ∀ outcome, client.phase ≠ .finished outcome)
  | finished (outcome : Outcome) (returned : client.phase = .finished outcome)
      (correlated : Correlated decoder events client)

theorem Going.used (going : Going decoder past events client) {request : Request}
    {message : Message} (received : client.received request = some message) :
    firstResponse decoder request events = some message :=
  firstResponse_of_prefix (going.received request message received)
    (going.split ▸ List.prefix_append _ _)

theorem Tracks.correlated (tracks : Tracks decoder events client) :
    Correlated decoder events client := by
  cases tracks with
  | finished outcome returned correlated => exact correlated
  | going past going unfinished =>
    exact ⟨fun _ _ => going.used, fun _ closed => absurd closed (unfinished _)⟩

theorem tracks_start (events : List Event) : Tracks decoder events (start events) := by
  refine .going [] ⟨rfl, fun _ _ => rfl, ?_, ?_, ?_, fun _ _ => rfl, ?_⟩ ?_
  · intro request channel isRegistered
    contradiction
  · intro request message isReceived
    contradiction
  · intro done isDone
    contradiction
  · rintro request (isPosting | isWaiting)
    · contradiction
    · contradiction
  · intro outcome isFinished
    contradiction

theorem Going.failed (going : Going decoder past events client) {after : Client}
    (returned : after.phase = .finished .failed) (sameReceived : after.received = client.received) :
    Tracks decoder events after := by
  refine .finished .failed returned ⟨fun request message received => ?_, fun request closed => ?_⟩
  · exact going.used (sameReceived ▸ received)
  · rw [returned] at closed
    injection closed with closed
    contradiction

theorem response?_of_dispatched_none (silent : dispatched decoder event = none) :
    response? decoder request event = none := by
  rw [response?, silent]
  rfl

theorem firstResponse_concat_of_none (first : firstResponse decoder request past = none)
    (nothing : response? decoder request event = none) :
    firstResponse decoder request (past ++ [event]) = none := by
  rw [firstResponse_concat, first, nothing]
  rfl

theorem firstResponse_concat_of_some (first : firstResponse decoder request past = some message) :
    firstResponse decoder request (past ++ [event]) = some message :=
  firstResponse_of_prefix first (List.prefix_append _ _)

theorem dispatched_endpoint (isEndpoint : event.event = "endpoint".toList) :
    dispatched decoder event = none := by
  rw [dispatched, if_pos]
  rw [isEndpoint]
  decide

theorem firstResponse_of_unregistered (going : Going decoder past events client)
    (expected : ∀ message, dispatched decoder event = some message →
      Expected decoder client message)
    (isUnregistered : client.waiter request = .unregistered) :
    firstResponse decoder request (past ++ [event]) = none := by
  refine firstResponse_concat_of_none (going.unregistered request isUnregistered) ?_
  rw [Option.eq_none_iff_forall_ne_some]
  intro message found
  obtain ⟨isDispatched, responds⟩ := response?_eq_some_iff.mp found
  exact ((expected message isDispatched) request).1 responds isUnregistered

theorem normalizeID_of_responds (responds : Responds request message) :
    normalizeID decoder message.id = request.key := by
  rw [responds.2]
  rfl

theorem firstResponse_of_registered (going : Going decoder past events client)
    (expected : ∀ message, dispatched decoder event = some message →
      Expected decoder client message) {channel : Option Message}
    (isRegistered : (dispatched decoder event).elim client.waiter
      (fun message => deliver decoder message client.waiter) request = .registered channel) :
    firstResponse decoder request (past ++ [event]) = channel := by
  cases isDispatched : dispatched decoder event with
  | none =>
    rw [isDispatched] at isRegistered
    have first := going.registered request channel isRegistered
    cases channel with
    | none => exact firstResponse_concat_of_none first (response?_of_dispatched_none isDispatched)
    | some message => exact firstResponse_concat_of_some first
  | some message =>
    rw [isDispatched, Option.elim_some, deliver] at isRegistered
    split_ifs at isRegistered with isKey
    · split at isRegistered
      · rename_i isEmpty
        have first := going.registered request none isEmpty
        have responds := ((expected message isDispatched) request).2 isKey isEmpty
        obtain rfl : some message = channel := Waiter.registered.inj isRegistered
        rw [firstResponse_concat, first,
          response?_eq_some_iff.mpr ⟨isDispatched, responds⟩]
        rfl
      · rename_i isFull
        have first := going.registered request channel isRegistered
        cases channel with
        | none => exact absurd isRegistered isFull
        | some other => exact firstResponse_concat_of_some first
    · have first := going.registered request channel isRegistered
      cases channel with
      | some other => exact firstResponse_concat_of_some first
      | none =>
        refine firstResponse_concat_of_none first ?_
        rw [Option.eq_none_iff_forall_ne_some]
        intro other found
        obtain ⟨isOther, responds⟩ := response?_eq_some_iff.mp found
        obtain rfl := Option.some.inj (isDispatched.symm.trans isOther)
        exact isKey (normalizeID_of_responds responds)

theorem deliver_unregistered {waiter : Request → Waiter} (message : Message) :
    deliver decoder message waiter request = .unregistered ↔ waiter request = .unregistered := by
  unfold deliver
  split_ifs
  · split
    · rename_i isEmpty
      simp [isEmpty]
    · rfl
  · rfl

theorem deliver_registered {waiter : Request → Waiter} {channel : Option Message}
    (message : Message) (isRegistered : waiter request = .registered channel) :
    ∃ after, deliver decoder message waiter request = .registered after := by
  unfold deliver
  rw [isRegistered]
  split_ifs
  · cases channel with
    | none => exact ⟨_, rfl⟩
    | some old => exact ⟨_, rfl⟩
  · exact ⟨channel, rfl⟩

theorem Going.dispatch {rest : List Event} (going : Going decoder past events client)
    (stream : client.stream = event :: rest)
    (expected : ∀ message, dispatched decoder event = some message →
      Expected decoder client message) :
    Going decoder (past ++ [event]) events
      { client with
        stream := rest
        streamDone := none
        waiter := (dispatched decoder event).elim client.waiter fun message =>
          deliver decoder message client.waiter } := by
  have sameUnregistered : ∀ request, (dispatched decoder event).elim client.waiter
      (fun message => deliver decoder message client.waiter) request = .unregistered ↔
        client.waiter request = .unregistered := by
    intro request
    cases dispatched decoder event with
    | none => rfl
    | some message => exact deliver_unregistered message
  refine ⟨?_, fun request isUnregistered => ?_, fun request channel isRegistered => ?_,
    fun request message received => ?_, fun done isDone => ?_, fun request before => ?_,
    fun request waits => ?_⟩
  · rw [going.split, stream, List.append_assoc]
    rfl
  · exact firstResponse_of_unregistered going expected
      ((sameUnregistered request).mp isUnregistered)
  · exact firstResponse_of_registered going expected isRegistered
  · exact firstResponse_concat_of_some (going.received request message received)
  · contradiction
  · exact (sameUnregistered request).mpr (going.before request before)
  · obtain ⟨channel, isRegistered⟩ := going.waits request waits
    cases dispatched decoder event with
    | none => exact ⟨channel, isRegistered⟩
    | some message => exact deliver_registered message isRegistered

theorem Going.skip {rest : List Event} (going : Going decoder past events client)
    (connecting : client.phase = .connecting) (stream : client.stream = event :: rest)
    (expected : ∀ message, dispatched decoder event = some message →
      Expected decoder client message) (phase : Phase)
    (next : phase = .connecting ∨ phase = .connected) :
    Going decoder (past ++ [event]) events { client with stream := rest, phase := phase } := by
  have early : ∀ request, client.waiter request = .unregistered := by
    intro request
    refine going.before request ?_
    rw [connecting]
    cases request <;> trivial
  refine ⟨?_, fun request isUnregistered => ?_, fun request channel isRegistered => ?_,
    fun request message received => ?_, fun done isDone live => ?_, fun request _ => early request,
    fun request waits => ?_⟩
  · rw [going.split, stream, List.append_assoc]
    rfl
  · exact firstResponse_of_unregistered going expected isUnregistered
  · rw [early request] at isRegistered
    contradiction
  · exact firstResponse_concat_of_some (going.received request message received)
  · have ended := going.ended done isDone live
    rw [stream] at ended
    contradiction
  · rcases next with rfl | rfl
    · rcases waits with waits | waits <;> contradiction
    · rcases waits with waits | waits <;> contradiction

theorem tracks_nextEvent (going : Going decoder past events client)
    (unfinished : ∀ outcome, client.phase ≠ .finished outcome)
    (orderly : Orderly decoder client .nextEvent) :
    Tracks decoder events (client.nextEvent decoder) := by
  unfold Client.nextEvent
  cases stream : client.stream with
  | nil => exact .going past going unfinished
  | cons event rest =>
    have expected : ∀ message, dispatched decoder event = some message →
        Expected decoder client message := fun message => orderly event rest message stream
    simp only
    split
    · rename_i connecting
      unfold Client.readsEndpoint
      split_ifs
      · exact going.failed rfl rfl
      · exact .going (past ++ [event]) (going.skip connecting stream expected _ (Or.inr rfl))
          fun outcome isFinished => by contradiction
      · have skipped := going.skip connecting stream expected _ (Or.inl rfl)
        rw [← connecting] at skipped
        exact .going (past ++ [event]) skipped unfinished
    · split_ifs with isOpen
      · have next := going.dispatch stream expected
        rw [← isOpen] at next
        exact .going (past ++ [event]) next unfinished
      · exact .going past going unfinished

theorem tracks_streamEnds (going : Going decoder past events client)
    (unfinished : ∀ outcome, client.phase ≠ .finished outcome) (done : Done) :
    Tracks decoder events (client.streamEnds done) := by
  unfold Client.streamEnds
  by_cases early : client.stream ≠ [] ∧ done ≠ .expired
  · rw [if_pos early]
    exact .going past going unfinished
  · rw [if_neg early]
    split
    · rename_i connecting
      by_cases expired : done = .expired
      · exact going.failed (by simp [expired]) rfl
      · have ended : client.stream = [] := by
          by_contra notEmpty
          exact early ⟨notEmpty, expired⟩
        refine .finished (.closed .init) (by simp [expired])
          ⟨fun request message received => going.used received, fun request closed => ?_⟩
        rw [if_neg expired] at closed
        injection closed with closed
        injection closed with sameRequest
        subst sameRequest
        have isUnregistered := going.before .init (connecting ▸ trivial)
        rw [going.split, ended, List.append_nil]
        exact going.unregistered _ isUnregistered
    · split_ifs with isOpen
      · refine .going past ⟨going.split, going.unregistered, going.registered, going.received,
          fun other isOther live => ?_, going.before, going.waits⟩ unfinished
        obtain rfl : done = other := Option.some.inj isOther
        by_contra notEmpty
        exact early ⟨notEmpty, live⟩
      · exact .going past going unfinished

theorem tracks_register (going : Going decoder past events client) (request : Request)
    (isUnregistered : client.waiter request = .unregistered)
    (others : ∀ other, (Phase.posting request).Before other → client.phase.Before other) :
    Tracks decoder events (client.register request) := by
  refine .going past ⟨going.split, fun other isOther => ?_, fun other channel isOther => ?_,
    going.received, going.ended, fun other before => ?_, fun other waits => ?_⟩
    fun outcome isFinished => by contradiction
  · simp only [Client.register] at isOther
    split_ifs at isOther
    exact going.unregistered other isOther
  · simp only [Client.register] at isOther
    split_ifs at isOther with same
    · obtain rfl := Waiter.registered.inj isOther
      exact same ▸ going.unregistered request isUnregistered
    · exact going.registered other channel isOther
  · simp only [Client.register]
    rw [if_neg]
    · exact going.before other (others other before)
    · rintro rfl
      cases other <;> simp [Client.register, Phase.Before] at before
  · rcases waits with waits | waits
    · injection waits with same
      exact ⟨none, by simp [Client.register, same]⟩
    · contradiction

theorem tracks_registers (going : Going decoder past events client)
    (unfinished : ∀ outcome, client.phase ≠ .finished outcome) :
    Tracks decoder events client.registers := by
  unfold Client.registers
  split
  · rename_i connected
    refine tracks_register going .init (going.before _ (connected ▸ trivial)) ?_
    rintro (_ | _) _ <;> exact connected ▸ trivial
  · rename_i notified
    refine tracks_register going .list (going.before _ (notified ▸ trivial)) ?_
    intro other before
    cases other <;> simp [Phase.Before] at before
  · exact .going past going unfinished

theorem tracks_posted (going : Going decoder past events client)
    (unfinished : ∀ outcome, client.phase ≠ .finished outcome) (succeeds : Bool) :
    Tracks decoder events (client.posted succeeds) := by
  unfold Client.posted
  split
  · rename_i request posting
    split_ifs
    · refine .going past ⟨going.split, going.unregistered, going.registered, going.received,
        going.ended, fun other before => ?_, fun other waits => ?_⟩
        fun outcome isFinished => by contradiction
      · refine going.before other ?_
        rw [posting]
        cases other <;> exact before
      · rcases waits with waits | waits
        · contradiction
        · injection waits with same
          exact going.waits other (Or.inl (same ▸ posting))
    · exact going.failed rfl rfl
  · rename_i notifying
    cases succeeds with
    | false => exact going.failed rfl rfl
    | true =>
      refine .going past ⟨going.split, going.unregistered, going.registered, going.received,
        going.ended, fun other before => ?_, fun other waits => ?_⟩
        fun outcome isFinished => by contradiction
      · refine going.before other ?_
        rw [notifying]
        cases other <;> exact before
      · rcases waits with waits | waits <;> contradiction
  · exact .going past going unfinished

theorem tracks_receives (going : Going decoder past events client)
    (unfinished : ∀ outcome, client.phase ≠ .finished outcome) :
    Tracks decoder events client.receives := by
  unfold Client.receives
  split
  · rename_i request waiting
    split
    · rename_i message isFull
      have used : ∀ other found,
          (if other = request then some message else client.received other) = some found →
            firstResponse decoder other past = some found := by
        intro other found received
        split_ifs at received with same
        · obtain rfl := Option.some.inj received
          exact same ▸ going.registered request _ isFull
        · exact going.received other found received
      have isPrefix : past <+: events := going.split ▸ List.prefix_append _ _
      have finishes : ∀ outcome, Client.afterResponse request message = .finished outcome →
          (∀ other, outcome ≠ .closed other) → Tracks decoder events
            { client.remove request (Client.afterResponse request message) with
              received := fun other =>
                if other = request then some message else client.received other } := by
        intro outcome returned notClosed
        refine .finished outcome returned ⟨fun other found received => ?_, fun other closed => ?_⟩
        · exact firstResponse_of_prefix (used other found received) isPrefix
        · have same := returned.symm.trans closed
          injection same with same
          exact absurd same (notClosed other)
      cases isError : message.error with
      | some error =>
        refine finishes (.refused request error) (by simp [Client.afterResponse, isError]) ?_
        intro other isClosed
        contradiction
      | none =>
        cases request with
        | list =>
          refine finishes (.tools message) (by simp [Client.afterResponse, isError]) ?_
          intro other isClosed
          contradiction
        | init =>
          have goesOn : Client.afterResponse .init message = .notifying := by
            simp [Client.afterResponse, isError]
          rw [goesOn]
          refine .going past ⟨going.split, fun other isOther => ?_,
            fun other channel isOther => ?_, used, going.ended, fun other before => ?_,
            fun other waits => ?_⟩ fun outcome isFinished => by contradiction
          · simp only [Client.remove] at isOther
            split_ifs at isOther
            exact going.unregistered other isOther
          · simp only [Client.remove] at isOther
            split_ifs at isOther
            exact going.registered other channel isOther
          · cases other with
            | init => exact absurd before id
            | list =>
              exact going.before .list (by rw [waiting]; rfl)
          · rcases waits with waits | waits <;> contradiction
    · exact .going past going unfinished
  · exact .going past going unfinished

theorem tracks_seesDone (going : Going decoder past events client)
    (unfinished : ∀ outcome, client.phase ≠ .finished outcome)
    (orderly : Orderly decoder client .seesDone) :
    Tracks decoder events client.seesDone := by
  unfold Client.seesDone
  split
  · rename_i request done waiting isDone
    by_cases expired : done = .expired
    · exact going.failed (by simp [Client.remove, expired]) rfl
    · refine .finished (.closed request) (by simp [Client.remove, expired])
        ⟨fun other message received => going.used received, fun other closed => ?_⟩
      simp only [Client.remove, if_neg expired] at closed
      injection closed with closed
      injection closed with same
      subst same
      obtain ⟨channel, isRegistered⟩ := going.waits request (Or.inr waiting)
      cases channel with
      | some message => exact absurd isRegistered (orderly request message waiting)
      | none =>
        rw [going.split, going.ended done isDone expired, List.append_nil]
        exact going.registered request none isRegistered
  · exact .going past going unfinished

theorem tracks_step (tracks : Tracks decoder events client) (move : Move)
    (orderly : Orderly decoder client move) : Tracks decoder events (step decoder client move) := by
  cases tracks with
  | finished outcome returned correlated =>
    have same : step decoder client move = client := by
      unfold step
      rw [returned]
    rw [same]
    exact .finished outcome returned correlated
  | going past going unfinished =>
    unfold step
    split
    · rename_i outcome isFinished
      exact absurd isFinished (unfinished outcome)
    · exact tracks_nextEvent going unfinished orderly
    · exact tracks_streamEnds going unfinished _
    · exact going.failed rfl rfl
    · exact tracks_registers going unfinished
    · exact tracks_posted going unfinished _
    · exact tracks_receives going unfinished
    · exact tracks_seesDone going unfinished orderly

/-- Along orderly runs every state uses first responses only, and the call reports a closed stream
only if its response was not there. -/
theorem correlated_of_along (decoder : Decoder) (lines : List (List Char)) (moves : List Move)
    (orderly : Runs.Along (step decoder) (Orderly decoder) (start (readEvents [] [] lines)) moves) :
    ∀ before, before <+: moves → Correlated decoder (readEvents [] [] lines)
      (Runs.run (step decoder) (start (readEvents [] [] lines)) before) := by
  rintro before ⟨after, rfl⟩
  have earlier : Runs.Along (step decoder) (Orderly decoder) (start (readEvents [] [] lines))
      before := by
    intro first move rest split
    exact orderly first move (rest ++ after) (by rw [split, List.append_assoc]; rfl)
  refine Tracks.correlated ?_
  exact Runs.invariant_along (tracks_start _) (fun _ move condition tracks =>
    tracks_step tracks move condition) earlier

def pingText : List Char := "\x7b\"id\":0,\"method\":\"ping\"\x7d".toList

def initText : List Char := "\x7b\"id\":0,\"result\":null\x7d".toList

def twoTexts : Decoder where
  decode data :=
    if data = pingText then some ⟨.number "0", "ping", .null, none⟩
    else if data = initText then some ⟨.number "0", "", .null, none⟩
    else none
  marshal _ := ""

def endpointLines : List (List Char) := ["event: endpoint".toList, "data: /messages".toList, []]

def initLines : List (List Char) := endpointLines ++ ["data: ".toList ++ initText, []]

def pingLines : List (List Char) :=
  endpointLines ++ ["data: ".toList ++ pingText, [], "data: ".toList ++ initText, []]

theorem correlated_initLines : Correlated twoTexts (readEvents [] [] initLines)
    (Runs.run (step twoTexts) (start (readEvents [] [] initLines))
      [.nextEvent, .registers, .nextEvent, .posted true, .receives]) := by
  refine correlated_of_along twoTexts initLines _ ?_ _ List.prefix_rfl
  have isStream : readEvents [] [] initLines =
      [⟨"endpoint".toList, "/messages".toList⟩, ⟨[], initText⟩] := by decide +kernel
  have isInit : dispatched twoTexts ⟨[], initText⟩ = some ⟨.number "0", "", .null, none⟩ := by rfl
  rw [isStream]
  refine Runs.along_cons.mpr ⟨?_, Runs.along_cons.mpr ⟨trivial, Runs.along_cons.mpr ⟨?_,
    Runs.along_cons.mpr ⟨trivial, Runs.along_cons.mpr ⟨trivial, Runs.along_nil⟩⟩⟩⟩⟩
  · intro event rest message stream found
    obtain ⟨rfl, rfl⟩ := List.cons.inj stream
    rw [dispatched_endpoint rfl] at found
    contradiction
  · intro event rest message stream found
    obtain ⟨rfl, rfl⟩ := List.cons.inj stream
    obtain rfl := Option.some.inj (isInit.symm.trans found)
    intro request
    cases request with
    | init => exact ⟨fun _ unregistered => by contradiction, fun _ _ => ⟨rfl, rfl⟩⟩
    | list =>
      refine ⟨fun responds => ?_, fun isKey => absurd isKey (by decide)⟩
      injection responds.2 with same
      exact absurd same (by decide)

/-- A request with the id of the waiter is taken for the response. -/
theorem not_correlated_pingLines : ¬ Correlated twoTexts (readEvents [] [] pingLines)
    (Runs.run (step twoTexts) (start (readEvents [] [] pingLines))
      [.nextEvent, .registers, .nextEvent, .posted true, .receives]) := by
  intro correlated
  have isPing : ((Runs.run (step twoTexts) (start (readEvents [] [] pingLines))
      [.nextEvent, .registers, .nextEvent, .posted true, .receives]).received .init).map
        Message.method = some "ping" := by decide +kernel
  have isResponse : (firstResponse twoTexts .init (readEvents [] [] pingLines)).map
      Message.method = some "" := by decide +kernel
  obtain ⟨message, received, method⟩ := Option.map_eq_some_iff.mp isPing
  rw [correlated.used .init message received, Option.map_some, method] at isResponse
  exact absurd isResponse (by decide)

end RagFlow.Mcp
