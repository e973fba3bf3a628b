import RpcEcho.Proofs.Call.Patience
import RpcEcho.Proofs.Call.Steady
import RpcEcho.Proofs.Request.Stream

/-!
# Handlers that answer request by request

Such a handler takes a request, gives the answer to it, and only then takes the next one. So what it
gives is told by the results that the body of the call gives: each request becomes one message, and
the last result becomes the last frame.

`Exchange.IsSteady.runStream_answering` follows a caller with a pace of its own through the whole
call, by induction on how many requests the handler is prepared for; each request takes octets off
the body, so it is prepared for enough. `Streaming.answersInOrder_run` follows every order of the
steps of the task and the caller: there the invariant is `Serves`, which keeps account of the one
request that the handler may hold.
-/

namespace RpcEcho

open Inbound RequestBody

variable {ι ο : Type}

/-! ## The handlers -/

namespace Handler

/-- Goes on, but perhaps only if the call is not over. -/
def looking (looks : Bool) (rest : Handler ι ο Outcome) : Handler ι ο Outcome :=
  if looks then
    .onCheck fun
      | some done => .finish (.error done.status)
      | none => rest
  else rest

/-- Gives a message, and goes on if it was accepted. -/
def giving (message : ο) (rest : Handler ι ο Outcome) : Handler ι ο Outcome :=
  .onSend message fun
    | .error status => .finish (.error status)
    | .ok () => rest

/-- Goes on with a request, or ends as the requests do. -/
def taken (rest : ι → Handler ι ο Outcome) : Result ι → Handler ι ο Outcome
  | .error status => .finish (.error status)
  | .ok none => .finish (.ok Headers.empty)
  | .ok (some request) => rest request

/-- A result that is no request is how the handler ends. -/
theorem taken_of_last {result : Result ι} (isLast : ∀ request, result ≠ .ok (some request))
    (rest : ι → Handler ι ο Outcome) :
    taken rest result = .finish (result.map fun _ => Headers.empty) := by
  rcases result with status | _ | request
  · rfl
  · rfl
  · exact absurd rfl (isLast request)

/-- Waits for a request and goes on with it; ends when the requests do. -/
def taking (rest : ι → Handler ι ο Outcome) : Handler ι ο Outcome := .onReceive (taken rest)

/-- Answers each request as it comes, of at most a number of requests. It looks whether the call is
over before it waits for a request, or before it gives the answer. -/
def answering (looksFirst : Bool) (answer : ι → ο) : Nat → Handler ι ο Outcome
  | 0 => .finish (.ok Headers.empty)
  | most + 1 =>
    looking looksFirst (taking fun request =>
      looking (!looksFirst) (giving (answer request) (answering looksFirst answer most)))

/-- The handler behind a request. -/
def replying (looksFirst : Bool) (answer : ι → ο) (most : Nat) (request : ι) :
    Handler ι ο Outcome :=
  looking (!looksFirst) (giving (answer request) (answering looksFirst answer most))

end Handler

/-! ## The response -/

/-- The frames that answer the results of a body one by one, given how answers are written: each
request with one message, and the last result with the last frame. -/
def answersTo (wire : WireFormat) (payload : ι → Bytes) : List (Result ι) → List ResponseFrame
  | [] => []
  | .ok (some request) :: results => .message (payload request) :: answersTo wire payload results
  | .ok none :: _ => [.endOfStream wire (.ok Headers.empty)]
  | .error status :: _ => [.endOfStream wire (.error status)]

/-- The results that tell messages. -/
def Inbound.ofMessages (requests : List ι) : List (Result ι) :=
  requests.map fun request => .ok (some request)

/-- Whether results come to an end. -/
def Inbound.isOver : List (Result ι) → Bool
  | [] => false
  | .ok (some _) :: results => isOver results
  | .ok none :: _ | .error _ :: _ => true

/-! ## With a steady caller -/

namespace Exchange

variable [Payload ι] [Payload ο] {exchange : Exchange} {sent : List ResponseFrame}

theorem IsSteady.runStream_looking (steady : exchange.IsSteady sent) (looks : Bool)
    (rest : Handler ι ο Outcome) :
    exchange.runStream (.looking looks rest) = exchange.runStream rest := by
  cases looks with
  | false => rfl
  | true =>
      rw [runStream, Handler.looking, if_pos rfl, run, steady.done?]
      rfl

/-- A message that can be written goes out, and the handler goes on. -/
theorem IsSteady.runStream_giving (steady : exchange.IsSteady sent) {message : ο} {payload : Bytes}
    (written : Payload.encode exchange.wire.codec message = .ok payload)
    (rest : Handler ι ο Outcome) :
    ∃ now outbound, exchange.runStream (.giving message rest) =
        runStream { exchange with now, outbound } rest ∧
      outbound.IsSteady (sent ++ [.message payload]) := by
  have frame : exchange.frameOf message = .ok (.message payload) :=
    frameOf_eq_ok_iff.mpr ⟨payload, written, rfl⟩
  obtain ⟨now, outbound, sends, steadyThen⟩ := steady.sendFrame (.message payload)
  refine ⟨now, outbound, ?_, steadyThen⟩
  rw [runStream, Handler.giving, run, send, frame]
  dsimp only
  rw [sends]
  rfl

theorem runStream_taking_of_message {after : Exchange} {request : ι}
    (given : exchange.receive = (after, some (.ok (some request))))
    (rest : ι → Handler ι ο Outcome) :
    exchange.runStream (.taking rest) = after.runStream (rest request) := by
  rw [runStream, Handler.taking, run, given]
  rfl

theorem runStream_taking_of_last {after : Exchange} {result : Result ι}
    (given : exchange.receive = (after, some result))
    (isLast : ∀ request, result ≠ .ok (some request)) (rest : ι → Handler ι ο Outcome) :
    exchange.runStream (.taking rest) =
      after.conclude (result.map fun _ => Headers.empty) := by
  rw [runStream, Handler.taking, run, given]
  dsimp only
  rw [Handler.taken_of_last isLast]
  rfl

theorem runStream_taking_of_never {after : Exchange}
    (given : (exchange.receive : Exchange × Option (Result ι)) = (after, none))
    (rest : ι → Handler ι ο Outcome) : exchange.runStream (.taking rest) = after := by
  rw [runStream, Handler.taking, run, given]

/-- A call whose body gives results leaves a steady caller with the answers to them. -/
theorem IsSteady.runStream_answering {parts : List BodyPart} {ending : BodyEnding} {held : Bytes}
    {looksFirst : Bool} {answer : ι → ο} {payload : ι → Bytes} {most : Nat}
    (steady : exchange.IsSteady sent)
    (state : exchange.inbound = midway parts ending held)
    (writes : ∀ request,
      Payload.encode exchange.wire.codec (answer request) = .ok (payload request))
    (enough : (held ++ parts.flatMap octetsOf).length < most) :
    let results := parse exchange.wire.codec ending (held ++ parts.flatMap octetsOf)
    let outbound := (exchange.runStream (.answering looksFirst answer most)).outbound
    outbound.received = sent ++ answersTo exchange.wire payload results ∧
      outbound.endedAt.isSome = isOver results := by
  induction most generalizing exchange sent parts held with
  | zero => exact absurd enough (Nat.not_lt_zero _)
  | succ most inductionHypothesis =>
      intro results outbound
      have gets := gets_receive (ι := ι) state (steady.isOpenAt _) fun _ => steady.unending
      generalize asked : (exchange.receive : Exchange × Option (Result ι)) = outcome at gets
      simp only [outbound, Handler.answering, steady.runStream_looking]
      cases gets with
      | never silence goesOn acts =>
          have steadyThen := steady.outbound.goesOn goesOn
          rw [runStream_taking_of_never asked, acts, steadyThen.received]
          simp only [results, parse_of_silence silence]
          exact ⟨(List.append_nil sent).symm, by rw [(steadyThen.advance none).notEnded]; rfl⟩
      | @last now outbound inbound result heard found isLast _ goesOn =>
          have steadyThen : ({ exchange with now, inbound, outbound } : Exchange).IsSteady sent :=
            ⟨steady.outbound.goesOn goesOn, steady.unending⟩
          obtain ⟨received, ended⟩ :=
            conclude_of_steady steadyThen.outbound (result.map fun _ => Headers.empty)
          rw [runStream_taking_of_last asked isLast, received]
          simp only [results, parse_of_last heard found isLast, ended]
          match result, isLast with
          | .ok none, _ | .error status, _ => exact ⟨rfl, rfl⟩
          | .ok (some request), isLast => exact absurd rfl (isLast request)
      | @message now outbound left behind request heard found goesOn _ =>
          have steadyThen : ({ exchange with now, inbound := midway left ending behind, outbound } :
              Exchange).IsSteady sent := ⟨steady.outbound.goesOn goesOn, steady.unending⟩
          have shorter := first_length_lt found
          rw [runStream_taking_of_message asked, steadyThen.runStream_looking]
          obtain ⟨later, outbound, gives, steadyLast⟩ :=
            steadyThen.runStream_giving (writes request) (.answering looksFirst answer most)
          rw [gives]
          simp only [results, parse_of_message heard found, answersTo, isOver]
          have rest := @inductionHypothesis
            { exchange with now := later, inbound := midway left ending behind, outbound } _ _ _
            ⟨steadyLast, steady.unending⟩ rfl writes (by omega)
          simpa only [List.append_assoc, List.singleton_append] using rest

end Exchange

/-! ## In every order -/

namespace Streaming

section Requests

variable [Payload ι]

/-- What a move brings to a handler that waits for a message. -/
def bringsNow (call : Streaming ι ο) : Move ι → List (Result ι)
  | .bring result _ =>
    match call.stage with
    | .receiving _ => [result]
    | _ => []
  | _ => []

/-- A move that neither ends the call nor makes its request up: a wait for a message ends with what
asking for one gives. -/
def Allows (call : Streaming ι ο) : Move ι → Prop
  | .bring result inbound =>
    call.exchange.inbound.ask call.exchange.wire.codec = some (result, inbound)
  | move => move.isPatient = true

variable [Payload ο]

/-- All that moves bring to the handler, in order. -/
def brought (call : Streaming ι ο) : List (Move ι) → List (Result ι)
  | [] => []
  | move :: moves => call.bringsNow move ++ (call.step move).brought moves

/-- Nothing ends the call, and its handler is brought what the request holds. -/
def IsFed (call : Streaming ι ο) : List (Move ι) → Prop
  | [] => True
  | move :: moves => call.Allows move ∧ (call.step move).IsFed moves

end Requests

/-- Where a task stands that answers each request as it comes, with the request that it has not yet
handed an answer over for. It is prepared for more requests than there are octets left. -/
inductive Stands (looksFirst : Bool) (answer : ι → ο) (payload : ι → Bytes) (size : Nat) :
    Option ι → Stage ι ο → Prop
  | asking {most : Nat} (enough : size < most) :
      Stands looksFirst answer payload size none (.going (.answering looksFirst answer most))
  | taking {most : Nat} (enough : size ≤ most) :
      Stands looksFirst answer payload size none
        (.going (.taking (.replying looksFirst answer most)))
  | receiving {most : Nat} (enough : size ≤ most) :
      Stands looksFirst answer payload size none
        (.receiving (.taken (.replying looksFirst answer most)))
  | replying {most : Nat} (enough : size < most) (request : ι) :
      Stands looksFirst answer payload size (some request)
        (.going (.replying looksFirst answer most request))
  | giving {most : Nat} (enough : size < most) (request : ι) :
      Stands looksFirst answer payload size (some request)
        (.going (.giving (answer request) (.answering looksFirst answer most)))
  | placing {most : Nat} (enough : size < most) (request : ι) {pending : Pending ι ο}
      {looked : Bool} (goesOn : pending.next (.ok ()) = .answering looksFirst answer most) :
      Stands looksFirst answer payload size (some request)
        (.placing (.message (payload request)) pending looked)

variable [Payload ο] {call : Streaming ι ο} {looksFirst : Bool} {answer : ι → ο}
  {payload : ι → Bytes} {size : Nat} {held : Option ι}

theorem begin_of_written {message : ο} {octets : Bytes} {pending : Pending ι ο}
    (written : Payload.encode call.exchange.wire.codec message = .ok octets)
    (isMessage : pending.message = message) (notFinal : pending.isFinal = false) :
    call.begin pending = { call with stage := .placing (.message octets) pending false } := by
  have frame : call.exchange.frameOf pending.message = .ok (.message octets) :=
    Exchange.frameOf_eq_ok_iff.mpr ⟨octets, isMessage.symm ▸ written, rfl⟩
  rw [begin, frame]
  simp only [notFinal, Bool.false_eq_true, if_false]

/-- The answer to a request that is held begins to wait for room. -/
theorem Stands.go_of_giving {most : Nat} (enough : size < most) (request : ι)
    (writes : Payload.encode call.exchange.wire.codec (answer request) = .ok (payload request))
    (stage : call.stage =
      .going (.giving (answer request) (.answering looksFirst answer most))) :
    Stands looksFirst answer payload size (some request) call.go.stage ∧
      call.go.contents = call.contents := by
  rw [Streaming.go, stage]
  dsimp only [Handler.giving, proceed]
  rw [begin_of_written writes rfl rfl]
  exact ⟨.placing enough request rfl, rfl⟩

/-- A task that answers requests either keeps the request that it holds, or hands over the answer to
it. -/
theorem Stands.go (isOpen : call.exchange.IsOpen)
    (writes : ∀ request,
      Payload.encode call.exchange.wire.codec (answer request) = .ok (payload request))
    (stands : Stands looksFirst answer payload size held call.stage) :
    Stands looksFirst answer payload size held call.go.stage ∧
        call.go.contents = call.contents ∨
      ∃ request, held = some request ∧
        Stands looksFirst answer payload size none call.go.stage ∧
        call.go.contents = call.contents ++ [.message (payload request)] := by
  have isDone := isOpen.done?
  generalize stage : call.stage = current at stands
  cases stands with
  | @asking most enough =>
      obtain ⟨less, rfl⟩ := Nat.exists_eq_add_of_lt (Nat.zero_lt_of_lt enough)
      rw [Nat.zero_add] at stage enough
      left
      rw [Streaming.go, stage]
      cases looksFirst with
      | true =>
          dsimp only [Handler.answering, Handler.looking, proceed, if_pos]
          rw [isDone]
          exact ⟨.taking (Nat.le_of_lt_succ enough), rfl⟩
      | false => exact ⟨.receiving (Nat.le_of_lt_succ enough), rfl⟩
  | taking enough =>
      left
      rw [Streaming.go, stage]
      exact ⟨.receiving enough, rfl⟩
  | receiving enough =>
      left
      rw [Streaming.go, stage]
      exact ⟨stage.symm ▸ .receiving enough, rfl⟩
  | replying enough request =>
      left
      cases looksFirst with
      | true => exact go_of_giving enough request (writes request) stage
      | false =>
          rw [Streaming.go, stage]
          dsimp only [Handler.replying, Handler.looking, Bool.not_false, proceed, if_pos]
          rw [isDone]
          exact ⟨.giving enough request, rfl⟩
  | giving enough request => exact .inl (go_of_giving enough request (writes request) stage)
  | @placing most enough request pending looked goesOn =>
      rw [Streaming.go, stage]
      cases looked with
      | false =>
          left
          dsimp only
          rw [isDone]
          exact ⟨.placing enough request goesOn, rfl⟩
      | true =>
          dsimp only
          rcases call.exchange.offer_cases (.message (payload request)) with
            ⟨isGone, _⟩ | ⟨_, _, offer⟩ | ⟨_, _, offer⟩
          · exact absurd (isOpen.stays.symm.trans isGone) Bool.false_ne_true
          · right
            rw [offer]
            refine ⟨request, rfl, ?_, contents_put call _⟩
            change Stands _ _ _ _ _ (.going (pending.next (.ok ())))
            rw [goesOn]
            exact .asking enough
          · left
            rw [offer]
            exact ⟨.placing enough request goesOn, rfl⟩

/-- How far a call is that answers the results of its body, when some of them were brought. -/
inductive Serves [Payload ι] (looksFirst : Bool) (answer : ι → ο) (payload : ι → Bytes)
    (wire : WireFormat) (results brought : List (Result ι)) (call : Streaming ι ο) : Prop
  /-- The answers to all requests that were brought are handed over, but perhaps for one. -/
  | serving {handed : List ι} {held : Option ι} {parts : List BodyPart} {ending : BodyEnding}
      {behind : Bytes} (state : call.exchange.inbound = midway parts ending behind)
      (came : brought = ofMessages (handed ++ held.toList))
      (left : results = brought ++ parse wire.codec ending (behind ++ parts.flatMap octetsOf))
      (stands : Stands looksFirst answer payload (behind ++ parts.flatMap octetsOf).length held
        call.stage)
      (put : call.contents = handed.map fun request => .message (payload request))
  /-- The answers to all requests are handed over, and the call ends as they do. -/
  | ending {handed : List ι} {last : Result ι} {steps : Nat}
      (isLast : ∀ request, last ≠ .ok (some request))
      (came : brought = ofMessages handed ++ [last]) (whole : results = brought)
      (ends : Ends wire (handed.map fun request => .message (payload request))
        (last.map fun _ => Headers.empty) steps call.stage call.contents)

section Serves

variable [Payload ι] {wire : WireFormat} {results broughtBefore : List (Result ι)}

/-- A step of the task hands over the answer to at most one request. -/
theorem Serves.go (isOpen : call.exchange.InFormat Exchange.IsOpen wire)
    (writes : ∀ request, Payload.encode wire.codec (answer request) = .ok (payload request))
    (serves : Serves looksFirst answer payload wire results broughtBefore call) :
    Serves looksFirst answer payload wire results broughtBefore call.go := by
  obtain ⟨isOpen, rfl⟩ := isOpen
  have sameInbound : call.go.exchange.inbound = call.exchange.inbound := by
    obtain ⟨outbound, same, _⟩ := exchange_go call
    rw [same]
  cases serves with
  | @serving handed held parts ending behind state came left stands put =>
      rcases stands.go isOpen writes with ⟨standsThen, same⟩ | ⟨request, rfl, standsThen, putThen⟩
      · exact .serving (sameInbound.trans state) came left standsThen (same.trans put)
      · have cameThen : broughtBefore = ofMessages (handed ++ [request] ++ none.toList) :=
          came.trans (congrArg ofMessages (List.append_nil _).symm)
        refine .serving (sameInbound.trans state) cameThen left standsThen ?_
        rw [putThen, put, List.map_append]
        rfl
  | ending isLast came whole ends =>
      rcases ends.go_cases rfl isOpen.stays with endsThen | ⟨_, endsThen⟩
      · exact .ending isLast came whole endsThen
      · exact .ending isLast came whole endsThen

omit [Payload ι] in
/-- What is brought to a task that waits lets it go on. -/
theorem bring_of_waiting {next : Result ι → Handler ι ο Outcome}
    (waits : call.stage = .receiving next) (result : Result ι) (inbound : Inbound) :
    call.bringsNow (.bring result inbound) = [result] ∧
      call.step (.bring result inbound) =
        { call with
          exchange := { call.exchange with inbound }, stage := .going (next result) } := by
  constructor
  · rw [bringsNow, waits]
  · rw [step, waits]

omit [Payload ι] in
/-- Nothing is brought to a task that does not wait. -/
theorem bring_of_not_waiting (notWaiting : ¬ ∃ next, call.stage = .receiving next)
    (result : Result ι) (inbound : Inbound) :
    call.bringsNow (.bring result inbound) = [] ∧
      call.step (.bring result inbound) = call := by
  constructor
  · rw [bringsNow]
    split
    · exact absurd ⟨_, ‹_›⟩ notWaiting
    · rfl
  · rw [step]
    split
    · exact absurd ⟨_, ‹_›⟩ notWaiting
    · rfl

/-- What is brought to a task that waits is the next of the results that are left. -/
theorem Serves.bring {result : Result ι} {inbound : Inbound}
    (sameWire : call.exchange.wire = wire)
    (asked : call.exchange.inbound.ask call.exchange.wire.codec = some (result, inbound))
    (serves : Serves looksFirst answer payload wire results broughtBefore call) :
    Serves looksFirst answer payload wire results
      (broughtBefore ++ call.bringsNow (.bring result inbound))
      (call.step (.bring result inbound)) := by
  subst sameWire
  by_cases waits : ∃ next, call.stage = .receiving next
  · obtain ⟨next, stage⟩ := waits
    obtain ⟨brings, steps⟩ := bring_of_waiting stage result inbound
    cases serves with
    | @serving handed held parts ending behind state came left stands put =>
        rw [stage] at stands
        cases stands with
        | @receiving most enough =>
            have tells := tells_ask (ι := ι) call.exchange.wire.codec parts ending behind
            rw [← state, asked] at tells
            rw [brings, steps]
            cases tells with
            | @message later behindThen request heard found =>
                have shorter := first_length_lt found
                have cameThen : broughtBefore ++ [.ok (some request)] =
                    ofMessages (handed ++ (some request).toList) := by
                  rw [came]
                  simp [ofMessages]
                refine .serving rfl cameThen ?_ (.replying (by omega) request) put
                rw [left, parse_of_message heard found, List.append_assoc]
                rfl
            | last heard found isLast _ =>
                have cameThen : broughtBefore ++ [result] = ofMessages handed ++ [result] := by
                  rw [came]
                  simp
                rw [parse_of_last heard found isLast] at left
                have ends : Ends call.exchange.wire
                    (handed.map fun request => .message (payload request))
                    (result.map fun _ => Headers.empty) 3
                    (.going (.finish (result.map fun _ => Headers.empty)) : Stage ι ο)
                    call.contents := put ▸ .finishing
                rw [Handler.taken_of_last isLast]
                exact .ending isLast cameThen left ends
    | ending isLast came whole ends =>
        rw [stage] at ends
        cases ends
  · obtain ⟨brings, steps⟩ := bring_of_not_waiting waits result inbound
    rw [brings, steps, List.append_nil]
    exact serves

omit [Payload ο] in
/-- What neither touches the request nor the task nor puts a frame in changes nothing. -/
theorem Serves.of_same {after : Streaming ι ο}
    (serves : Serves looksFirst answer payload wire results broughtBefore call)
    (sameInbound : after.exchange.inbound = call.exchange.inbound)
    (sameStage : after.stage = call.stage) (sameContents : after.contents = call.contents) :
    Serves looksFirst answer payload wire results broughtBefore after := by
  cases serves with
  | serving state came left stands put =>
      exact .serving (sameInbound.trans state) came left (sameStage ▸ stands)
        (sameContents.trans put)
  | ending isLast came whole ends =>
      rw [← sameStage, ← sameContents] at ends
      exact .ending isLast came whole ends

theorem Serves.step {move : Move ι} (isOpen : call.exchange.InFormat Exchange.IsOpen wire)
    (writes : ∀ request, Payload.encode wire.codec (answer request) = .ok (payload request))
    (allowed : call.Allows move)
    (serves : Serves looksFirst answer payload wire results broughtBefore call) :
    Serves looksFirst answer payload wire results (broughtBefore ++ call.bringsNow move)
        (call.step move) ∧
      (call.step move).exchange.InFormat Exchange.IsOpen wire := by
  have patient (isPatient : move.isPatient = true) :
      (call.step move).exchange.InFormat Exchange.IsOpen wire :=
    isOpen.of_patient Exchange.IsOpen.of_patient (patient_step isPatient)
  have bringsNothing (serves : Serves looksFirst answer payload wire results broughtBefore
      (call.step move)) :
      Serves looksFirst answer payload wire results (broughtBefore ++ []) (call.step move) := by
    rwa [List.append_nil]
  cases move with
  | bring result inbound =>
      refine ⟨serves.bring isOpen.2 allowed, ?_⟩
      obtain ⟨isOpen, rfl⟩ := isOpen
      rw [Streaming.step]
      split
      · exact ⟨⟨isOpen.deadline, isOpen.notCancelled, isOpen.notDraining, isOpen.stays⟩, rfl⟩
      · exact ⟨isOpen, rfl⟩
  | go => exact ⟨bringsNothing (serves.go isOpen writes), patient rfl⟩
  | pass millis => exact ⟨bringsNothing (serves.of_same rfl rfl rfl), patient rfl⟩
  | read =>
      have same := (@stage_step _ _ _ call .read rfl rfl).2
      exact ⟨bringsNothing (serves.of_same rfl rfl same), patient rfl⟩
  | cancel | drain | drop => cases allowed

theorem Serves.run {moves : List (Move ι)} (isOpen : call.exchange.InFormat Exchange.IsOpen wire)
    (writes : ∀ request, Payload.encode wire.codec (answer request) = .ok (payload request))
    (fed : call.IsFed moves)
    (serves : Serves looksFirst answer payload wire results broughtBefore call) :
    Serves looksFirst answer payload wire results (broughtBefore ++ call.brought moves)
        (call.run moves) ∧
      (call.run moves).exchange.InFormat Exchange.IsOpen wire := by
  induction moves generalizing call broughtBefore with
  | nil =>
      rw [brought, List.append_nil]
      exact ⟨serves, isOpen⟩
  | cons move moves inductionHypothesis =>
      obtain ⟨allowed, fedThen⟩ := fed
      obtain ⟨servesThen, isOpenThen⟩ := serves.step isOpen writes allowed
      rw [brought, ← List.append_assoc]
      exact inductionHypothesis isOpenThen fedThen servesThen

/-! ## What the caller gets -/

omit [Payload ι] in
theorem answersTo_ofMessages (wire : WireFormat) (payload : ι → Bytes) (requests : List ι)
    (results : List (Result ι)) :
    answersTo wire payload (ofMessages requests ++ results) =
      (requests.map fun request => .message (payload request)) ++
        answersTo wire payload results := by
  induction requests with
  | nil => rfl
  | cons request requests inductionHypothesis => exact congrArg (_ :: ·) inductionHypothesis

omit [Payload ι] in
theorem isOver_ofMessages (requests : List ι) (results : List (Result ι)) :
    isOver (ofMessages requests ++ results) = isOver results := by
  induction requests with
  | nil => rfl
  | cons request requests inductionHypothesis => exact inductionHypothesis

omit [Payload ι] in
theorem filterMap_ofMessages (requests : List ι) :
    (ofMessages requests).filterMap (fun result => result.toOption.join) = requests := by
  induction requests with
  | nil => rfl
  | cons request requests inductionHypothesis => exact congrArg (_ :: ·) inductionHypothesis

/-- What has become of the results that were brought, and what the caller has. -/
structure AnswersInOrder (payload : ι → Bytes) (results brought : List (Result ι))
    (call : Streaming ι ο) : Prop where
  /-- The handler takes the results in order. -/
  brings : brought <+: results
  /-- The answers to all requests that the handler took, but perhaps to the last one, are put in. -/
  hands : ∃ (handed : List ι) (held : Option ι),
    brought.filterMap (fun result => result.toOption.join) = handed ++ held.toList ∧
      (handed.map fun request => .message (payload request)) <+: call.contents
  /-- Nothing is put in but the answers to the results, in order. -/
  puts : call.contents <+: answersTo call.exchange.wire payload results
  /-- The caller takes the first of what was put in, and all at the end of the body. -/
  takes : call.exchange.outbound.received <+: answersTo call.exchange.wire payload results
  takesAll : call.exchange.outbound.endedAt.isSome → isOver results = true ∧
    call.exchange.outbound.received = answersTo call.exchange.wire payload results

omit [Payload ι] [Payload ο] in
theorem Stands.accounts {response frames : List ResponseFrame} {stage : Stage ι ο}
    (stands : Stands looksFirst answer payload size held stage) (isFront : frames <+: response) :
    Accounts response 1 stage frames := by
  refine ⟨isFront, fun ends => ?_, fun done => nomatch done⟩
  rcases ends with rfl | rfl <;> cases stands

theorem Serves.answersInOrder (orderly : call.Orderly) (sameWire : call.exchange.wire = wire)
    (serves : Serves looksFirst answer payload wire results broughtBefore call) :
    AnswersInOrder payload results broughtBefore call := by
  subst sameWire
  cases serves with
  | @serving handed held parts ending behind state came left stands put =>
      have isFront : call.contents <+: answersTo call.exchange.wire payload results := by
        rw [left, came, put, answersTo_ofMessages, List.map_append, List.append_assoc]
        exact List.prefix_append _ _
      have accounts := stands.accounts isFront
      obtain ⟨takes, _⟩ := orderly.received_of_accounts accounts
      refine ⟨left ▸ List.prefix_append _ _, ⟨handed, held, ?_, put ▸ List.prefix_rfl⟩, isFront,
        takes, fun ends => ?_⟩
      · rw [came, filterMap_ofMessages]
      · have stage := orderly.stage_of_placed (orderly.ended ends).2
        rcases stage with stage | stage <;> rw [stage] at stands <;> cases stands
  | @ending handed last steps isLast came whole ends =>
      have response : answersTo call.exchange.wire payload results =
          (handed.map fun request => .message (payload request)) ++
            [.endOfStream call.exchange.wire (last.map fun _ => Headers.empty)] := by
        rw [whole, came, answersTo_ofMessages]
        match last, isLast with
        | .ok none, _ | .error status, _ => rfl
        | .ok (some request), isLast => exact absurd rfl (isLast request)
      have isEnd : isOver results = true := by
        rw [whole, came, isOver_ofMessages]
        match last, isLast with
        | .ok none, _ | .error status, _ => rfl
        | .ok (some request), isLast => exact absurd rfl (isLast request)
      have accounts := ends.accounts
      rw [← response] at accounts
      obtain ⟨takes, takesAll⟩ := orderly.received_of_accounts accounts
      refine ⟨whole ▸ List.prefix_rfl, ⟨handed, none, ?_, ends.isFront⟩, accounts.isFront,
        takes, fun ended => ⟨isEnd, takesAll ended⟩⟩
      rw [came, List.filterMap_append, filterMap_ofMessages]
      match last, isLast with
      | .ok none, _ | .error status, _ => rfl
      | .ok (some request), isLast => exact absurd rfl (isLast request)

/-- A call that answers each request as it comes does so in every order of the steps of its task
with time and with the acts of a caller that reads. -/
theorem answersInOrder_run {exchange : Exchange} {parts : List BodyPart} {ending : BodyEnding}
    {behind : Bytes} {most : Nat} {moves : List (Move ι)} (caller : Caller)
    (state : exchange.inbound = midway parts ending behind)
    (unending : exchange.cancellation = .never) (notDraining : exchange.drainAt = none)
    (writes : ∀ request,
      Payload.encode exchange.wire.codec (answer request) = .ok (payload request))
    (enough : (behind ++ parts.flatMap octetsOf).length < most)
    (fed : (start exchange caller (.answering looksFirst answer most)).IsFed moves) :
    let call := start exchange caller (.answering looksFirst answer most)
    AnswersInOrder payload (parse exchange.wire.codec ending (behind ++ parts.flatMap octetsOf))
      (call.brought moves) (call.run moves) := by
  intro call
  have isOpen : call.exchange.InFormat Exchange.IsOpen exchange.wire := by
    refine ⟨⟨?_, ?_, notDraining, ?_⟩, rfl⟩
    · exact congrArg Cancellation.deadline unending
    · exact congrArg Cancellation.cancelledAt unending
    · have stays := Caller.next_ne_gone caller exchange.now
      exact decide_eq_false stays
  have serves : Serves looksFirst answer payload exchange.wire
      (parse exchange.wire.codec ending (behind ++ parts.flatMap octetsOf)) [] call := by
    have nothing : ([] : List (Result ι)) = ofMessages ([] ++ (none : Option ι).toList) := rfl
    exact .serving state nothing rfl (.asking enough) rfl
  obtain ⟨servesThen, _, sameWire⟩ := serves.run isOpen writes fed
  rw [List.nil_append] at servesThen
  exact servesThen.answersInOrder ((orderly_start _ _ _).run moves) sameWire

end Serves

end Streaming

end RpcEcho
