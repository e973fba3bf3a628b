import RpcEcho.Proofs.Call.Arbitration
import RpcEcho.Proofs.Request.Single

/-!
# What a limit makes of a call

A call whose time is limited does what it would do without a limit, until the timer of the limit
fires; whatever it waits for then, it fails then. `Exchange.HeedsLimit` says so of a part of a call,
and holds of two parts one behind the other if it holds of both. So it holds of reading a request.

Without a limit the only message of a request is read when the end of the body comes.

* `Exchange.CutsOff`: what a limit makes of the outcome of a part.
* `Exchange.heedsLimit_readSingle`: reading the only message of a request.
* `Exchange.readSingle_of_free`: the message, and when it is read.
-/

namespace RpcEcho

open Inbound RequestBody Cancellation

namespace Exchange

variable {ι α β : Type} {exchange : Exchange} {nanos : Nat}

/-! ## Limits -/

/-- Nobody listens to the call yet, and nothing ever ends it. -/
structure IsFree (exchange : Exchange) : Prop where
  unheard : exchange.outbound = Outbound.unheard
  never : exchange.cancellation = .never

/-- The call with a limit to its time. -/
def limited (exchange : Exchange) (nanos : Nat) : Exchange :=
  { exchange with cancellation := ⟨none, some nanos⟩ }

/-- A part of a call, which leaves the call behind and gives something, or fails. -/
abbrev Part (α : Type) := Exchange → Exchange × Option (Except Status α)

/-- One part of a call behind another, unless the first one fails. -/
def andThen (first : Part α) (next : α → Part β) : Part β := fun exchange =>
  match first exchange with
  | (after, none) => (after, none)
  | (after, some (.error status)) => (after, some (.error status))
  | (after, some (.ok value)) => next value after

/-- What a limit makes of a part of a free call: nothing if the part is over before the timer of the
limit fires, and else a failure when the timer fires. -/
inductive CutsOff (nanos : Nat) :
    Exchange × Option (Except Status α) → Exchange × Option (Except Status α) → Prop
  | inTime {after : Exchange} {result : Except Status α} (isFree : after.IsFree)
      (sooner : after.now < firstMilli nanos) :
      CutsOff nanos (after, some result) (after.limited nanos, some result)
  | late {free : Exchange × Option (Except Status α)} {left : Exchange}
      (isLate : ∀ result, free.2 = some result → firstMilli nanos ≤ free.1.now)
      (fires : left.now = firstMilli nanos) :
      CutsOff nanos free (left, some (.error Done.deadlineExceeded.status))

/-- A part of a call takes its time, and a limit cuts it off. -/
structure HeedsLimit (part : Part α) : Prop where
  goesOn : ∀ exchange, exchange.IsFree →
    (part exchange).1.IsFree ∧ exchange.now ≤ (part exchange).1.now
  cutsOff : ∀ exchange nanos, exchange.IsFree → exchange.now < firstMilli nanos →
    CutsOff nanos (part exchange) (part (exchange.limited nanos))

/-- A part that only computes takes no time. -/
theorem heedsLimit_result (result : Except Status α) :
    HeedsLimit fun exchange => (exchange, some result) where
  goesOn _ isFree := ⟨isFree, Nat.le_refl _⟩
  cutsOff _ _ isFree sooner := .inTime isFree sooner

theorem HeedsLimit.andThen {first : Part α} {next : α → Part β} (heedsFirst : HeedsLimit first)
    (heedsNext : ∀ value, HeedsLimit (next value)) : HeedsLimit (andThen first next) where
  goesOn exchange isFree := by
    have goesOn := heedsFirst.goesOn exchange isFree
    unfold Exchange.andThen
    generalize first exchange = done at goesOn ⊢
    obtain ⟨after, _ | status | value⟩ := done
    · exact goesOn
    · exact goesOn
    · obtain ⟨freeLast, last⟩ := (heedsNext value).goesOn after goesOn.1
      exact ⟨freeLast, Nat.le_trans goesOn.2 last⟩
  cutsOff exchange nanos isFree sooner := by
    have goesOn := heedsFirst.goesOn exchange isFree
    have cutsOff := heedsFirst.cutsOff exchange nanos isFree sooner
    unfold Exchange.andThen
    generalize first exchange = free at goesOn cutsOff
    generalize first (exchange.limited nanos) = cut at cutsOff
    cases cutsOff with
    | @inTime after result isFree sooner =>
        cases result with
        | error status => exact .inTime isFree sooner
        | ok value => exact (heedsNext value).cutsOff after nanos isFree sooner
    | late isLate fires =>
        refine .late (fun result isResult => ?_) fires
        obtain ⟨after, _ | status | value⟩ := free
        · cases isResult
        · exact isLate _ rfl
        · exact Nat.le_trans (isLate _ rfl) ((heedsNext value).goesOn after goesOn.1).2

/-! ## Waits -/

theorem race_of_free (isFree : exchange.IsFree) (ready : Option Nat) :
    exchange.race ready =
      match ready with
      | none => (exchange, none)
      | some readyAt => ({ exchange with now := max exchange.now readyAt }, some (.ok ())) := by
  rw [race_of_unheard_eq isFree.unheard, isFree.never]
  cases ready <;> rfl

/-- A wait under a limit comes to its end, or the timer of the limit fires before or just then. -/
theorem race_limited (isFree : exchange.IsFree) (sooner : exchange.now < firstMilli nanos)
    (ready : Option Nat) :
    (∃ readyAt, ready = some readyAt ∧ max exchange.now readyAt < firstMilli nanos ∧
      (exchange.limited nanos).race ready =
        ({ exchange with now := max exchange.now readyAt }.limited nanos, some (.ok ()))) ∨
      (∀ readyAt, ready = some readyAt → firstMilli nanos ≤ max exchange.now readyAt) ∧
        (exchange.limited nanos).race ready =
          ({ exchange with now := firstMilli nanos }.limited nanos,
            some (.error .deadlineExceeded)) := by
  have unheard : (exchange.limited nanos).outbound = Outbound.unheard := isFree.unheard
  have raced := race_of_unheard_eq unheard ready
  by_cases inTime : ∃ readyAt, ready = some readyAt ∧ max exchange.now readyAt < firstMilli nanos
  · obtain ⟨readyAt, isReady, before⟩ := inTime
    have isOpen : Cancellation.check ⟨none, some nanos⟩ (max exchange.now readyAt) = none := by
      refine check_eq_none_iff.mpr ⟨fun _ planned => (nomatch planned), fun _ limited => ?_⟩
      cases limited
      exact lt_firstMilli_iff.mp before
    have ends : (exchange.limited nanos).cancellation.race (exchange.limited nanos).now ready =
        some (max exchange.now readyAt, .ok ()) :=
      race_eq_ready_iff.mpr ⟨⟨readyAt, isReady, rfl⟩, isOpen⟩
    rw [ends] at raced
    exact .inl ⟨readyAt, isReady, before, raced⟩
  · have later : ∀ readyAt, ready = some readyAt →
        firstMilli nanos ≤ max exchange.now readyAt := fun readyAt isReady =>
      Nat.not_lt.mp fun before => inTime ⟨readyAt, isReady, before⟩
    have ends : (exchange.limited nanos).cancellation.race (exchange.limited nanos).now ready =
        some (firstMilli nanos, .error .deadlineExceeded) :=
      race_eq_late_iff.mpr ⟨⟨nanos, rfl, (Nat.max_eq_right (Nat.le_of_lt sooner)).symm⟩,
        fun _ planned => (nomatch planned), later⟩
    rw [ends] at raced
    exact .inr ⟨later, raced⟩

/-- Waits for something that comes at a time. -/
def waitFor (ready : Exchange → Option Nat) : Part Unit := fun exchange =>
  match exchange.race (ready exchange) with
  | (after, none) => (after, none)
  | (after, some result) => (after, some (result.mapError Done.status))

theorem heedsLimit_waitFor {ready : Exchange → Option Nat}
    (same : ∀ exchange nanos, ready (limited exchange nanos) = ready exchange) :
    HeedsLimit (waitFor ready) where
  goesOn exchange isFree := by
    rw [waitFor, race_of_free isFree]
    cases ready exchange with
    | none => exact ⟨isFree, Nat.le_refl _⟩
    | some readyAt => exact ⟨⟨isFree.unheard, isFree.never⟩, Nat.le_max_left _ _⟩
  cutsOff exchange nanos isFree sooner := by
    rw [waitFor, waitFor, same, race_of_free isFree]
    rcases race_limited isFree sooner (ready exchange) with
      ⟨readyAt, isReady, before, raced⟩ | ⟨later, raced⟩
    · rw [isReady] at raced ⊢
      rw [raced]
      exact .inTime ⟨isFree.unheard, isFree.never⟩ before
    · rw [raced]
      refine .late (fun result isResult => ?_) rfl
      cases isReady : ready exchange with
      | none =>
          rw [isReady] at isResult
          cases isResult
      | some readyAt => exact later readyAt isReady

/-! ## Reading -/

/-- A part that changes nothing but what is read of the body takes no time. -/
theorem heedsLimit_put (inbound : Exchange → Inbound) (result : Exchange → Except Status α)
    (sameInbound : ∀ exchange nanos, inbound (limited exchange nanos) = inbound exchange)
    (sameResult : ∀ exchange nanos, result (limited exchange nanos) = result exchange) :
    HeedsLimit fun exchange =>
      ({ exchange with inbound := inbound exchange }, some (result exchange)) where
  goesOn _ isFree := ⟨⟨isFree.unheard, isFree.never⟩, Nat.le_refl _⟩
  cutsOff exchange nanos isFree sooner := by
    rw [sameInbound, sameResult]
    exact .inTime ⟨isFree.unheard, isFree.never⟩ sooner

/-- A limit has no say in what a call does next if the call does not look at it. -/
theorem HeedsLimit.choose (choice : Exchange → Part α)
    (same : ∀ exchange nanos, choice (limited exchange nanos) = choice exchange)
    (heeds : ∀ exchange, HeedsLimit (choice exchange)) :
    HeedsLimit fun exchange => choice exchange exchange where
  goesOn exchange isFree := (heeds exchange).goesOn exchange isFree
  cutsOff exchange nanos isFree sooner := by
    rw [same]
    exact (heeds exchange).cutsOff exchange nanos isFree sooner

theorem heedsLimit_waitForPart : HeedsLimit (waitFor nextPartAt) :=
  heedsLimit_waitFor fun _ _ => rfl

section Reading

variable [Payload ι]

/-- What a call does when something of the body came that it waited for. -/
def takeNext (parts : List BodyPart) : Part (Option ι) :=
  match parts with
  | [] => fun exchange => (exchange.meetEnd, some exchange.inbound.atEnd)
  | part :: rest => fun exchange => (exchange.takePart part rest).receiveFrom rest

/-- What a call does that waits for the next message, by what it holds of the body. -/
def receiving (parts : List BodyPart) (before : Exchange) : Part (Option ι) :=
  match (before.inbound.buffered? before.wire.codec : Option (Result ι × Inbound)) with
  | some (result, inbound) => fun exchange => ({ exchange with inbound }, some result)
  | none => andThen (waitFor nextPartAt) fun _ => takeNext parts

theorem receiveFrom_eq (exchange : Exchange) (parts : List BodyPart) :
    (exchange.receiveFrom parts : Exchange × Option (Result ι)) =
      receiving parts exchange exchange := by
  unfold receiveFrom receiving
  cases (exchange.inbound.buffered? exchange.wire.codec : Option (Result ι × Inbound)) with
  | some given => rfl
  | none =>
      dsimp only
      rw [andThen, waitFor]
      obtain ⟨after, _ | done | _⟩ := exchange.race exchange.nextPartAt
      · rfl
      · rfl
      · cases parts <;> rfl

theorem heedsLimit_receiveFrom (parts : List BodyPart) :
    HeedsLimit fun exchange => (exchange.receiveFrom parts : Exchange × Option (Result ι)) := by
  have ofNext (parts : List BodyPart) (heedsNext : HeedsLimit (takeNext (ι := ι) parts)) :
      HeedsLimit fun exchange =>
        (exchange.receiveFrom parts : Exchange × Option (Result ι)) := by
    simp only [receiveFrom_eq]
    refine .choose (receiving parts) (fun _ _ => rfl) fun before => ?_
    unfold receiving
    split
    · exact heedsLimit_put _ _ (fun _ _ => rfl) fun _ _ => rfl
    · exact heedsLimit_waitForPart.andThen fun _ => heedsNext
  induction parts with
  | nil =>
      exact ofNext [] (heedsLimit_put (fun exchange => exchange.meetEnd.inbound)
        (fun exchange => exchange.inbound.atEnd) (fun _ _ => rfl) fun _ _ => rfl)
  | cons part parts inductionHypothesis =>
      have takes : HeedsLimit fun exchange => (exchange.takePart part parts, some (.ok ())) :=
        heedsLimit_put (fun exchange => (exchange.takePart part parts).inbound) _ (fun _ _ => rfl)
          fun _ _ => rfl
      exact ofNext (part :: parts) (takes.andThen fun _ => inductionHypothesis)

theorem heedsLimit_receive :
    HeedsLimit fun exchange => (exchange.receive : Exchange × Option (Result ι)) :=
  .choose (fun before exchange => exchange.receiveFrom before.inbound.body.parts)
    (fun _ _ => rfl) fun before => heedsLimit_receiveFrom before.inbound.body.parts

theorem readOnly_eq (exchange : Exchange) :
    (exchange.readOnly : Exchange × Option (Except Status ι)) =
      andThen (fun exchange => (exchange.receive : Exchange × Option (Result ι)))
        (fun
          | none => fun exchange => (exchange, some (.error noMessage))
          | some message =>
            andThen (fun exchange => (exchange.receive : Exchange × Option (Result ι))) fun
              | none => fun exchange => (exchange, some (.ok message))
              | some _ => fun exchange => (exchange, some (.error manyMessages)))
        exchange := by
  unfold readOnly andThen
  dsimp only
  obtain ⟨between, _ | status | _ | message⟩ :=
    (exchange.receive : Exchange × Option (Result ι))
  · rfl
  · rfl
  · rfl
  · dsimp only
    obtain ⟨after, _ | status | _ | other⟩ := (between.receive : Exchange × Option (Result ι))
    all_goals rfl

theorem heedsLimit_readOnly :
    HeedsLimit fun exchange => (exchange.readOnly : Exchange × Option (Except Status ι)) := by
  simp only [readOnly_eq]
  refine heedsLimit_receive.andThen fun first? => ?_
  cases first? with
  | none => exact heedsLimit_result _
  | some message =>
      refine heedsLimit_receive.andThen fun second? => ?_
      cases second? <;> exact heedsLimit_result _

/-- What a call does with a body when something of it came that it waited for. -/
def readNext (read : Bytes) (parts : List BodyPart) : Part Bytes :=
  match parts with
  | [] => fun exchange =>
    match exchange.inbound.body.ending with
    | .broken reason => (exchange, some (.error (brokenOff reason)))
    | .complete | .silent => (exchange, some (.ok read))
  | part :: rest => fun exchange =>
    if Envelope.maxPayload < (read ++ octetsOf part).length then (exchange, some (.error tooLong))
    else { exchange with inbound := exchange.inbound.withParts rest }.readBodyFrom
      (read ++ octetsOf part) rest

theorem readBodyFrom_eq (exchange : Exchange) (read : Bytes) (parts : List BodyPart) :
    exchange.readBodyFrom read parts =
      andThen (waitFor nextPartAt) (fun _ => readNext read parts) exchange := by
  unfold readBodyFrom
  rw [andThen, waitFor]
  obtain ⟨after, _ | done | _⟩ := exchange.race exchange.nextPartAt
  · rfl
  · rfl
  · cases parts <;> rfl

theorem heedsLimit_readBodyFrom (read : Bytes) (parts : List BodyPart) :
    HeedsLimit fun exchange => exchange.readBodyFrom read parts := by
  induction parts generalizing read with
  | nil =>
      simp only [readBodyFrom_eq]
      refine heedsLimit_waitForPart.andThen fun _ => ?_
      refine HeedsLimit.choose (fun before exchange =>
        match before.inbound.body.ending with
        | .broken reason => (exchange, some (.error (brokenOff reason)))
        | .complete | .silent => (exchange, some (.ok read))) (fun _ _ => rfl) fun before => ?_
      cases before.inbound.body.ending <;> exact heedsLimit_result _
  | cons part parts inductionHypothesis =>
      simp only [readBodyFrom_eq]
      refine heedsLimit_waitForPart.andThen fun _ => ?_
      by_cases tooMany : Envelope.maxPayload < (read ++ octetsOf part).length
      · simp only [readNext, tooMany, if_true]
        exact heedsLimit_result _
      · simp only [readNext, tooMany, if_false]
        have takes : HeedsLimit fun exchange =>
            ({ exchange with inbound := exchange.inbound.withParts parts }, some (.ok ())) :=
          heedsLimit_put (fun exchange => exchange.inbound.withParts parts) _ (fun _ _ => rfl)
            fun _ _ => rfl
        exact takes.andThen fun _ => inductionHypothesis (read ++ octetsOf part)

theorem readBody_eq (exchange : Exchange) :
    (exchange.readBody : Exchange × Option (Except Status ι)) =
      andThen (fun exchange => exchange.readBodyFrom [] exchange.inbound.body.parts)
        (fun octets exchange => (exchange, some (Payload.decode exchange.wire.codec octets)))
        exchange := by
  unfold readBody andThen
  dsimp only
  obtain ⟨after, _ | status | octets⟩ :=
    exchange.readBodyFrom [] exchange.inbound.body.parts
  all_goals rfl

theorem heedsLimit_readBody :
    HeedsLimit fun exchange => (exchange.readBody : Exchange × Option (Except Status ι)) := by
  simp only [readBody_eq]
  have reads : HeedsLimit fun exchange =>
      exchange.readBodyFrom [] exchange.inbound.body.parts :=
    .choose (fun before exchange => exchange.readBodyFrom [] before.inbound.body.parts)
      (fun _ _ => rfl) fun before => heedsLimit_readBodyFrom [] before.inbound.body.parts
  refine reads.andThen fun octets => ?_
  exact heedsLimit_put (fun exchange => exchange.inbound)
    (fun exchange => Payload.decode exchange.wire.codec octets) (fun _ _ => rfl) fun _ _ => rfl

/-- Reading the only message of a request is cut off by a limit, whatever the request holds. -/
theorem heedsLimit_readSingle :
    HeedsLimit fun exchange => (exchange.readSingle : Exchange × Option (Except Status ι)) := by
  refine .choose (fun before exchange =>
    if before.wire.isEnveloped then exchange.readOnly else exchange.readBody) (fun _ _ => rfl)
    fun before => ?_
  cases before.wire.isEnveloped with
  | false => exact heedsLimit_readBody
  | true => exact heedsLimit_readOnly

/-! ## Without a limit -/

theorem IsFree.isOpenAt (isFree : exchange.IsFree) (time : Nat) : exchange.IsOpenAt time :=
  ⟨isFree.never ▸ rfl, isFree.unheard ▸ Outbound.stays_unheard⟩

theorem race_nextPartAt_of_free (isFree : exchange.IsFree) {part : BodyPart}
    {parts : List BodyPart} (state : exchange.inbound.body.parts = part :: parts) :
    exchange.race exchange.nextPartAt =
      ({ exchange with now := exchange.now + waitOf part }, some (.ok ())) := by
  rw [nextPartAt_cons state, race_of_free isFree]
  dsimp only
  rw [Nat.max_eq_right (Nat.le_add_right _ _)]

theorem race_end_of_free (isFree : exchange.IsFree)
    (state : exchange.inbound.body = ⟨[], .complete⟩) :
    exchange.race exchange.nextPartAt = (exchange, some (.ok ())) := by
  have comesNow : exchange.nextPartAt = some exchange.now := by rw [nextPartAt, state]
  rw [comesNow, race_of_free isFree]
  dsimp only
  rw [Nat.max_self]

/-- Behind its last octets a body is read to its end. -/
theorem receiveFrom_of_spent {parts : List BodyPart} (isFree : exchange.IsFree)
    (state : exchange.inbound = midway parts .complete [])
    (spent : parts.flatMap octetsOf = []) :
    ∃ after, (exchange.receiveFrom parts : Exchange × Option (Result ι)) =
      (after, some (.ok none)) ∧ after.now = exchange.now + waits parts := by
  induction parts generalizing exchange with
  | nil =>
      have waiting : (exchange.inbound.buffered? exchange.wire.codec :
          Option (Result ι × Inbound)) = none := by
        rw [state]
        rfl
      have raced := race_end_of_free isFree (congrArg Inbound.body state)
      refine ⟨exchange.meetEnd, ?_, rfl⟩
      rw [receiveFrom_nil_of_waiting waiting raced, state]
      rfl
  | cons part parts inductionHypothesis =>
      have waiting : (exchange.inbound.buffered? exchange.wire.codec :
          Option (Result ι × Inbound)) = none := by
        rw [state]
        rfl
      obtain ⟨nothing, spentThen⟩ := List.append_eq_nil_iff.mp spent
      have comes : exchange.inbound.body.parts = part :: parts := by
        rw [state]
        rfl
      let between : Exchange := { exchange with now := exchange.now + waitOf part }
      have nextState : (between.takePart part parts).inbound = midway parts .complete [] := by
        change (exchange.inbound.push (octetsOf part)).withParts parts = _
        rw [state, nothing]
        rfl
      obtain ⟨after, gives, time⟩ := @inductionHypothesis (between.takePart part parts)
        ⟨isFree.unheard, isFree.never⟩ nextState spentThen
      refine ⟨after, ?_, time.trans (Nat.add_assoc _ _ _)⟩
      rw [receiveFrom_cons_of_waiting waiting (race_nextPartAt_of_free isFree comes), gives]

/-- The only envelope of a body is given when the end of the body comes. -/
theorem readOnly_of_free {payload : Bytes} {body : RequestBody} {message : ι}
    (isFree : exchange.IsFree) (fresh : exchange.inbound = Inbound.ofBody body)
    (ends : body.ending = .complete)
    (whole : body.octets = Envelope.wrap payload Flags.message)
    (fits : payload.length ≤ Envelope.maxPayload)
    (decoded : Payload.decode exchange.wire.codec payload = .ok message) :
    ∃ after, exchange.readOnly = (after, some (.ok message)) ∧
      after.now = exchange.now + waits body.parts := by
  have reading : exchange.IsReading .complete (Envelope.wrap payload Flags.message ++ []) := by
    refine ⟨fun silent => (nomatch silent), body.parts, [], ?_, ?_, isFree.isOpenAt _⟩
    · rw [fresh, ← ends]
      rfl
    · rw [List.append_nil, ← whole]
      rfl
  obtain ⟨between, gives, _, _, goesOn⟩ := reading.receive_givesFirst (ι := ι)
  rw [first_wrap fits decoded] at gives goesOn
  obtain ⟨_, parts, held, state, spent, _⟩ := goesOn message rfl
  obtain ⟨rfl, spentThen⟩ := List.append_eq_nil_iff.mp spent.symm
  have freeThen : between.IsFree := by
    have kept := (heedsLimit_receive (ι := ι)).goesOn exchange isFree
    rw [gives] at kept
    exact kept.1
  have time : between.now + waits parts = exchange.now + waits body.parts := by
    have kept := keptBy_receiveFrom isFree.unheard (isFree.isOpenAt _).check rfl gives
    have timeThen := kept.time
    rw [state, fresh] at timeThen
    exact timeThen
  obtain ⟨after, givesNone, timeThen⟩ := receiveFrom_of_spent (ι := ι) freeThen state spentThen
  have last : (between.receive : Exchange × Option (Result ι)) = (after, some (.ok none)) := by
    rw [receive, state]
    exact givesNone
  refine ⟨after, ?_, timeThen.trans time⟩
  rw [readOnly, gives]
  dsimp only
  rw [last]

theorem now_readBodyFrom {parts : List BodyPart} {read octets : Bytes} {after : Exchange}
    (isFree : exchange.IsFree) (state : exchange.inbound.body = ⟨parts, .complete⟩)
    (given : exchange.readBodyFrom read parts = (after, some (.ok octets))) :
    after.now = exchange.now + waits parts := by
  induction parts generalizing exchange read with
  | nil =>
      rw [readBodyFrom, race_end_of_free isFree state] at given
      dsimp only at given
      rw [state] at given
      cases given
      rfl
  | cons part parts inductionHypothesis =>
      have comes : exchange.inbound.body.parts = part :: parts := by rw [state]
      rw [readBodyFrom, race_nextPartAt_of_free isFree comes] at given
      dsimp only at given
      split at given
      · cases given
      · let next : Exchange :=
          { exchange with
            now := exchange.now + waitOf part
            inbound := exchange.inbound.withParts parts }
        have nextState : next.inbound.body = ⟨parts, .complete⟩ := by
          change { exchange.inbound.body with parts } = _
          rw [state]
        exact (@inductionHypothesis next _ ⟨isFree.unheard, isFree.never⟩ nextState given).trans
          (Nat.add_assoc _ _ _)

theorem readBody_of_free {body : RequestBody} {message : ι} (isFree : exchange.IsFree)
    (fresh : exchange.inbound = Inbound.ofBody body) (ends : body.ending = .complete)
    (fits : body.octets.length ≤ Envelope.maxPayload)
    (decoded : Payload.decode exchange.wire.codec body.octets = .ok message) :
    ∃ after, exchange.readBody = (after, some (.ok message)) ∧
      after.now = exchange.now + waits body.parts := by
  obtain ⟨parts, ending⟩ := body
  cases ends
  have state : exchange.inbound.body = ⟨parts, .complete⟩ := by
    rw [fresh]
    rfl
  have empty : ([] : Bytes).length ≤ Envelope.maxPayload := Nat.zero_le _
  obtain ⟨after, sameWire, given⟩ := readBodyFrom_of_open state empty (isFree.isOpenAt _)
  have admitted : ¬ Envelope.maxPayload < (parts.flatMap octetsOf).length := Nat.not_lt.mpr fits
  rw [List.nil_append, if_neg admitted] at given
  refine ⟨after, ?_, now_readBodyFrom isFree state given⟩
  rw [readBody, state, given]
  dsimp only
  rw [sameWire]
  exact congrArg (fun result => (after, some result)) decoded

/-- Without a limit the only message of a request is read when the end of the body comes. -/
theorem readSingle_of_free {payload : Bytes} {body : RequestBody} {message : ι}
    (isFree : exchange.IsFree) (fresh : exchange.inbound = Inbound.ofBody body)
    (ends : body.ending = .complete) (whole : body.octets = exchange.wire.single payload)
    (fits : payload.length ≤ Envelope.maxPayload)
    (decoded : Payload.decode exchange.wire.codec payload = .ok message) :
    ∃ after, exchange.readSingle = (after, some (.ok message)) ∧
      after.now = exchange.now + waits body.parts := by
  rw [WireFormat.single] at whole
  by_cases enveloped : exchange.wire.isEnveloped = true
  · rw [if_pos enveloped] at whole
    rw [readSingle, if_pos enveloped]
    exact readOnly_of_free isFree fresh ends whole fits decoded
  · rw [if_neg enveloped] at whole
    rw [readSingle, if_neg enveloped]
    exact readBody_of_free isFree fresh ends (whole ▸ fits) (whole ▸ decoded)

/-! ## Calls that are over -/

/-- A call that is over before it has read anything fails at once. -/
theorem readSingle_of_over {body : RequestBody} {done : Done}
    (fresh : exchange.inbound = Inbound.ofBody body) (isOver : exchange.done? = some done) :
    (exchange.readSingle : Exchange × Option (Except Status ι)) =
      (exchange, some (.error done.status)) := by
  have waits : waitFor nextPartAt exchange = (exchange, some (.error done.status)) := by
    rw [waitFor, Exchange.race, isOver]
    rfl
  have waiting : (exchange.inbound.buffered? exchange.wire.codec :
      Option (Result ι × Inbound)) = none := by
    rw [fresh]
    rfl
  rw [readSingle]
  split
  case isTrue =>
    rw [readOnly_eq, andThen, receive, receiveFrom_eq, receiving, waiting]
    dsimp only
    rw [andThen, waits]
  case isFalse =>
    rw [readBody_eq, andThen, readBodyFrom_eq, andThen, waits]

end Reading

end Exchange

end RpcEcho
