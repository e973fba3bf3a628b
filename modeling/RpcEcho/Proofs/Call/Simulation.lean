import RpcEcho.Proofs.Call.Delivery

/-!
# A run is one of the orders

`Exchange.runStream` runs the handler of a streaming call beside a caller with a pace of its own.
What the caller then has is what some sequence of moves leads to, so that all that holds of every
sequence of moves holds of the run. Time and the caller move on through `Exchange.hear`, whose acts
are moves one by one; a wait ends where the task, looking again, finds its answer.
-/

namespace RpcEcho

/-! ## The caller, move by move -/

namespace Exchange

/-- The caller does nothing in the past, a caller that waits has taken all, and one that is gone has
cancelled the call. -/
structure IsTimely (exchange : Exchange) : Prop where
  due : exchange.outbound.state.IsFrom exchange.now
  room : exchange.outbound.queue.length ≤ Outbound.capacity
  waiting : exchange.outbound.state = .waiting → exchange.outbound.queue = []
  dropped : ∀ time, exchange.outbound.droppedAt = some time → exchange.outbound.isGone = true ∧
    ∃ cancelledAt, exchange.cancellation.cancelledAt = some cancelledAt ∧ cancelledAt ≤ time

variable {exchange : Exchange}

/-- A call that its caller has heard of all the time hears of nothing new. -/
theorem IsTimely.cancelBy_droppedAt (timely : exchange.IsTimely) :
    exchange.cancellation.cancelBy exchange.outbound.droppedAt = exchange.cancellation := by
  cases dropped : exchange.outbound.droppedAt with
  | none => rfl
  | some time =>
      obtain ⟨_, cancelledAt, planned, sooner⟩ := timely.dropped time dropped
      unfold Cancellation.cancelBy
      split
      case isTrue noLater =>
        simp only [planned, Cancellation.noLater, decide_eq_true_eq] at noLater
        have same : cancelledAt = time := Nat.le_antisymm sooner noLater
        rw [← same, ← planned]
      case isFalse => rfl

/-- The exchange after an act of the caller at a time. -/
def acted (exchange : Exchange) (time : Nat) : Exchange :=
  { exchange with
    now := time
    outbound := exchange.outbound.act
    cancellation := exchange.cancellation.cancelBy exchange.outbound.act.droppedAt }

/-- What the caller and the clock alone can bring about, whatever the task is waiting for and
whatever becomes of the request. -/
def Passes (before after : Exchange) : Prop :=
  ∀ (ι ο : Type) [Payload ο] (call : Streaming ι ο) (inbound : Inbound),
    ∃ moves, ({ call with exchange := { before with inbound } } : Streaming ι ο).run moves =
      { call with exchange := { after with inbound } }

theorem Passes.refl (exchange : Exchange) : exchange.Passes exchange :=
  fun _ _ _ _ _ => ⟨[], rfl⟩

theorem Passes.trans {first second third : Exchange} (before : first.Passes second)
    (after : second.Passes third) : first.Passes third := by
  intro ι ο _ call inbound
  obtain ⟨moves, reached⟩ := before ι ο call inbound
  obtain ⟨others, end_⟩ := after ι ο call inbound
  refine ⟨moves ++ others, ?_⟩
  rw [Streaming.run, List.foldl_append]
  change Streaming.run (Streaming.run _ moves) others = _
  rw [reached, end_]

theorem passes_now {time : Nat} (later : exchange.now ≤ time) :
    exchange.Passes { exchange with now := time } := by
  intro ι ο _ call inbound
  refine ⟨[.pass (time - exchange.now)], ?_⟩
  simp only [Streaming.run, List.foldl_cons, List.foldl_nil, Streaming.step,
    Nat.add_sub_cancel' later]

theorem IsTimely.notDropped (timely : exchange.IsTimely)
    (stays : exchange.outbound.isGone = false) : exchange.outbound.droppedAt = none := by
  cases dropped : exchange.outbound.droppedAt with
  | none => rfl
  | some time => exact absurd (stays.symm.trans (timely.dropped time dropped).1) Bool.false_ne_true

/-- A caller that reads does so by one move, and leaves nothing in the past. -/
theorem IsTimely.acted_reading (timely : exchange.IsTimely) {time : Nat}
    (reads : exchange.outbound.state = .reading time) :
    exchange.Passes (exchange.acted time) ∧ (exchange.acted time).IsTimely ∧
      (exchange.acted time).outbound.isGone = false ∧
      (exchange.acted time).cancellation = exchange.cancellation := by
  have stays : exchange.outbound.isGone = false := by simp [Outbound.isGone, reads]
  obtain ⟨sameDropped, staysThen, dueLater, waitsForAll⟩ := Outbound.act_of_reading reads
  have notDropped := sameDropped.trans (timely.notDropped stays)
  have sameCancellation : (exchange.acted time).cancellation = exchange.cancellation := by
    rw [acted, notDropped]
    rfl
  refine ⟨(passes_now (timely.due time (.inl reads))).trans fun ι ο _ call inbound => ⟨[.read], ?_⟩,
    ⟨dueLater, Nat.le_trans (Outbound.length_queue_act _) timely.room, waitsForAll,
      fun next dropped => ?_⟩, staysThen, sameCancellation⟩
  · have same : exchange.outbound.actAs (.reading time) = exchange.outbound.act := by
      rw [Outbound.actAs, stays, if_neg Bool.false_ne_true, ← reads]
    simp only [Streaming.run, List.foldl_cons, List.foldl_nil, Streaming.step,
      Streaming.callerActs, same, acted, notDropped]
    rfl
  · cases notDropped.symm.trans dropped

/-- A caller that leaves drops the response and cancels the call, by a move for each. -/
theorem IsTimely.acted_leaving (timely : exchange.IsTimely) {time : Nat}
    (leaves : exchange.outbound.state = .leaving time) :
    exchange.Passes (exchange.acted time) ∧ (exchange.acted time).IsTimely ∧
      (exchange.acted time).outbound.isGone = true ∧
      (exchange.acted time).cancellation = exchange.cancellation.cancelBy (some time) := by
  have stays : exchange.outbound.isGone = false := by simp [Outbound.isGone, leaves]
  have act := Outbound.act_of_leaving leaves
  have isGone : (exchange.acted time).outbound.isGone = true := by
    simp [acted, act, Outbound.isGone]
  have cancelled : (exchange.acted time).cancellation =
      exchange.cancellation.cancelBy (some time) := by
    rw [acted, act]
  refine ⟨(passes_now (timely.due time (.inr leaves))).trans fun ι ο _ call inbound =>
    ⟨[.drop, .cancel], ?_⟩, ⟨fun next acts => ?_, ?_, fun waits => ?_, fun next dropped => ?_⟩,
    isGone, cancelled⟩
  · have same : exchange.outbound.actAs (.leaving time) = exchange.outbound.act := by
      rw [Outbound.actAs, stays, if_neg Bool.false_ne_true, ← leaves]
    simp only [Streaming.run, List.foldl_cons, List.foldl_nil, Streaming.step,
      Streaming.callerActs, same, cancelAt, Nat.max_self, acted, act]
  · rw [acted, act] at acts
    rcases acts with reads | leaves
    · cases reads
    · cases leaves
  · exact Nat.le_trans (Outbound.length_queue_act _) timely.room
  · rw [acted, act] at waits
    cases waits
  · rw [acted, act] at dropped
    refine ⟨isGone, cancelled ▸ ?_⟩
    cases dropped
    exact Cancellation.exists_cancelBy _ _

/-- What a caller brings about until a time, or for ever: the clock stands at its last act, and it
stayed unless that was to leave. -/
structure IsHeard (exchange : Exchange) (limit : Option Nat) (time : Nat) : Prop where
  later : exchange.now ≤ time
  within : ∀ last, limit = some last → time ≤ max exchange.now last
  passes : exchange.Passes { exchange.hear limit with now := time }
  timely : { exchange.hear limit with now := time }.IsTimely
  isFrom : ∀ last, limit = some last → (exchange.hear limit).outbound.state.IsFrom last
  stays : (exchange.hear limit).cancellation = exchange.cancellation ∧
      (exchange.hear limit).outbound.isGone = exchange.outbound.isGone ∨
    (exchange.hear limit).outbound.isGone = true ∧
      (exchange.hear limit).cancellation = exchange.cancellation.cancelBy (some time)

theorem IsTimely.isHeard_idle (timely : exchange.IsTimely) {limit : Option Nat}
    (idle : exchange.outbound.advance limit = exchange.outbound)
    (isFrom : ∀ last, limit = some last → exchange.outbound.state.IsFrom last) :
    exchange.IsHeard limit exchange.now := by
  have same : exchange.hear limit = exchange := by
    rw [hear, idle, timely.cancelBy_droppedAt]
  refine ⟨Nat.le_refl _, fun last _ => Nat.le_max_left _ _, ?_, ?_, ?_, .inl ?_⟩
  · rw [same]
    exact Passes.refl exchange
  · rw [same]
    exact timely
  · rw [same]
    exact isFrom
  · rw [same]
    exact ⟨rfl, rfl⟩

/-- After an act of a caller that stays, the rest is heard of later. -/
theorem IsHeard.of_acted {limit : Option Nat} {time last : Nat}
    (heard : (exchange.acted time).IsHeard limit last) (later : exchange.now ≤ time)
    (within : ∀ last, limit = some last → time ≤ last)
    (passes : exchange.Passes (exchange.acted time))
    (advance : exchange.outbound.advance limit = exchange.outbound.act.advance limit)
    (same : (exchange.acted time).cancellation = exchange.cancellation)
    (stays : (exchange.acted time).outbound.isGone = exchange.outbound.isGone) :
    exchange.IsHeard limit last := by
  have hear : (exchange.acted time).hear limit = { exchange.hear limit with now := time } := by
    simp only [Exchange.hear, advance, same]
    rfl
  obtain ⟨laterThen, withinThen, passesThen, timelyThen, isFrom, staysThen⟩ := heard
  rw [hear] at passesThen timelyThen isFrom staysThen
  refine ⟨Nat.le_trans later laterThen, fun limited isLimit => ?_, passes.trans passesThen,
    timelyThen, isFrom, ?_⟩
  · have inner := withinThen limited isLimit
    have isLater := within limited isLimit
    simp only [acted] at inner
    omega
  · rwa [same, stays] at staysThen

theorem IsTimely.isHeard_leaving (timely : exchange.IsTimely) {limit : Option Nat} {time : Nat}
    (leaves : exchange.outbound.state = .leaving time) (isBy : Outbound.isBy limit time = true)
    (within : ∀ last, limit = some last → time ≤ last) : exchange.IsHeard limit time := by
  obtain ⟨passes, timelyThen, isGone, cancelled⟩ := timely.acted_leaving leaves
  have act := Outbound.act_of_leaving leaves
  have hear : exchange.hear limit = { exchange.acted time with now := exchange.now } := by
    rw [Exchange.hear, Outbound.advance_of_leaving leaves isBy]
    rfl
  refine ⟨timely.due time (.inr leaves), fun limited isLimit => ?_, ?_, ?_, ?_, ?_⟩
  · exact Nat.le_trans (within limited isLimit) (Nat.le_max_right _ _)
  · rw [hear]
    exact passes
  · rw [hear]
    exact timelyThen
  · intro limited _ next acts
    rw [hear] at acts
    change exchange.outbound.act.state = _ ∨ exchange.outbound.act.state = _ at acts
    rw [act] at acts
    rcases acts with reads | leaves
    · cases reads
    · cases leaves
  · rw [hear]
    exact .inr ⟨isGone, cancelled⟩

/-- Whatever the caller does until a time is a few moves. -/
theorem IsTimely.isHeard (timely : exchange.IsTimely) (limit : Option Nat) :
    ∃ time, exchange.IsHeard limit time := by
  generalize start : exchange.outbound = outbound
  fun_induction Outbound.advance limit outbound generalizing exchange with
  | case1 outbound never =>
      subst start
      have idle : ∀ time, exchange.outbound.due ≠ some time := fun time due => by
        cases never.symm.trans due
      refine ⟨_, timely.isHeard_idle ?_ fun last _ time acts => ?_⟩
      · exact Outbound.advance_of_idle fun time due => absurd due (idle time)
      · exact absurd (Outbound.due_eq_some_iff.mpr acts) (idle time)
  | case2 outbound time due isBy inductionHypothesis =>
      subst start
      have within : ∀ last, limit = some last → time ≤ last := by
        intro last isLimit
        simpa [isLimit, Outbound.isBy] using isBy
      rcases Outbound.due_eq_some_iff.mp due with reads | leaves
      · obtain ⟨passes, timelyThen, staysThen, sameCancellation⟩ := timely.acted_reading reads
        obtain ⟨last, heard⟩ := inductionHypothesis timelyThen rfl
        exact ⟨last, heard.of_acted (timely.due time (.inl reads)) within passes
          (Outbound.advance_of_due due isBy) sameCancellation
          (staysThen.trans (by simp [Outbound.isGone, reads]))⟩
      · exact ⟨time, timely.isHeard_leaving leaves isBy within⟩
  | case3 outbound time due isLater =>
      subst start
      refine ⟨_, timely.isHeard_idle ?_ fun last isLimit next acts => ?_⟩
      · refine Outbound.advance_of_idle fun other isDue => ?_
        cases due.symm.trans isDue
        simpa using isLater
      · cases due.symm.trans (Outbound.due_eq_some_iff.mpr acts)
        simp only [isLimit, Outbound.isBy, decide_eq_true_eq] at isLater
        omega

/-- The exchange at a time, when the caller has done all that it does until then. -/
def arrive (exchange : Exchange) (time : Nat) : Exchange :=
  { exchange.hear (some time) with now := time }

theorem IsHeard.arrive {time last : Nat} (heard : exchange.IsHeard (some time) last)
    (later : exchange.now ≤ time) :
    exchange.Passes (exchange.arrive time) ∧ (exchange.arrive time).IsTimely := by
  have notLater : last ≤ time := by
    have within := heard.within time rfl
    omega
  exact ⟨heard.passes.trans (passes_now notLater),
    ⟨heard.isFrom time rfl, heard.timely.room, heard.timely.waiting, heard.timely.dropped⟩⟩

/-! ## Waits, move by move -/

/-- A wait that ended: the caller and the clock alone bring it about, and the task that looks again
finds what ended it. -/
structure Awaited (before : Exchange) (ready : Option Nat) (after : Exchange)
    (result : Except Done Unit) : Prop where
  passes : before.Passes after
  timely : after.IsTimely
  inbound : after.inbound = before.inbound
  isOver : ∀ done, result = .error done → after.done? = some done
  isOpen : result = .ok () → after.done? = none
  comes : result = .ok () → ∃ readyAt, ready = some readyAt ∧ readyAt ≤ after.now
  heard : result = .ok () → after.outbound.isGone = before.outbound.isGone ∧
    after.outbound = before.outbound.advance (some after.now)

theorem IsHeard.awaited_dropped {limit : Option Nat} {time : Nat} {ready : Option Nat}
    (heard : exchange.IsHeard limit time)
    (cancelled : (exchange.hear limit).cancellation =
      exchange.cancellation.cancelBy (some time)) :
    exchange.Awaited ready { exchange.hear limit with now := time } (.error .canceled) := by
  refine ⟨heard.passes, heard.timely, rfl, fun done isDone => ?_, fun isOk => (nomatch isOk),
    fun isOk => (nomatch isOk), fun isOk => nomatch isOk⟩
  cases isDone
  change (exchange.hear limit).cancellation.check time = _
  rw [cancelled]
  exact Cancellation.check_eq_canceled_iff.mpr (Cancellation.exists_cancelBy _ _)

theorem IsHeard.awaited_stays {last time : Nat} {ready : Option Nat} {result : Except Done Unit}
    (heard : exchange.IsHeard (some last) time)
    (ends : exchange.cancellation.EndsWait exchange.now ready last result)
    (same : (exchange.hear (some last)).cancellation = exchange.cancellation)
    (stays : (exchange.hear (some last)).outbound.isGone = exchange.outbound.isGone) :
    exchange.Awaited ready (exchange.arrive last) result := by
  obtain ⟨passes, timelyThen⟩ := heard.arrive ends.started
  have check : (exchange.arrive last).done? = exchange.cancellation.check last := by
    rw [done?, Exchange.arrive, same]
  refine ⟨passes, timelyThen, rfl, fun done isDone => check.trans (ends.isOver done isDone),
    fun isOk => check.trans (ends.isOpen isOk).1, fun isOk => ?_, fun _ => ⟨stays, rfl⟩⟩
  obtain ⟨_, readyAt, isReady, isLast⟩ := ends.isOpen isOk
  exact ⟨readyAt, isReady, isLast ▸ Nat.le_max_right _ _⟩

theorem IsTimely.wait (timely : exchange.IsTimely) (isOpen : exchange.done? = none)
    (ready : Option Nat) :
    (∃ after result, exchange.wait ready = (after, some result) ∧
        exchange.Awaited ready after result) ∨
      ∃ after time, exchange.wait ready = (after, none) ∧ after.inbound = exchange.inbound ∧
        exchange.Passes { after with now := time } := by
  unfold Exchange.wait
  cases planned : exchange.cancellation.race exchange.now ready with
  | none =>
      obtain ⟨notCancelled, notLate, notReady⟩ := Cancellation.race_eq_none planned
      obtain ⟨time, heard⟩ := timely.isHeard none
      rcases heard.stays with ⟨same, _⟩ | ⟨_, cancelled⟩
      · refine .inr ⟨exchange.hear none, time, ?_, rfl, heard.passes⟩
        simp only [Option.map_none, same, planned]
      · refine .inl ⟨_, _, ?_, heard.awaited_dropped cancelled⟩
        have ends := @Cancellation.race_cancelBy _ _ ready _ isOpen heard.later
          (by simp [notCancelled]) (by simp [notLate]) (by simp [notReady])
        simp only [Option.map_none, cancelled, ends]
  | some end_ =>
      obtain ⟨last, result⟩ := end_
      have ends := Cancellation.race_eq_some planned
      obtain ⟨time, heard⟩ := timely.isHeard (some last)
      rcases heard.stays with ⟨same, stays⟩ | ⟨_, cancelled⟩
      · refine .inl ⟨_, _, ?_, heard.awaited_stays ends same stays⟩
        simp only [Option.map_some, same, planned, Exchange.arrive]
      · refine .inl ⟨_, _, ?_, heard.awaited_dropped cancelled⟩
        have notLater : time ≤ last := by
          have within := heard.within last rfl
          have started := ends.started
          omega
        have dropped := Cancellation.race_cancelBy isOpen heard.later
          (fun other planned => Nat.le_trans notLater (ends.cancelled other planned))
          (fun nanos due => Nat.le_trans notLater (ends.late nanos due))
          (fun readyAt isReady => Nat.le_trans notLater (ends.comes readyAt isReady))
        simp only [Option.map_some, cancelled, dropped]

/-- What a wait that may end at once leads to. -/
inductive Races (before : Exchange) (ready : Option Nat) :
    Exchange × Option (Except Done Unit) → Prop
  | ends {after : Exchange} {done : Done} (passes : before.Passes after) (timely : after.IsTimely)
      (inbound : after.inbound = before.inbound) (isOver : after.done? = some done) :
      Races before ready (after, some (.error done))
  | comes {after : Exchange} {readyAt : Nat} (passes : before.Passes after)
      (timely : after.IsTimely) (inbound : after.inbound = before.inbound)
      (isOpen : after.done? = none) (isReady : ready = some readyAt)
      (isCome : readyAt ≤ after.now) : Races before ready (after, some (.ok ()))
  | never {after : Exchange} {time : Nat} (passes : before.Passes { after with now := time })
      (inbound : after.inbound = before.inbound) : Races before ready (after, none)

theorem IsTimely.races (timely : exchange.IsTimely) (ready : Option Nat) :
    exchange.Races ready (exchange.race ready) := by
  unfold Exchange.race
  cases isOver : exchange.done? with
  | some done => exact .ends (Passes.refl exchange) timely rfl isOver
  | none =>
      dsimp only
      split
      case isTrue come =>
        obtain ⟨readyAt, isReady, isCome⟩ := Cancellation.hasCome_eq_true_iff.mp come
        exact .comes (Passes.refl exchange) timely rfl isOver isReady isCome
      case isFalse =>
        rcases timely.wait isOver ready with
          ⟨after, result, ends, awaited⟩ | ⟨after, time, never, inbound, passes⟩
        · rw [ends]
          cases result with
          | error done =>
              exact .ends awaited.passes awaited.timely awaited.inbound (awaited.isOver done rfl)
          | ok _ =>
              obtain ⟨readyAt, isReady, isCome⟩ := awaited.comes rfl
              exact .comes awaited.passes awaited.timely awaited.inbound (awaited.isOpen rfl)
                isReady isCome
        · rw [never]
          exact .never passes inbound

theorem passes_inbound (inbound : Inbound) : exchange.Passes { exchange with inbound } :=
  fun _ _ _ _ _ => ⟨[], rfl⟩

theorem IsTimely.withInbound (timely : exchange.IsTimely) (inbound : Inbound) :
    { exchange with inbound }.IsTimely :=
  ⟨timely.due, timely.room, timely.waiting, timely.dropped⟩

theorem IsTimely.receiveFrom {ι : Type} [Payload ι] (timely : exchange.IsTimely)
    (parts : List BodyPart) :
    (∃ (after : Exchange) (answer : Inbound.Result ι),
        exchange.receiveFrom parts = (after, some answer) ∧
        exchange.Passes after ∧ after.IsTimely) ∨
      ∃ after time, exchange.receiveFrom (ι := ι) parts = (after, none) ∧
        exchange.Passes { after with now := time } := by
  induction parts generalizing exchange with
  | nil =>
      have races := timely.races exchange.nextPartAt
      rw [Exchange.receiveFrom]
      generalize exchange.race exchange.nextPartAt = result at races ⊢
      split
      case h_1 answer inbound _ =>
        exact .inl ⟨_, answer, rfl, passes_inbound inbound, timely.withInbound inbound⟩
      case h_2 =>
        cases races with
        | ends passes timelyThen => exact .inl ⟨_, _, rfl, passes, timelyThen⟩
        | comes passes timelyThen =>
            exact .inl ⟨_, _, rfl, passes.trans (passes_inbound _), timelyThen.withInbound _⟩
        | never passes => exact .inr ⟨_, _, rfl, passes⟩
  | cons part parts inductionHypothesis =>
      have races := timely.races exchange.nextPartAt
      rw [Exchange.receiveFrom]
      generalize exchange.race exchange.nextPartAt = result at races ⊢
      split
      case h_1 answer inbound _ =>
        exact .inl ⟨_, answer, rfl, passes_inbound inbound, timely.withInbound inbound⟩
      case h_2 =>
        cases races with
        | ends passes timelyThen => exact .inl ⟨_, _, rfl, passes, timelyThen⟩
        | @comes after _ passes timelyThen =>
            have timelyNext : (after.takePart part parts).IsTimely := timelyThen.withInbound _
            have passesNext : exchange.Passes (after.takePart part parts) :=
              passes.trans (passes_inbound _)
            rcases inductionHypothesis timelyNext with
              ⟨last, answer, gives, passesThen, timelyLast⟩ | ⟨last, time, never, passesThen⟩
            · exact .inl ⟨last, answer, gives, passesNext.trans passesThen, timelyLast⟩
            · exact .inr ⟨last, time, never, passesNext.trans passesThen⟩
        | never passes => exact .inr ⟨_, _, rfl, passes⟩

theorem IsTimely.wake (timely : exchange.IsTimely) {outbound : Outbound}
    (state : outbound.state = exchange.outbound.state)
    (dropped : outbound.droppedAt = exchange.outbound.droppedAt)
    (room : outbound.queue.length ≤ Outbound.capacity) :
    { exchange with outbound := outbound.wake exchange.now }.IsTimely := by
  have sameDropped : (outbound.wake exchange.now).droppedAt = outbound.droppedAt := by
    unfold Outbound.wake
    split <;> rfl
  have sameGone : outbound.isGone = exchange.outbound.isGone := by
    simp only [Outbound.isGone, state]
  refine ⟨fun time acts => ?_, ?_, fun waits => ?_, fun time isDropped => ?_⟩
  · dsimp only at acts
    unfold Outbound.wake at acts
    split at acts
    · rcases acts with reads | leaves
      · exact CallerState.reading.inj reads ▸ Nat.le_refl _
      · cases leaves
    · exact timely.due time (state ▸ acts)
  · simpa using room
  · dsimp only at waits
    unfold Outbound.wake at waits
    split at waits
    · cases waits
    · contradiction
  · obtain ⟨isGone, cancelled⟩ :=
      timely.dropped time (dropped.symm.trans (sameDropped.symm.trans isDropped))
    exact ⟨(Outbound.isGone_wake _ _).trans (sameGone.trans isGone), cancelled⟩

theorem IsTimely.put (timely : exchange.IsTimely) (hasRoom : exchange.outbound.hasRoom = true)
    (frame : ResponseFrame) : (exchange.put frame).IsTimely := by
  refine timely.wake rfl rfl ?_
  have length := exchange.outbound.length_queue_push hasRoom exchange.now frame
  rwa [Outbound.queue_push] at length

theorem IsTimely.close (timely : exchange.IsTimely) :
    { exchange with outbound := exchange.outbound.close exchange.now }.IsTimely :=
  timely.wake rfl rfl timely.room

theorem isTimely_start (exchange : Exchange) (caller : Caller) :
    { exchange with outbound := Outbound.start caller exchange.now }.IsTimely :=
  ⟨Caller.isFrom_next _ _, Nat.zero_le _, fun waits => absurd waits (Caller.next_ne_waiting _ _),
    fun _ dropped => nomatch dropped⟩

theorem IsTimely.exists_due (timely : exchange.IsTimely)
    (stays : exchange.outbound.isGone = false) (isFull : exchange.outbound.hasRoom = false) :
    ∃ time, exchange.outbound.due = some time := by
  cases state : exchange.outbound.state with
  | reading time => exact ⟨time, Outbound.due_eq_some_iff.mpr (.inl state)⟩
  | leaving time => exact ⟨time, Outbound.due_eq_some_iff.mpr (.inr state)⟩
  | waiting =>
      have empty := timely.waiting state
      simp [Outbound.hasRoom, empty, Outbound.capacity] at isFull
  | gone => simp [Outbound.isGone, state] at stays

/-- At the time of a caller that reads the queue has room, and one that leaves is gone. -/
theorem IsTimely.hasRoom_arrive (timely : exchange.IsTimely) {time : Nat}
    (due : exchange.outbound.due = some time)
    (stays : (exchange.arrive time).outbound.isGone = false) :
    (exchange.arrive time).outbound.hasRoom = true := by
  have isBy : Outbound.isBy (some time) time = true := by simp [Outbound.isBy]
  rcases Outbound.due_eq_some_iff.mp due with reads | leaves
  · exact Outbound.hasRoom_advance reads isBy timely.room
  · have isGone : (exchange.outbound.advance (some time)).isGone = true := by
      rw [Outbound.advance_of_leaving leaves isBy, Outbound.act_of_leaving leaves]
      rfl
    exact absurd (stays.symm.trans isGone) Bool.false_ne_true

/-- A frame that goes out even if the call is over: the caller takes its time, and then the queue
has room, or nobody is there. -/
theorem IsTimely.deliver (timely : exchange.IsTimely) (frame : ResponseFrame) :
    ∃ before, exchange.Passes before ∧ before.inbound = exchange.inbound ∧
      before.wire = exchange.wire ∧ before.offer frame = some (exchange.deliver frame) ∧
      (exchange.deliver frame).1.IsTimely := by
  unfold Exchange.deliver
  by_cases isGone : exchange.outbound.isGone = true
  · rw [if_pos isGone]
    exact ⟨exchange, Passes.refl exchange, rfl, rfl, offer_of_gone isGone frame, timely⟩
  · rw [if_neg isGone]
    rw [Bool.not_eq_true] at isGone
    by_cases hasRoom : exchange.outbound.hasRoom = true
    · rw [if_pos hasRoom]
      exact ⟨exchange, Passes.refl exchange, rfl, rfl, offer_of_room isGone hasRoom frame,
        timely.put hasRoom frame⟩
    · rw [if_neg hasRoom]
      rw [Bool.not_eq_true] at hasRoom
      obtain ⟨time, due⟩ := timely.exists_due isGone hasRoom
      have later : exchange.now ≤ time := timely.due time (Outbound.due_eq_some_iff.mp due)
      obtain ⟨last, heard⟩ := timely.isHeard (some time)
      obtain ⟨passes, timelyThen⟩ := heard.arrive later
      have same : max exchange.now (exchange.outbound.due.getD exchange.now) = time := by
        rw [due]
        exact Nat.max_eq_right later
      refine ⟨exchange.arrive time, passes, rfl, rfl, ?_⟩
      dsimp only
      rw [same]
      change (exchange.arrive time).offer frame =
          some (if (exchange.arrive time).outbound.isGone then
            (exchange.arrive time, .error disconnected)
          else ((exchange.arrive time).put frame, .ok ())) ∧
        (if (exchange.arrive time).outbound.isGone then
            (exchange.arrive time, .error disconnected)
          else ((exchange.arrive time).put frame, (.ok () : Except Status Unit))).1.IsTimely
      by_cases isGoneThen : (exchange.arrive time).outbound.isGone = true
      · rw [if_pos isGoneThen]
        exact ⟨offer_of_gone isGoneThen frame, timelyThen⟩
      · rw [if_neg isGoneThen]
        rw [Bool.not_eq_true] at isGoneThen
        have hasRoomThen := timely.hasRoom_arrive due isGoneThen
        exact ⟨offer_of_room isGoneThen hasRoomThen frame, timelyThen.put hasRoomThen frame⟩

/-- What becomes of a frame that goes out unless the call is over: a task that looks again finds
that it is over, or that there is room or nobody there. -/
inductive Sends (before : Exchange) (frame : ResponseFrame) :
    Exchange × Option (Except Status Unit) → Prop
  | ends {after : Exchange} {done : Done} (passes : before.Passes after) (timely : after.IsTimely)
      (inbound : after.inbound = before.inbound) (isOver : after.done? = some done) :
      Sends before frame (after, some (.error done.status))
  | offered {between after : Exchange} {answer : Except Status Unit}
      (passes : before.Passes between) (inbound : between.inbound = before.inbound)
      (isOpen : between.done? = none) (offer : between.offer frame = some (after, answer))
      (timely : after.IsTimely) : Sends before frame (after, some answer)
  | never {after : Exchange} {time : Nat} (passes : before.Passes { after with now := time })
      (inbound : after.inbound = before.inbound) : Sends before frame (after, none)

theorem IsTimely.sends (timely : exchange.IsTimely) (frame : ResponseFrame) :
    exchange.Sends frame (exchange.sendFrame frame) := by
  unfold Exchange.sendFrame
  cases isOver : exchange.done? with
  | some done => exact .ends (Passes.refl exchange) timely rfl isOver
  | none =>
      dsimp only
      by_cases isGone : exchange.outbound.isGone = true
      · rw [if_pos isGone]
        exact .offered (Passes.refl exchange) rfl isOver (offer_of_gone isGone frame) timely
      · rw [if_neg isGone]
        rw [Bool.not_eq_true] at isGone
        by_cases hasRoom : exchange.outbound.hasRoom = true
        · rw [if_pos hasRoom]
          exact .offered (Passes.refl exchange) rfl isOver (offer_of_room isGone hasRoom frame)
            (timely.put hasRoom frame)
        · rw [if_neg hasRoom]
          rcases timely.wait isOver exchange.outbound.nextTaking with
            ⟨after, result, ends, awaited⟩ | ⟨after, time, never, inbound, passes⟩
          · rw [ends]
            cases result with
            | error done =>
                exact .ends awaited.passes awaited.timely awaited.inbound (awaited.isOver done rfl)
            | ok _ =>
                obtain ⟨readyAt, isReady, isCome⟩ := awaited.comes rfl
                obtain ⟨sameGone, advanced⟩ := awaited.heard rfl
                have hasRoomThen : after.outbound.hasRoom = true := by
                  rw [advanced]
                  exact Outbound.hasRoom_advance (Outbound.nextTaking_eq_some_iff.mp isReady)
                    (by simpa [Outbound.isBy] using isCome) timely.room
                exact .offered awaited.passes awaited.inbound (awaited.isOpen rfl)
                  (offer_of_room (sameGone.trans isGone) hasRoomThen frame)
                  (awaited.timely.put hasRoomThen frame)
          · rw [never]
            exact .never passes inbound

end Exchange

/-! ## The run, move by move -/

namespace Streaming

variable {ι ο : Type}

section Reaching

variable [Payload ο] {call : Streaming ι ο}

/-- Some moves lead from one call to the other. -/
def Reaches (call later : Streaming ι ο) : Prop := ∃ moves, call.run moves = later

theorem Reaches.trans {first second third : Streaming ι ο} (before : first.Reaches second)
    (after : second.Reaches third) : first.Reaches third := by
  obtain ⟨moves, rfl⟩ := before
  obtain ⟨others, rfl⟩ := after
  exact ⟨moves ++ others, List.foldl_append⟩

theorem reaches_go {later : Streaming ι ο} (goes : call.go = later) : call.Reaches later :=
  ⟨[.go], goes⟩

/-- A task that stands still is where it was when the clock and the caller have moved on. -/
theorem reaches_of_passes {after : Exchange} (passes : call.exchange.Passes after)
    (same : after.inbound = call.exchange.inbound) :
    call.Reaches { call with exchange := after } := by
  obtain ⟨moves, reached⟩ := passes ι ο call call.exchange.inbound
  rw [show { after with inbound := call.exchange.inbound } = after by rw [← same]] at reached
  exact ⟨moves, reached⟩

/-- Some moves lead to the result of a run: to its last frame, or, if it waits in vain, to all that
its caller will ever have. -/
def Follows (call : Streaming ι ο) (result : Exchange × Option Outcome) : Prop :=
  match result with
  | (after, some outcome) => after.IsTimely ∧
    ∃ later, call.Reaches later ∧ later.exchange = after ∧ later.stage = .ending outcome
  | (after, none) => ∃ later, call.Reaches later ∧ later.exchange.outbound = after.outbound

theorem Follows.of_reaches {later : Streaming ι ο} {result : Exchange × Option Outcome}
    (reaches : call.Reaches later) (follows : later.Follows result) : call.Follows result := by
  obtain ⟨after, outcome⟩ := result
  cases outcome with
  | none =>
      obtain ⟨last, reachesThen, same⟩ := follows
      exact ⟨last, reaches.trans reachesThen, same⟩
  | some outcome =>
      obtain ⟨timely, last, reachesThen, same⟩ := follows
      exact ⟨timely, last, reaches.trans reachesThen, same⟩

theorem follows_of_never {after : Exchange} {time : Nat}
    (passes : call.exchange.Passes { after with now := time })
    (same : after.inbound = call.exchange.inbound) : call.Follows (after, none) :=
  ⟨_, reaches_of_passes passes same, rfl⟩

/-- The task of a call that ends follows the end of the run. -/
theorem reaches_conclude {outcome : Outcome} (timely : call.exchange.IsTimely)
    (stage : call.stage = .ending outcome) :
    ∃ later, call.Reaches later ∧
      later.exchange.outbound = (call.exchange.conclude outcome).outbound := by
  obtain ⟨before, passes, same, sameWire, offer, timelyThen⟩ :=
    timely.deliver (.endOfStream call.exchange.wire outcome)
  unfold Exchange.conclude
  generalize call.exchange.deliver (.endOfStream call.exchange.wire outcome) = result
    at offer timelyThen ⊢
  obtain ⟨after, answer⟩ := result
  obtain ⟨time, heard⟩ := timelyThen.close.isHeard none
  let placed : Streaming ι ο :=
    { call with exchange := after, stage := .closing, isPlaced := answer.isOk }
  have places : Reaches { call with exchange := before } placed := by
    rw [← sameWire] at offer
    exact reaches_go (by simp only [placed, go, stage, offer])
  have closes : placed.Reaches placed.go := reaches_go rfl
  have hears : placed.go.Reaches
      { placed.go with exchange := { placed.go.exchange.hear none with now := time } } :=
    reaches_of_passes heard.passes rfl
  exact ⟨_, (reaches_of_passes passes same).trans (places.trans (closes.trans hears)), rfl⟩

end Reaching

variable [Payload ι] [Payload ο] {call : Streaming ι ο}

/-- The task of a call follows the run of its handler. -/
theorem follows_run (handler : Handler ι ο Outcome) (timely : call.exchange.IsTimely)
    (stage : call.stage = .going handler) : call.Follows (call.exchange.run handler) := by
  -- Where the run waits, the clock and the caller move first, and then the task looks again.
  induction handler generalizing call with
  | finish outcome =>
      exact ⟨timely, call.proceed (.finish outcome), reaches_go (by rw [go, stage]), rfl, rfl⟩
  | onCheck next inductionHypothesis =>
      have goes : call.Reaches (call.proceed (.onCheck next)) := reaches_go (by rw [go, stage])
      exact .of_reaches goes (inductionHypothesis _ timely rfl)
  | onDraining next inductionHypothesis =>
      have goes : call.Reaches (call.proceed (.onDraining next)) := reaches_go (by rw [go, stage])
      exact .of_reaches goes (inductionHypothesis _ timely rfl)
  | onSleep millis next inductionHypothesis =>
      have goes : call.Reaches (call.proceed (.onSleep millis next)) :=
        reaches_go (by rw [go, stage])
      refine .of_reaches goes ?_
      have races := timely.races (some (call.exchange.now + millis))
      rw [Exchange.run]
      generalize call.exchange.race (some (call.exchange.now + millis)) = result at races ⊢
      cases races with
      | @ends after done passes timelyThen same isOver =>
          change Follows _ (after.run (next (.error done)))
          refine .of_reaches (reaches_of_passes passes same) (.of_reaches (reaches_go ?_)
            (@inductionHypothesis (.error done)
              { call with exchange := after, stage := .going (next (.error done)) }
              timelyThen rfl))
          simp only [go, proceed, isOver]
      | @comes after readyAt passes timelyThen same isOpen isReady isCome =>
          cases isReady
          change Follows _ (after.run (next (.ok ())))
          have looks : ({ call.proceed (.onSleep millis next) with exchange := after } :
              Streaming ι ο).Reaches
              { call with
                exchange := after
                stage := .sleeping (call.exchange.now + millis) true next } :=
            reaches_go (by simp only [go, proceed, isOpen])
          refine .of_reaches (reaches_of_passes passes same) (.of_reaches looks (.of_reaches
            (reaches_go ?_) (@inductionHypothesis (.ok ())
              { call with exchange := after, stage := .going (next (.ok ())) }
              timelyThen rfl)))
          simp only [go, isCome, if_true]
      | never passes same => exact follows_of_never passes same
  | onDone next inductionHypothesis =>
      have goes : call.Reaches (call.proceed (.onDone next)) := reaches_go (by rw [go, stage])
      refine .of_reaches goes ?_
      have races := timely.races none
      rw [Exchange.run]
      generalize call.exchange.race none = result at races ⊢
      cases races with
      | @ends after done passes timelyThen same isOver =>
          change Follows _ (after.run (next done))
          refine .of_reaches (reaches_of_passes passes same) (.of_reaches (reaches_go ?_)
            (@inductionHypothesis done
              { call with exchange := after, stage := .going (next done) } timelyThen rfl))
          simp only [go, proceed, isOver]
      | comes passes timelyThen same isOpen isReady isCome => cases isReady
      | never passes same => exact follows_of_never passes same
  | onReceive next inductionHypothesis =>
      have goes : call.Reaches (call.proceed (.onReceive next)) := reaches_go (by rw [go, stage])
      refine .of_reaches goes ?_
      rw [Exchange.run, Exchange.receive]
      rcases timely.receiveFrom (ι := ι) call.exchange.inbound.body.parts with
        ⟨after, answer, gives, passes, timelyThen⟩ | ⟨after, time, never, passes⟩
      · rw [gives]
        change Follows _ (after.run (next answer))
        obtain ⟨moves, reached⟩ := passes ι ο (call.proceed (.onReceive next)) call.exchange.inbound
        have brings : Reaches
            { call.proceed (.onReceive next) with
              exchange := { after with inbound := call.exchange.inbound } }
            { call with exchange := after, stage := .going (next answer) } :=
          ⟨[.bring answer after.inbound], rfl⟩
        exact .of_reaches ⟨moves, reached⟩ (.of_reaches brings (@inductionHypothesis answer
          { call with exchange := after, stage := .going (next answer) } timelyThen rfl))
      · rw [never]
        obtain ⟨moves, reached⟩ := passes ι ο (call.proceed (.onReceive next)) call.exchange.inbound
        exact ⟨_, ⟨moves, reached⟩, rfl⟩
  | onSend message next inductionHypothesis =>
      let pending : Pending ι ο := ⟨message, false, call.exchange.done?, next⟩
      have goes : call.Reaches (call.begin pending) := reaches_go (by rw [go, stage]; rfl)
      refine .of_reaches goes ?_
      rw [Exchange.run, Exchange.send, begin]
      cases written : call.exchange.frameOf message with
      | error status => exact inductionHypothesis (.error status) timely rfl
      | ok frame =>
          have sends := timely.sends frame
          dsimp only
          generalize call.exchange.sendFrame frame = result at sends ⊢
          cases sends with
          | @ends after done passes timelyThen same isOver =>
              let later : Streaming ι ο :=
                { call with exchange := after, stage := .placing frame pending false }
              have looks : later.Reaches (later.answered pending (.error done.status)) :=
                reaches_go (by simp only [later, go, isOver])
              exact .of_reaches (reaches_of_passes passes same) (.of_reaches looks
                (@inductionHypothesis _ (later.answered pending _) timelyThen rfl))
          | @offered between after answer passes same isOpen offer timelyThen =>
              let later : Streaming ι ο :=
                { call with exchange := between, stage := .placing frame pending true }
              have looks : Reaches
                  { call with exchange := between, stage := .placing frame pending false } later :=
                reaches_go (by simp only [later, go, isOpen])
              have places : later.Reaches
                  ({ later with exchange := after }.answered pending answer) :=
                reaches_go (by simp only [later, go, offer])
              exact .of_reaches (reaches_of_passes passes same) (.of_reaches (looks.trans places)
                (@inductionHypothesis answer ({ later with exchange := after }.answered pending _)
                  timelyThen rfl))
          | never passes same => exact follows_of_never passes same
  | onSendFinal message next inductionHypothesis =>
      let pending : Pending ι ο := ⟨message, true, call.exchange.done?, next⟩
      have goes : call.Reaches (call.begin pending) := reaches_go (by rw [go, stage]; rfl)
      refine .of_reaches goes ?_
      rw [Exchange.run, Exchange.sendFinal, begin]
      cases written : call.exchange.frameOf message with
      | error status => exact inductionHypothesis (.error status) timely rfl
      | ok frame =>
          obtain ⟨before, passes, same, _, offer, timelyThen⟩ := timely.deliver frame
          dsimp only
          generalize call.exchange.deliver frame = result at offer timelyThen ⊢
          obtain ⟨after, answer⟩ := result
          let later : Streaming ι ο :=
            { call with exchange := before, stage := .delivering frame pending }
          have places : later.Reaches
              ({ later with exchange := after }.answered pending answer) :=
            reaches_go (by simp only [later, go, offer])
          exact .of_reaches (reaches_of_passes passes same) (.of_reaches places
            (@inductionHypothesis answer ({ later with exchange := after }.answered pending _)
              timelyThen rfl))

/-- What the caller of a run has in the end is what some moves lead to. -/
theorem exists_run_eq_runStream (exchange : Exchange) (caller : Caller)
    (handler : Handler ι ο Outcome) :
    ∃ moves, ((start exchange caller handler).run moves).exchange.outbound =
      ({ exchange with outbound := Outbound.start caller exchange.now }.runStream
        handler).outbound := by
  have follows := @follows_run _ _ _ _ (start exchange caller handler) handler
    (Exchange.isTimely_start exchange caller) rfl
  unfold Exchange.runStream
  change Follows _ (Exchange.run { exchange with outbound := _ } handler) at follows
  generalize Exchange.run { exchange with outbound := Outbound.start caller exchange.now } handler =
    result at follows ⊢
  obtain ⟨after, outcome⟩ := result
  cases outcome with
  | none =>
      obtain ⟨later, ⟨moves, rfl⟩, same⟩ := follows
      exact ⟨moves, same⟩
  | some outcome =>
      obtain ⟨timely, between, reaches, rfl, stage⟩ := follows
      obtain ⟨later, reachesThen, same⟩ := reaches_conclude timely stage
      obtain ⟨moves, rfl⟩ := reaches.trans reachesThen
      exact ⟨moves, same⟩

end Streaming

end RpcEcho
