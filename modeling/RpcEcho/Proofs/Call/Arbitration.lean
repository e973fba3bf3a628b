import Mathlib.Data.ENat.Basic
import RpcEcho.Proofs.Call.Waiting

/-!
# Arbitration

A wait asks three things at each instant, always in the same order: whether the call was cancelled,
whether the timer of the deadline has fired, and whether the awaited thing is there. It ends at the
first instant at which one of them answers, and each of them answers from its own instant on. What
comes of a wait is told by three times, any of which may be infinite: cancellation goes before the
deadline, and both go before the thing.

Looking whether a call is over compares exact times, while timers fire at whole milliseconds. At a
whole millisecond the two agree, so looking tells what a wait for something at hand would give.

* `Polled`, `Polled.select`, `Polled.Gives`: what is asked again and again until it answers.
* `Cancellation.ending`, `Cancellation.whileOpen`: the end of a call, and a wait in a call.
* `Cancellation.race_eq_some_iff`: a race is asking until there is an answer.
* `Exchange.race_of_stays`: so is a wait of a call whose caller stays.
* `Cancellation.arbitrates_race`: the end of a wait by its three times.
-/

namespace RpcEcho

/-! ## Asking until there is an answer -/

/-- What asking gives at each instant, if there is an answer by then. -/
abbrev Polled (α : Type) := Nat → Option α

namespace Polled

variable {α β : Type}

/-- Something that is there from a time on, if ever. -/
def readyAt (ready : Option Nat) : Polled Unit :=
  fun now => if Cancellation.hasCome ready now then some () else none

/-- The answers in another form. -/
def map (form : α → β) (polled : Polled α) : Polled β := fun now => (polled now).map form

/-- Asks for one thing first, and for another one if the first gives no answer. -/
def select (first second : Polled α) : Polled α := fun now => (first now).or (second now)

/-- The first answer for somebody who asks from an instant on. -/
structure Gives (polled : Polled α) (start time : Nat) (answer : α) : Prop where
  started : start ≤ time
  given : polled time = some answer
  noneBefore : ∀ earlier, start ≤ earlier → earlier < time → polled earlier = none

/-- There is but one first answer. -/
theorem Gives.unique {polled : Polled α} {start first second : Nat} {one other : α}
    (isFirst : polled.Gives start first one) (isSecond : polled.Gives start second other) :
    first = second ∧ one = other := by
  have notBefore {early late : Nat} {a b : α} (isEarly : polled.Gives start early a)
      (isLate : polled.Gives start late b) : ¬ early < late := fun sooner =>
    Option.some_ne_none a
      (isEarly.given.symm.trans (isLate.noneBefore early isEarly.started sooner))
  obtain rfl : first = second :=
    Nat.le_antisymm (Nat.not_lt.mp (notBefore isSecond isFirst))
      (Nat.not_lt.mp (notBefore isFirst isSecond))
  exact ⟨rfl, Option.some.inj (isFirst.given.symm.trans isSecond.given)⟩

end Polled

namespace Cancellation

/-- The end of a call: cancellation is asked for first, then the timer of the deadline. -/
def ending (cancellation : Cancellation) : Polled Done :=
  let canceled := (Polled.readyAt cancellation.cancelledAt).map fun _ => Done.canceled
  match cancellation.deadline with
  | none => canceled
  | some nanos =>
    canceled.select ((Polled.readyAt (some (firstMilli nanos))).map fun _ => .deadlineExceeded)

/-- A wait in a call: the end of the call is asked for first, then the awaited thing. -/
def whileOpen {α : Type} (cancellation : Cancellation) (polled : Polled α) :
    Polled (Except Done α) :=
  (cancellation.ending.map .error).select (polled.map .ok)

variable {cancellation : Cancellation} {start : Nat} {ready : Option Nat}

theorem hasCome_firstMilli (nanos now : Nat) :
    hasCome (some (firstMilli nanos)) now = hasCome (some nanos) (now * Timeout.milli) := by
  have due := @lt_firstMilli_iff now nanos
  simp only [hasCome, decide_eq_decide]
  omega

/-- At a whole millisecond the timer of a deadline has fired exactly if the deadline has passed. -/
theorem ending_eq_check (cancellation : Cancellation) :
    cancellation.ending = cancellation.check := by
  funext now
  obtain ⟨cancelledAt, deadline⟩ := cancellation
  have unlimited : hasCome none (now * Timeout.milli) = false := rfl
  cases isCancelled : hasCome cancelledAt now with
  | true =>
      cases deadline <;>
        simp [ending, check, Polled.select, Polled.map, Polled.readyAt, isCancelled]
  | false =>
      cases deadline with
      | none => simp [ending, check, Polled.map, Polled.readyAt, isCancelled, unlimited]
      | some nanos =>
          simp only [ending, check, Polled.select, Polled.map, Polled.readyAt, isCancelled,
            hasCome_firstMilli]
          cases hasCome (some nanos) (now * Timeout.milli) <;> rfl

theorem whileOpen_of_over {α : Type} {polled : Polled α} {now : Nat} {done : Done}
    (isOver : cancellation.check now = some done) :
    cancellation.whileOpen polled now = some (.error done) := by
  simp [whileOpen, Polled.select, Polled.map, ending_eq_check, isOver]

theorem whileOpen_of_open {α : Type} {polled : Polled α} {now : Nat}
    (isOpen : cancellation.check now = none) :
    cancellation.whileOpen polled now = (polled now).map .ok := by
  simp [whileOpen, Polled.select, Polled.map, ending_eq_check, isOpen]

/-- A wait has no answer before the first of its three times. -/
theorem whileOpen_readyAt_eq_none_iff {now : Nat} :
    cancellation.whileOpen (.readyAt ready) now = none ↔
      (∀ cancelledAt, cancellation.cancelledAt = some cancelledAt → now < cancelledAt) ∧
      (∀ nanos, cancellation.deadline = some nanos → now < firstMilli nanos) ∧
      ∀ readyAt, ready = some readyAt → now < readyAt := by
  simp only [lt_firstMilli_iff]
  rw [← and_assoc, ← check_eq_none_iff]
  cases looked : cancellation.check now with
  | some done => simp [whileOpen_of_over looked]
  | none =>
      rw [whileOpen_of_open looked, Option.map_eq_none_iff, Polled.readyAt, ← hasCome_eq_false_iff]
      cases hasCome ready now <;> simp

/-! ## A race asks until there is an answer -/

theorem gives_of_race_eq_some {time : Nat} {result : Except Done Unit}
    (ends : cancellation.race start ready = some (time, result)) :
    (cancellation.whileOpen (.readyAt ready)).Gives start time result := by
  have endsWait := race_eq_some ends
  refine ⟨endsWait.started, ?_, fun earlier isStarted sooner => ?_⟩
  · cases result with
    | error done => exact whileOpen_of_over (endsWait.isOver done rfl)
    | ok _ =>
        obtain ⟨isOpen, readyAt, rfl, rfl⟩ := endsWait.isOpen rfl
        rw [whileOpen_of_open isOpen, Polled.readyAt,
          if_pos (hasCome_eq_true_iff.mpr ⟨readyAt, rfl, Nat.le_max_right _ _⟩)]
        rfl
  · refine whileOpen_readyAt_eq_none_iff.mpr ⟨?_, ?_, ?_⟩
    · intro cancelledAt planned
      have bound := endsWait.cancelled cancelledAt planned
      omega
    · intro nanos limited
      have bound := endsWait.late nanos limited
      omega
    · intro readyAt isReady
      have bound := endsWait.comes readyAt isReady
      omega

theorem race_eq_some_iff {time : Nat} {result : Except Done Unit} :
    cancellation.race start ready = some (time, result) ↔
      (cancellation.whileOpen (.readyAt ready)).Gives start time result := by
  refine ⟨gives_of_race_eq_some, fun gives => ?_⟩
  cases ends : cancellation.race start ready with
  | none =>
      obtain ⟨notCancelled, unlimited, notReady⟩ := race_eq_none ends
      have noAnswer : cancellation.whileOpen (.readyAt ready) time = none := by
        refine whileOpen_readyAt_eq_none_iff.mpr ⟨?_, ?_, ?_⟩
        · intro cancelledAt planned
          cases notCancelled.symm.trans planned
        · intro nanos limited
          cases unlimited.symm.trans limited
        · intro readyAt isReady
          cases notReady.symm.trans isReady
      exact absurd (gives.given.symm.trans noAnswer) (Option.some_ne_none result)
  | some other =>
      obtain ⟨rfl, rfl⟩ := (gives_of_race_eq_some ends).unique gives
      rfl

theorem race_eq_none_iff : cancellation.race start ready = none ↔
    cancellation.cancelledAt = none ∧ cancellation.deadline = none ∧ ready = none := by
  refine ⟨race_eq_none, ?_⟩
  obtain ⟨cancelledAt, deadline⟩ := cancellation
  rintro ⟨rfl, rfl, rfl⟩
  rfl

/-- What answers at the start is the end of the race. -/
theorem race_of_given {result : Except Done Unit}
    (given : cancellation.whileOpen (.readyAt ready) start = some result) :
    cancellation.race start ready = some (start, result) :=
  race_eq_some_iff.mpr ⟨Nat.le_refl _, given, fun _ isStarted sooner =>
    absurd sooner (Nat.not_lt.mpr isStarted)⟩

/-! ## Three times -/

/-- A time as somebody meets it who waits from a start on: what is past has come at the start, and
what never comes is infinitely far. -/
def metFrom (start : Nat) : Option Nat → ℕ∞
  | none => ⊤
  | some time => (max start time : Nat)

@[simp]
theorem metFrom_some (start time : Nat) :
    metFrom start (some time) = ((max start time : Nat) : ℕ∞) :=
  rfl

@[simp]
theorem metFrom_none (start : Nat) : metFrom start none = ⊤ :=
  rfl

/-- How a wait ends, by three times: of the first cancellation, of the timer of the deadline, and of
the awaited thing. The first of them in this order that no other one precedes decides. -/
structure Arbitrates (cancelAt lateAt comesAt : ℕ∞) (outcome : Option (Nat × Except Done Unit)) :
    Prop where
  canceled : ∀ time, outcome = some (time, .error .canceled) ↔
    (time : ℕ∞) = cancelAt ∧ cancelAt ≤ lateAt ∧ cancelAt ≤ comesAt
  late : ∀ time, outcome = some (time, .error .deadlineExceeded) ↔
    (time : ℕ∞) = lateAt ∧ ¬ (cancelAt ≤ lateAt ∧ cancelAt ≤ comesAt) ∧ lateAt ≤ comesAt
  comes : ∀ time, outcome = some (time, .ok ()) ↔
    (time : ℕ∞) = comesAt ∧ ¬ (cancelAt ≤ lateAt ∧ cancelAt ≤ comesAt) ∧ ¬ lateAt ≤ comesAt
  never : outcome = none ↔ cancelAt = ⊤ ∧ lateAt = ⊤ ∧ comesAt = ⊤

section Race

variable {time : Nat}

/-- Cancellation ends a wait exactly if the timer of the deadline and the thing are not sooner. -/
theorem race_eq_canceled_iff :
    cancellation.race start ready = some (time, .error .canceled) ↔
      (∃ cancelledAt, cancellation.cancelledAt = some cancelledAt ∧
        time = max start cancelledAt) ∧
      (∀ nanos, cancellation.deadline = some nanos → time ≤ max start (firstMilli nanos)) ∧
      ∀ readyAt, ready = some readyAt → time ≤ max start readyAt := by
  constructor
  · intro ends
    have endsWait := race_eq_some ends
    obtain ⟨cancelledAt, planned, isPast⟩ :=
      check_eq_canceled_iff.mp (endsWait.isOver _ rfl)
    have bound := endsWait.cancelled cancelledAt planned
    have started := endsWait.started
    exact ⟨⟨cancelledAt, planned, by omega⟩, endsWait.late, endsWait.comes⟩
  · rintro ⟨⟨cancelledAt, planned, rfl⟩, beforeLate, beforeReady⟩
    refine race_eq_some_iff.mpr ⟨Nat.le_max_left _ _, ?_, fun earlier isStarted sooner => ?_⟩
    · exact whileOpen_of_over
        (check_eq_canceled_iff.mpr ⟨cancelledAt, planned, Nat.le_max_right _ _⟩)
    · refine whileOpen_readyAt_eq_none_iff.mpr ⟨?_, ?_, ?_⟩
      · intro other isPlanned
        cases planned.symm.trans isPlanned
        omega
      · intro nanos limited
        have bound := beforeLate nanos limited
        omega
      · intro readyAt isReady
        have bound := beforeReady readyAt isReady
        omega

/-- The deadline ends a wait exactly if cancellation is later and the thing is not sooner. -/
theorem race_eq_late_iff :
    cancellation.race start ready = some (time, .error .deadlineExceeded) ↔
      (∃ nanos, cancellation.deadline = some nanos ∧ time = max start (firstMilli nanos)) ∧
      (∀ cancelledAt, cancellation.cancelledAt = some cancelledAt → time < cancelledAt) ∧
      ∀ readyAt, ready = some readyAt → time ≤ max start readyAt := by
  constructor
  · intro ends
    have endsWait := race_eq_some ends
    obtain ⟨notCancelled, nanos, limited, isPast⟩ :=
      check_eq_late_iff.mp (endsWait.isOver _ rfl)
    have bound := endsWait.late nanos limited
    have started := endsWait.started
    exact ⟨⟨nanos, limited, by omega⟩, notCancelled, endsWait.comes⟩
  · rintro ⟨⟨nanos, limited, rfl⟩, notCancelled, beforeReady⟩
    refine race_eq_some_iff.mpr ⟨Nat.le_max_left _ _, ?_, fun earlier isStarted sooner => ?_⟩
    · exact whileOpen_of_over
        (check_eq_late_iff.mpr ⟨notCancelled, nanos, limited, Nat.le_max_right _ _⟩)
    · refine whileOpen_readyAt_eq_none_iff.mpr ⟨?_, ?_, ?_⟩
      · intro cancelledAt planned
        exact Nat.lt_trans sooner (notCancelled cancelledAt planned)
      · intro other isLimit
        cases limited.symm.trans isLimit
        omega
      · intro readyAt isReady
        have bound := beforeReady readyAt isReady
        omega

/-- The thing ends a wait exactly if the call is open when the thing is there. -/
theorem race_eq_ready_iff :
    cancellation.race start ready = some (time, .ok ()) ↔
      (∃ readyAt, ready = some readyAt ∧ time = max start readyAt) ∧
      cancellation.check time = none := by
  constructor
  · intro ends
    obtain ⟨isOpen, isReady⟩ := (race_eq_some ends).isOpen rfl
    exact ⟨isReady, isOpen⟩
  · rintro ⟨⟨readyAt, rfl, rfl⟩, isOpen⟩
    exact race_of_open isOpen

/-- A race is decided by its three times. -/
theorem arbitrates_race (cancellation : Cancellation) (start : Nat) (ready : Option Nat) :
    Arbitrates (metFrom start cancellation.cancelledAt)
      (metFrom start (cancellation.deadline.map firstMilli)) (metFrom start ready)
      (cancellation.race start ready) := by
  obtain ⟨cancelledAt, deadline⟩ := cancellation
  refine ⟨fun time => ?_, fun time => ?_, fun time => ?_, ?_⟩
  case refine_1 =>
    rw [race_eq_canceled_iff]
    cases cancelledAt <;> cases deadline <;> cases ready <;> simp <;> omega
  case refine_2 =>
    rw [race_eq_late_iff]
    cases cancelledAt <;> cases deadline <;> cases ready <;> simp <;> omega
  case refine_3 =>
    rw [race_eq_ready_iff, check_eq_none_iff]
    cases cancelledAt <;> cases deadline <;> cases ready <;>
      simp [← lt_firstMilli_iff] <;> omega
  case refine_4 =>
    rw [race_eq_none_iff]
    cases cancelledAt <;> cases deadline <;> cases ready <;> simp

end Race

/-! ## Exact times -/

/-- Whether a call is over at an exact time in nanoseconds, and why. -/
def checkAt (cancellation : Cancellation) (nanos : Nat) : Option Done :=
  if hasCome (cancellation.cancelledAt.map (· * Timeout.milli)) nanos then some .canceled
  else if hasCome cancellation.deadline nanos then some .deadlineExceeded
  else none

theorem check_eq_checkAt (cancellation : Cancellation) (now : Nat) :
    cancellation.check now = cancellation.checkAt (now * Timeout.milli) := by
  have sameCancel : hasCome (cancellation.cancelledAt.map (· * Timeout.milli))
      (now * Timeout.milli) = hasCome cancellation.cancelledAt now := by
    cases cancellation.cancelledAt with
    | none => rfl
    | some time => simp [hasCome, Nat.mul_le_mul_right_iff (by decide : 0 < Timeout.milli)]
  rw [check, checkAt, sameCancel]

theorem isSome_checkAt_iff {nanos : Nat} : (cancellation.checkAt nanos).isSome = true ↔
    hasCome (cancellation.cancelledAt.map (· * Timeout.milli)) nanos = true ∨
      hasCome cancellation.deadline nanos = true := by
  unfold checkAt
  cases hasCome (cancellation.cancelledAt.map (· * Timeout.milli)) nanos <;>
    cases hasCome cancellation.deadline nanos <;> simp

/-- A call that is over stays over. -/
theorem isSome_checkAt_of_le {earlier later : Nat} (order : earlier ≤ later)
    (isOver : (cancellation.checkAt earlier).isSome = true) :
    (cancellation.checkAt later).isSome = true :=
  isSome_checkAt_iff.mpr
    ((isSome_checkAt_iff.mp isOver).imp (hasCome_of_le order) (hasCome_of_le order))

/-- Looking tells how any wait would fail at once, also one for something that is at hand. -/
theorem check_eq_some_iff_race {now : Nat} {done : Done} :
    cancellation.check now = some done ↔
      cancellation.race now ready = some (now, .error done) := by
  constructor
  · intro isOver
    exact race_of_given (whileOpen_of_over isOver)
  · intro ends
    exact (race_eq_some ends).isOver done rfl

end Cancellation

/-! ## Waits of a call -/

namespace Exchange

variable {exchange : Exchange}

/-- A wait of a call whose caller stays ends like the race: the caller does not cancel the call
meanwhile, and looking first makes no difference. -/
theorem race_of_stays (stays : exchange.outbound.Stays) (ready : Option Nat) :
    ∃ outbound : Outbound, exchange.outbound.GoesOn outbound ∧
      exchange.race ready =
        match exchange.cancellation.race exchange.now ready with
        | none => ({ exchange with outbound }, none)
        | some (time, result) => ({ exchange with now := time, outbound }, some result) := by
  unfold race done?
  cases looked : exchange.cancellation.check exchange.now with
  | some done =>
      refine ⟨exchange.outbound, .refl, ?_⟩
      rw [Cancellation.race_of_given (Cancellation.whileOpen_of_over looked)]
  | none =>
      dsimp only
      split
      case isTrue come =>
        refine ⟨exchange.outbound, .refl, ?_⟩
        have given : exchange.cancellation.whileOpen (.readyAt ready) exchange.now =
            some (.ok ()) := by
          rw [Cancellation.whileOpen_of_open looked, Polled.readyAt, if_pos come]
          rfl
        rw [Cancellation.race_of_given given]
      case isFalse =>
        refine ⟨_, Outbound.goesOn_advance _
          ((exchange.cancellation.race exchange.now ready).map Prod.fst), ?_⟩
        cases ends : exchange.cancellation.race exchange.now ready <;>
          simp [wait, hear_of_stays stays, ends]

/-- When a wait of a call ends, and how. -/
def endOf (waited : Exchange × Option (Except Done Unit)) : Option (Nat × Except Done Unit) :=
  waited.2.map fun result => (waited.1.now, result)

theorem endOf_race (stays : exchange.outbound.Stays) (ready : Option Nat) :
    endOf (exchange.race ready) = exchange.cancellation.race exchange.now ready := by
  obtain ⟨outbound, _, raced⟩ := race_of_stays stays ready
  rw [raced]
  cases exchange.cancellation.race exchange.now ready <;> rfl

open Cancellation in
/-- Every wait of a call is decided by three times, if its caller stays: when the call is cancelled,
when the timer of its deadline fires, and when the awaited thing is there. It ends as asking for
them in this order at each instant would end. Looking whether the call is over tells at each whole
millisecond how a wait would fail then, and a call that is over stays over. -/
theorem waits_arbitrated (cancellation : Cancellation) :
    (∀ (exchange : Exchange) (ready : Option Nat), exchange.cancellation = cancellation →
      exchange.outbound.Stays →
      Arbitrates (metFrom exchange.now cancellation.cancelledAt)
        (metFrom exchange.now (cancellation.deadline.map firstMilli)) (metFrom exchange.now ready)
        (endOf (exchange.race ready)) ∧
      (∀ time result, endOf (exchange.race ready) = some (time, result) ↔
        (cancellation.whileOpen (.readyAt ready)).Gives exchange.now time result) ∧
      ∀ done, exchange.done? = some done ↔
        endOf (exchange.race ready) = some (exchange.now, .error done)) ∧
    (∀ now, cancellation.check now = cancellation.checkAt (now * Timeout.milli)) ∧
    ∀ earlier later, earlier ≤ later → (cancellation.checkAt earlier).isSome = true →
      (cancellation.checkAt later).isSome = true := by
  refine ⟨?_, cancellation.check_eq_checkAt, fun _ _ => isSome_checkAt_of_le⟩
  rintro exchange ready rfl stays
  rw [endOf_race stays]
  exact ⟨arbitrates_race _ _ _, fun _ _ => race_eq_some_iff, fun _ => check_eq_some_iff_race⟩

/-- A call at its start whose cancellation, the timer of whose deadline and the awaited thing all
come at the second millisecond. -/
def tied : Exchange where
  wire := .grpc .proto
  cancellation := ⟨some 2, some 1500000⟩
  inbound := Inbound.ofBody ⟨[.data [0] 2], .complete⟩
  outbound := Outbound.unheard

theorem waits_arbitrated_tied :
    tied.outbound.Stays ∧ endOf (tied.race tied.nextPartAt) = some (2, .error .canceled) ∧
      tied.done? = none := by
  have stays : tied.outbound.Stays := Outbound.stays_unheard
  obtain ⟨arbitrates, _, looks⟩ :=
    (waits_arbitrated tied.cancellation).1 tied tied.nextPartAt rfl stays
  have ends : endOf (tied.race tied.nextPartAt) = some (2, .error .canceled) := by
    refine (arbitrates.canceled 2).mpr ?_
    have due : Cancellation.firstMilli 1500000 = 2 := rfl
    simp [tied, nextPartAt, Inbound.ofBody, due]
  refine ⟨stays, ends, Option.eq_none_iff_forall_ne_some.mpr fun done isOver => ?_⟩
  have atOnce := (looks done).mp isOver
  rw [ends] at atOnce
  cases atOnce

end Exchange

end RpcEcho
