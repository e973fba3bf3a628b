import Mathlib.Logic.Relation
import RpcEcho.Call.Exchange

/-!
# Waiting

A wait ends with whatever comes first: cancellation, the deadline or the awaited thing. A call is
open at an instant if it is neither cancelled nor late then. A call that is open when the awaited
thing is ready was open all the time before, so the wait ends with the thing, at the very time at
which it is ready. The caller acts meanwhile; one that stays with the response changes nothing but
its own state.
-/

namespace RpcEcho

namespace Cancellation

theorem hasCome_eq_false_iff {planned : Option Nat} {now : Nat} :
    hasCome planned now = false ↔ ∀ time, planned = some time → now < time := by
  cases planned <;> simp [hasCome]

theorem check_eq_none_iff {cancellation : Cancellation} {now : Nat} :
    cancellation.check now = none ↔
      (∀ time, cancellation.cancelledAt = some time → now < time) ∧
        ∀ deadline, cancellation.deadline = some deadline → now * Timeout.milli < deadline := by
  rw [← hasCome_eq_false_iff, ← hasCome_eq_false_iff, check]
  by_cases cancelled : hasCome cancellation.cancelledAt now = true
  · simp [cancelled]
  · by_cases late : hasCome cancellation.deadline (now * Timeout.milli) = true
    · simp [cancelled, late]
    · simp [cancelled, late]

/-- A call that is open at an instant was open before. -/
theorem check_eq_none_of_le {cancellation : Cancellation} {earlier later : Nat}
    (order : earlier ≤ later) (isOpen : cancellation.check later = none) :
    cancellation.check earlier = none := by
  obtain ⟨notCancelled, notLate⟩ := check_eq_none_iff.mp isOpen
  refine check_eq_none_iff.mpr ⟨fun time planned => ?_, fun deadline planned => ?_⟩
  · exact Nat.lt_of_le_of_lt order (notCancelled time planned)
  · exact Nat.lt_of_le_of_lt (Nat.mul_le_mul_right Timeout.milli order) (notLate deadline planned)

/-- A timer is due after an instant exactly if its time is. -/
theorem lt_firstMilli_iff {now nanos : Nat} :
    now < firstMilli nanos ↔ now * Timeout.milli < nanos := by
  unfold firstMilli Timeout.milli
  omega

theorem race_of_open {cancellation : Cancellation} {start ready : Nat}
    (isOpen : cancellation.check (max start ready) = none) :
    cancellation.race start (some ready) = some (max start ready, .ok ()) := by
  obtain ⟨notCancelled, notLate⟩ := check_eq_none_iff.mp isOpen
  obtain ⟨cancelledAt, deadline⟩ := cancellation
  have cancelledLater : noLater (cancelledAt.map (max start)) (some (max start ready)) = false := by
    cases cancelledAt with
    | none => rfl
    | some time =>
        have later := notCancelled time rfl
        simp only [Option.map_some, noLater, decide_eq_false_iff_not]
        omega
  have dueLater :
      noLater (deadline.map fun deadline => max start (firstMilli deadline))
        (some (max start ready)) = false := by
    cases deadline with
    | none => rfl
    | some nanos =>
        have later := lt_firstMilli_iff.mpr (notLate nanos rfl)
        simp only [Option.map_some, noLater, decide_eq_false_iff_not]
        omega
  simp [race, cancelledLater, dueLater]

/-! ## What ends a wait -/

theorem noLater_iff {first second : Option Nat} :
    noLater first second = true ↔
      ∃ time, first = some time ∧ ∀ other, second = some other → time ≤ other := by
  cases first <;> cases second <;> simp [noLater]

theorem noLater_eq_false_iff {first second : Option Nat} :
    noLater first second = false ↔
      ∀ time, first = some time → ∃ other, second = some other ∧ other < time := by
  cases first <;> cases second <;> simp [noLater]

variable {cancellation : Cancellation} {start : Nat} {ready : Option Nat}

theorem check_eq_canceled_iff {now : Nat} :
    cancellation.check now = some .canceled ↔
      ∃ time, cancellation.cancelledAt = some time ∧ time ≤ now := by
  have notLate : (if hasCome cancellation.deadline (now * Timeout.milli) then
      some Done.deadlineExceeded else none) ≠ some .canceled := by
    split <;> simp
  cases planned : cancellation.cancelledAt with
  | none => simpa [check, planned, hasCome] using notLate
  | some time =>
      by_cases come : time ≤ now
      · simp [check, planned, hasCome, come]
      · simpa [check, planned, hasCome, come] using notLate

theorem check_eq_late_iff {now : Nat} :
    cancellation.check now = some .deadlineExceeded ↔
      (∀ time, cancellation.cancelledAt = some time → now < time) ∧
        ∃ nanos, cancellation.deadline = some nanos ∧ firstMilli nanos ≤ now := by
  rw [← hasCome_eq_false_iff, check]
  cases hasCome cancellation.cancelledAt now with
  | true => simp
  | false =>
      cases cancellation.deadline with
      | none => simp [hasCome]
      | some nanos =>
          have due := @lt_firstMilli_iff now nanos
          simp [hasCome]
          omega

/-- Whoever is cancelled by a time is cancelled then or before. -/
theorem exists_cancelBy (cancellation : Cancellation) (time : Nat) :
    ∃ cancelledAt, (cancellation.cancelBy (some time)).cancelledAt = some cancelledAt ∧
      cancelledAt ≤ time := by
  unfold cancelBy
  split
  case isTrue => exact ⟨time, rfl, Nat.le_refl _⟩
  case isFalse notLater =>
    rw [Bool.not_eq_true, noLater_eq_false_iff] at notLater
    obtain ⟨cancelledAt, planned, sooner⟩ := notLater time rfl
    exact ⟨cancelledAt, planned, Nat.le_of_lt sooner⟩

theorem hasCome_eq_true_iff {planned : Option Nat} {now : Nat} :
    hasCome planned now = true ↔ ∃ time, planned = some time ∧ time ≤ now := by
  cases planned <;> simp [hasCome]

/-- What has come has come at every later time. -/
theorem hasCome_of_le {planned : Option Nat} {earlier later : Nat} (order : earlier ≤ later)
    (come : hasCome planned earlier = true) : hasCome planned later = true := by
  obtain ⟨time, rfl, isPast⟩ := hasCome_eq_true_iff.mp come
  exact hasCome_eq_true_iff.mpr ⟨time, rfl, Nat.le_trans isPast order⟩

/-- How a wait ends: at a time that no other end precedes, and as the call stands then. -/
structure EndsWait (cancellation : Cancellation) (start : Nat) (ready : Option Nat) (time : Nat)
    (result : Except Done Unit) : Prop where
  started : start ≤ time
  cancelled : ∀ cancelledAt, cancellation.cancelledAt = some cancelledAt →
    time ≤ max start cancelledAt
  late : ∀ nanos, cancellation.deadline = some nanos → time ≤ max start (firstMilli nanos)
  comes : ∀ readyAt, ready = some readyAt → time ≤ max start readyAt
  isOver : ∀ done, result = .error done → cancellation.check time = some done
  isOpen : result = .ok () → cancellation.check time = none ∧
    ∃ readyAt, ready = some readyAt ∧ time = max start readyAt

theorem race_eq_some {time : Nat} {result : Except Done Unit}
    (ends : cancellation.race start ready = some (time, result)) :
    cancellation.EndsWait start ready time result := by
  unfold race at ends
  dsimp only at ends
  split at ends
  case isTrue first =>
    obtain ⟨first, second⟩ := Bool.and_eq_true_iff.mp first
    obtain ⟨end_, planned, beforeLate⟩ := noLater_iff.mp first
    obtain ⟨_, same, beforeReady⟩ := noLater_iff.mp second
    cases planned.symm.trans same
    obtain ⟨cancelledAt, isPlanned, rfl⟩ := Option.map_eq_some_iff.mp planned
    rw [planned] at ends
    cases ends
    refine ⟨Nat.le_max_left _ _, fun other planned => ?_, fun nanos due => ?_,
      fun readyAt isReady => ?_, fun done isDone => ?_, fun isOk => nomatch isOk⟩
    · cases isPlanned.symm.trans planned
      exact Nat.le_refl _
    · exact beforeLate _ (by rw [due]; rfl)
    · exact beforeReady _ (by rw [isReady]; rfl)
    · cases isDone
      exact check_eq_canceled_iff.mpr ⟨cancelledAt, isPlanned, Nat.le_max_right _ _⟩
  case isFalse notFirst =>
    split at ends
    case isTrue second =>
      obtain ⟨end_, due, beforeReady⟩ := noLater_iff.mp second
      have notCancelled : ∀ cancelledAt, cancellation.cancelledAt = some cancelledAt →
          end_ < max start cancelledAt := by
        intro cancelledAt planned
        refine Nat.lt_of_not_le fun sooner => notFirst (Bool.and_eq_true_iff.mpr ⟨?_, ?_⟩)
        · rw [planned, due]
          exact noLater_iff.mpr ⟨_, rfl, fun other same => Option.some.inj same ▸ sooner⟩
        · rw [planned]
          exact noLater_iff.mpr
            ⟨_, rfl, fun other isReady => Nat.le_trans sooner (beforeReady other isReady)⟩
      obtain ⟨nanos, isDue, rfl⟩ := Option.map_eq_some_iff.mp due
      rw [due] at ends
      cases ends
      refine ⟨Nat.le_max_left _ _, fun other planned => Nat.le_of_lt (notCancelled other planned),
        fun other due => ?_, fun readyAt isReady => beforeReady _ (by rw [isReady]; rfl),
        fun done isDone => ?_, fun isOk => nomatch isOk⟩
      · cases isDue.symm.trans due
        exact Nat.le_refl _
      · cases isDone
        refine check_eq_late_iff.mpr ⟨fun other planned => ?_, nanos, isDue, Nat.le_max_right _ _⟩
        have isLater := notCancelled other planned
        omega
    case isFalse notSecond =>
      obtain ⟨end_, isReady, same⟩ := Option.map_eq_some_iff.mp ends
      cases same
      have notLate : ∀ nanos, cancellation.deadline = some nanos →
          time < max start (firstMilli nanos) := by
        intro nanos due
        refine Nat.lt_of_not_le fun sooner => notSecond ?_
        rw [due, isReady]
        exact noLater_iff.mpr ⟨_, rfl, fun other same => Option.some.inj same ▸ sooner⟩
      have notCancelled : ∀ cancelledAt, cancellation.cancelledAt = some cancelledAt →
          time < max start cancelledAt := by
        intro cancelledAt planned
        refine Nat.lt_of_not_le fun sooner => notFirst (Bool.and_eq_true_iff.mpr ⟨?_, ?_⟩)
        · rw [planned]
          refine noLater_iff.mpr ⟨_, rfl, fun other due => ?_⟩
          obtain ⟨nanos, isDue, rfl⟩ := Option.map_eq_some_iff.mp due
          exact Nat.le_trans sooner (Nat.le_of_lt (notLate nanos isDue))
        · rw [planned, isReady]
          exact noLater_iff.mpr ⟨_, rfl, fun other same => Option.some.inj same ▸ sooner⟩
      obtain ⟨readyAt, isPlanned, rfl⟩ := Option.map_eq_some_iff.mp isReady
      refine ⟨Nat.le_max_left _ _, fun other planned => Nat.le_of_lt (notCancelled other planned),
        fun other due => Nat.le_of_lt (notLate other due), fun other planned => ?_,
        fun done isDone => (nomatch isDone), fun _ => ⟨?_, readyAt, isPlanned, rfl⟩⟩
      · cases isPlanned.symm.trans planned
        exact Nat.le_refl _
      · refine check_eq_none_iff.mpr ⟨fun other planned => ?_, fun nanos due => ?_⟩
        · have isLater := notCancelled other planned
          omega
        · have isLater := notLate nanos due
          exact lt_firstMilli_iff.mp (by omega)

theorem race_eq_none (never : cancellation.race start ready = none) :
    cancellation.cancelledAt = none ∧ cancellation.deadline = none ∧ ready = none := by
  unfold race at never
  dsimp only at never
  split at never
  case isTrue first =>
    obtain ⟨end_, planned, _⟩ := noLater_iff.mp (Bool.and_eq_true_iff.mp first).1
    rw [planned] at never
    cases never
  case isFalse notFirst =>
    split at never
    case isTrue second =>
      obtain ⟨end_, due, _⟩ := noLater_iff.mp second
      rw [due] at never
      cases never
    case isFalse notSecond =>
      have notReady : ready = none := Option.map_eq_none_iff.mp (Option.map_eq_none_iff.mp never)
      have notLate : cancellation.deadline = none := by
        cases due : cancellation.deadline with
        | none => rfl
        | some nanos =>
            refine absurd ?_ notSecond
            rw [due, notReady]
            rfl
      refine ⟨?_, notLate, notReady⟩
      cases planned : cancellation.cancelledAt with
      | none => rfl
      | some cancelledAt =>
          refine absurd ?_ notFirst
          rw [planned, notLate, notReady]
          rfl

/-- Cancelling an open call before everything else ends a wait. -/
theorem race_cancelBy {time : Nat} (isOpen : cancellation.check start = none)
    (later : start ≤ time)
    (cancelled : ∀ cancelledAt, cancellation.cancelledAt = some cancelledAt →
      time ≤ max start cancelledAt)
    (late : ∀ nanos, cancellation.deadline = some nanos → time ≤ max start (firstMilli nanos))
    (comes : ∀ readyAt, ready = some readyAt → time ≤ max start readyAt) :
    (cancellation.cancelBy (some time)).race start ready = some (time, .error .canceled) := by
  have sooner : noLater (some time) cancellation.cancelledAt = true := by
    refine noLater_iff.mpr ⟨time, rfl, fun cancelledAt planned => ?_⟩
    have notBefore := (check_eq_none_iff.mp isOpen).1 cancelledAt planned
    have bound := cancelled cancelledAt planned
    omega
  have first : noLater (some time) (cancellation.deadline.map fun deadline =>
      max start (firstMilli deadline)) = true := by
    refine noLater_iff.mpr ⟨time, rfl, fun other due => ?_⟩
    obtain ⟨nanos, isDue, rfl⟩ := Option.map_eq_some_iff.mp due
    exact late nanos isDue
  have second : noLater (some time) (ready.map (max start)) = true := by
    refine noLater_iff.mpr ⟨time, rfl, fun other isReady => ?_⟩
    obtain ⟨readyAt, planned, rfl⟩ := Option.map_eq_some_iff.mp isReady
    exact comes readyAt planned
  rw [cancelBy, if_pos sooner, race]
  simp only [Option.map_some, Nat.max_eq_right later, first, second, Bool.and_self, if_true]

end Cancellation

/-! ## A caller that stays -/

namespace Outbound

/-- The response was not dropped, and nothing makes its caller leave. -/
structure Stays (outbound : Outbound) : Prop where
  notDropped : outbound.droppedAt = none
  wantsAll : outbound.caller.limit = none
  notClosed : outbound.closed = false
  notLeaving : ∀ time, outbound.state ≠ .leaving time

theorem stays_unheard : unheard.Stays :=
  ⟨rfl, rfl, rfl, fun _ leaving => by cases leaving⟩

theorem Stays.act {outbound : Outbound} (stays : outbound.Stays) : outbound.act.Stays := by
  obtain ⟨notDropped, wantsAll, notClosed, notLeaving⟩ := stays
  unfold Outbound.act
  split
  · refine ⟨notDropped, ?_, notClosed, fun later leaving => ?_⟩
    · simp [Caller.took, wantsAll]
    · simp [Caller.took, Caller.next, wantsAll] at leaving
  · split
    · rename_i isClosed
      rw [notClosed] at isClosed
      cases isClosed
    · exact ⟨notDropped, wantsAll, notClosed, fun _ leaving => by cases leaving⟩
  · rename_i time leaves
    exact absurd leaves (notLeaving time)
  · exact ⟨notDropped, wantsAll, notClosed, notLeaving⟩
  · exact ⟨notDropped, wantsAll, notClosed, notLeaving⟩

theorem Stays.advance {outbound : Outbound} (stays : outbound.Stays) (limit : Option Nat) :
    (outbound.advance limit).Stays := by
  fun_induction Outbound.advance limit outbound with
  | case1 outbound idle => exact stays
  | case2 outbound time due isBy inductionHypothesis => exact inductionHypothesis stays.act
  | case3 outbound time due isLater => exact stays

/-- What becomes of a response while the task waits: its caller acts up to some times, one after the
other. -/
def GoesOn : Outbound → Outbound → Prop :=
  Relation.ReflTransGen fun before after => ∃ limit, after = before.advance limit

theorem goesOn_advance (outbound : Outbound) (limit : Option Nat) :
    outbound.GoesOn (outbound.advance limit) := .single ⟨limit, rfl⟩

/-- What the caller keeps up to each time, it keeps while the task waits. -/
theorem GoesOn.keeps {property : Outbound → Prop} {before after : Outbound}
    (goesOn : before.GoesOn after)
    (advances : ∀ outbound limit, property outbound → property (outbound.advance limit))
    (start : property before) : property after := by
  induction goesOn with
  | refl => exact start
  | tail _ next inductionHypothesis =>
      obtain ⟨limit, rfl⟩ := next
      exact advances _ limit inductionHypothesis

theorem Stays.goesOn {before after : Outbound} (stays : before.Stays)
    (goesOn : before.GoesOn after) : after.Stays :=
  goesOn.keeps (fun _ limit stays => stays.advance limit) stays

end Outbound

namespace Exchange

/-- The call is open at an instant, and its caller stays. -/
structure IsOpenAt (exchange : Exchange) (time : Nat) : Prop where
  check : exchange.cancellation.check time = none
  stays : exchange.outbound.Stays

variable {exchange : Exchange}

theorem IsOpenAt.mono {earlier later : Nat} (order : earlier ≤ later)
    (isOpen : exchange.IsOpenAt later) : exchange.IsOpenAt earlier :=
  ⟨Cancellation.check_eq_none_of_le order isOpen.check, isOpen.stays⟩

/-- What the caller of an open call does leaves the call open. -/
theorem hear_of_stays (stays : exchange.outbound.Stays) (limit : Option Nat) :
    exchange.hear limit = { exchange with outbound := exchange.outbound.advance limit } := by
  have notDropped := (stays.advance limit).notDropped
  simp [hear, notDropped, Cancellation.cancelBy, Cancellation.noLater]

/-- A call that is open when the awaited thing is ready waits for it, while its caller acts. -/
theorem wait_of_open {ready : Nat} (isOpen : exchange.IsOpenAt (max exchange.now ready)) :
    exchange.wait (some ready) =
      ({ exchange with
        now := max exchange.now ready
        outbound := exchange.outbound.advance (some (max exchange.now ready)) },
        some (.ok ())) := by
  have planned := Cancellation.race_of_open isOpen.check
  simp [wait, planned, hear_of_stays isOpen.stays]

/-- A wait in a call that is open when the awaited thing is ready ends then, with the thing. -/
theorem race_of_open {ready : Nat} (isOpen : exchange.IsOpenAt (max exchange.now ready)) :
    ∃ outbound : Outbound, exchange.outbound.GoesOn outbound ∧
      exchange.race (some ready) =
        ({ exchange with now := max exchange.now ready, outbound }, some (.ok ())) := by
  have openNow : exchange.done? = none :=
    (isOpen.mono (Nat.le_max_left exchange.now ready)).check
  rw [race, openNow]
  by_cases come : ready ≤ exchange.now
  · refine ⟨exchange.outbound, .refl, ?_⟩
    simp [Cancellation.hasCome, come]
  · refine ⟨_, Outbound.goesOn_advance _ (some (max exchange.now ready)), ?_⟩
    simp [Cancellation.hasCome, come, wait_of_open isOpen]

/-- A wait for nothing never ends in a call that nothing ends. -/
theorem race_of_never (unending : exchange.cancellation = .never)
    (stays : exchange.outbound.Stays) :
    exchange.race none =
      ({ exchange with outbound := exchange.outbound.advance none }, none) := by
  have openNow : exchange.done? = none := by
    rw [done?, unending]
    rfl
  have planned : Cancellation.never.race exchange.now none = none := rfl
  simp [race, openNow, Cancellation.hasCome, wait, unending, planned, hear_of_stays stays]

end Exchange

end RpcEcho
