import RpcEcho.Api.Service
import RpcEcho.Cancellation

/-!
# The tokens of a server

A server has a token for its drain, and each call has one: a call with one message in and one out
has a token of its own, and every other call has one below that of the drain. The drain cancels its
token. The response of a stream of messages cancels the token of its call when it is over or
dropped.

The tokens come from a library, of which nothing is assumed but `TokenLibrary.IsLawful`: a token
follows those above it, and never affects them. `Tokens` are the tokens of a server in the middle of
a history of events, in any order and number. `Tokens.Sound` is what every history keeps: which
tokens stand below which, and which of them are cancelled at least or not at all.
-/

namespace RpcEcho

/-! ## The library -/

/-- A library of cancellation tokens. All tokens live in one state. -/
structure TokenLibrary (σ τ : Type) where
  isCancelled : σ → τ → Bool
  /-- Makes a token of its own. -/
  create : σ → τ × σ
  /-- Makes a token below another one. -/
  child : σ → τ → τ × σ
  cancel : σ → τ → σ

/-- Which tokens were made, and which of them stand below which. A token stands below itself. -/
structure TokenOrder (σ τ : Type) where
  isKnown : σ → τ → Prop
  isBelow : σ → τ → τ → Prop

namespace TokenLibrary

variable {σ τ : Type}

/-- A token is added to those of a state, below some of them, and cancelled or not. Nothing happens
to the others. -/
structure Adds (library : TokenLibrary σ τ) (order : TokenOrder σ τ) (before : σ) (made : τ × σ)
    (above : τ → Prop) (cancelled : Bool) : Prop where
  isKnown : ∀ token, order.isKnown made.2 token ↔ token = made.1 ∨ order.isKnown before token
  isCancelled : library.isCancelled made.2 made.1 = cancelled
  isBelow : ∀ token, order.isKnown before token → (order.isBelow made.2 made.1 token ↔ above token)
  notAbove : ∀ token, order.isKnown before token → ¬ order.isBelow made.2 token made.1
  keepsOrder : ∀ token other, order.isKnown before token → order.isKnown before other →
    (order.isBelow made.2 token other ↔ order.isBelow before token other)
  keeps : ∀ token, order.isKnown before token →
    library.isCancelled made.2 token = library.isCancelled before token

/-- What is assumed of a library: a token is cancelled with the tokens above it, and made cancelled
below a cancelled one; nothing that happens to a token affects one that is not below it. -/
structure IsLawful (library : TokenLibrary σ τ) (order : TokenOrder σ τ) : Prop where
  isBelow_self : ∀ state token, order.isKnown state token → order.isBelow state token token
  create : ∀ state, library.Adds order state (library.create state) (fun _ => False) false
  child : ∀ state parent, order.isKnown state parent →
    library.Adds order state (library.child state parent) (order.isBelow state parent)
      (library.isCancelled state parent)
  isKnown_cancel : ∀ state token other,
    order.isKnown (library.cancel state token) other ↔ order.isKnown state other
  isBelow_cancel : ∀ state token other another,
    order.isBelow (library.cancel state token) other another ↔ order.isBelow state other another
  isCancelled_cancel : ∀ state token other, order.isKnown state token → order.isKnown state other →
    (library.isCancelled (library.cancel state token) other = true ↔
      library.isCancelled state other = true ∨ order.isBelow state other token)

/-- A token that is not below the one that is cancelled stays as it is. -/
theorem IsLawful.isCancelled_of_apart {library : TokenLibrary σ τ} {order : TokenOrder σ τ}
    (lawful : library.IsLawful order) {state : σ} {token other : τ}
    (known : order.isKnown state token) (otherKnown : order.isKnown state other)
    (apart : ¬ order.isBelow state other token) :
    library.isCancelled (library.cancel state token) other = library.isCancelled state other := by
  refine Bool.eq_iff_iff.mpr ((lawful.isCancelled_cancel _ _ _ known otherKnown).trans ?_)
  exact or_iff_left apart

end TokenLibrary

/-! ## The tokens of a server -/

/-- A call that began, with its token. -/
structure Begun (τ : Type) where
  kind : MethodKind
  token : τ

/-- The tokens of a server, and the present millisecond. -/
structure Tokens (σ τ : Type) where
  state : σ
  drain : τ
  /-- The calls that began, first to begin first. -/
  calls : List (Begun τ)
  now : Nat

/-- What can happen to the tokens of a server. -/
inductive Event where
  | begins (kind : MethodKind)
  /-- The response of a call is over, or its caller drops it. -/
  | leaves (place : Nat)
  | drains
  | passes (millis : Nat)

/-- Whether the response of a call cancels the token of the call in the end. -/
def MethodKind.guards : MethodKind → Bool
  | .serverStreaming | .bidiStreaming => true
  | .unary | .clientStreaming => false

namespace Tokens

variable {σ τ : Type} (library : TokenLibrary σ τ)

/-- A server that has just started has the token of its drain. -/
def start (state : σ) : Tokens σ τ :=
  let (drain, state) := library.create state
  ⟨state, drain, [], 0⟩

/-- Makes the token of a call. -/
def tokenFor (tokens : Tokens σ τ) (kind : MethodKind) : τ × σ :=
  match kind with
  | .unary => library.create tokens.state
  | _ => library.child tokens.state tokens.drain

/-- A call begins. -/
def begins (tokens : Tokens σ τ) (kind : MethodKind) : Tokens σ τ :=
  let (token, state) := tokens.tokenFor library kind
  { tokens with state, calls := tokens.calls ++ [⟨kind, token⟩] }

/-- The response of a call is over or dropped. -/
def leaves (tokens : Tokens σ τ) (place : Nat) : Tokens σ τ :=
  match tokens.calls[place]? with
  | some call =>
    if call.kind.guards then { tokens with state := library.cancel tokens.state call.token }
    else tokens
  | none => tokens

/-- Something happens. -/
def step (tokens : Tokens σ τ) : Event → Tokens σ τ
  | .begins kind => tokens.begins library kind
  | .leaves place => tokens.leaves library place
  | .drains => { tokens with state := library.cancel tokens.state tokens.drain }
  | .passes millis => { tokens with now := tokens.now + millis }

/-- What a history leads to. -/
def run (tokens : Tokens σ τ) (events : List Event) : Tokens σ τ :=
  events.foldl (step library) tokens

/-- The tokens of a server after a history. -/
def after (state : σ) (events : List Event) : Tokens σ τ :=
  (start library state).run library events

/-- Whether the token of the drain is cancelled. -/
def isDraining (tokens : Tokens σ τ) : Bool := library.isCancelled tokens.state tokens.drain

/-- Whether the token of a call is cancelled. -/
def isOver (tokens : Tokens σ τ) (call : Begun τ) : Bool :=
  library.isCancelled tokens.state call.token

/-- In another state of the library the drain and the calls but that of a place are as they are. -/
def KeepsOthers (tokens : Tokens σ τ) (place : Nat) (state : σ) : Prop :=
  library.isCancelled state tokens.drain = tokens.isDraining library ∧
    ∀ otherPlace other, tokens.calls[otherPlace]? = some other → otherPlace ≠ place →
      library.isCancelled state other.token = tokens.isOver library other

variable (order : TokenOrder σ τ)

/-- What holds of the tokens of a server after every history. -/
structure Sound (tokens : Tokens σ τ) : Prop where
  knowsDrain : order.isKnown tokens.state tokens.drain
  isKnown : ∀ call ∈ tokens.calls, order.isKnown tokens.state call.token
  /-- The drain is not below a call. -/
  notBelow : ∀ call ∈ tokens.calls, ¬ order.isBelow tokens.state tokens.drain call.token
  /-- A call is not below another one. -/
  apart : tokens.calls.Pairwise fun first second =>
    ¬ order.isBelow tokens.state first.token second.token ∧
      ¬ order.isBelow tokens.state second.token first.token
  /-- The calls below the drain are those with many messages in or out. -/
  isBelow : ∀ call ∈ tokens.calls,
    (order.isBelow tokens.state call.token tokens.drain ↔ call.kind ≠ .unary)
  /-- Nothing cancels a call with one message in and one out. -/
  notOver : ∀ call ∈ tokens.calls, call.kind = .unary → tokens.isOver library call = false
  /-- The other calls follow the drain. -/
  follows : ∀ call ∈ tokens.calls, call.kind ≠ .unary → tokens.isDraining library = true →
    tokens.isOver library call = true

variable {library order} {tokens : Tokens σ τ}

theorem sound_start (lawful : library.IsLawful order) (state : σ) :
    (start library state).Sound library order where
  knowsDrain := ((lawful.create state).isKnown _).mpr (.inl rfl)
  isKnown := fun _ member => nomatch member
  notBelow := fun _ member => nomatch member
  apart := .nil
  isBelow := fun _ member => nomatch member
  notOver := fun _ member => nomatch member
  follows := fun _ member => nomatch member

/-- The token of a call that begins is added: below nothing, or below the drain. -/
theorem Sound.tokenFor (sound : tokens.Sound library order) (lawful : library.IsLawful order)
    (kind : MethodKind) :
    ∃ above cancelled, library.Adds order tokens.state (tokens.tokenFor library kind) above
        cancelled ∧
      (∀ call ∈ tokens.calls, ¬ above call.token) ∧ (above tokens.drain ↔ kind ≠ .unary) ∧
      cancelled = (decide (kind ≠ .unary) && tokens.isDraining library) := by
  have below : ∃ above cancelled, library.Adds order tokens.state
      (library.child tokens.state tokens.drain) above cancelled ∧
      (∀ call ∈ tokens.calls, ¬ above call.token) ∧ above tokens.drain ∧
      cancelled = tokens.isDraining library :=
    ⟨_, _, lawful.child _ _ sound.knowsDrain, sound.notBelow,
      lawful.isBelow_self _ _ sound.knowsDrain, rfl⟩
  cases kind with
  | unary =>
      exact ⟨_, _, lawful.create _, fun _ _ => id, ⟨False.elim, fun other => other rfl⟩, rfl⟩
  | serverStreaming | clientStreaming | bidiStreaming =>
      obtain ⟨above, cancelled, adds, notAbove, isAbove, same⟩ := below
      exact ⟨above, cancelled, adds, notAbove,
        ⟨fun _ isUnary => (nomatch isUnary), fun _ => isAbove⟩, same⟩

theorem Sound.begins (sound : tokens.Sound library order) (lawful : library.IsLawful order)
    (kind : MethodKind) : (tokens.begins library kind).Sound library order := by
  obtain ⟨above, cancelled, adds, notAbove, isAbove, isCancelled⟩ := sound.tokenFor lawful kind
  have each {property : Begun τ → Prop} (before : ∀ call ∈ tokens.calls, property call)
      (added : property ⟨kind, (tokens.tokenFor library kind).1⟩) :
      ∀ call ∈ (tokens.begins library kind).calls, property call := by
    intro call member
    rcases List.mem_append.mp member with earlier | isLast
    · exact before call earlier
    · rw [List.mem_singleton.mp isLast]
      exact added
  have keepsDraining : (tokens.begins library kind).isDraining library =
      tokens.isDraining library := adds.keeps _ sound.knowsDrain
  have keepsOver (call : Begun τ) (member : call ∈ tokens.calls) :
      (tokens.begins library kind).isOver library call = tokens.isOver library call :=
    adds.keeps _ (sound.isKnown call member)
  have keepsOrder (first second : Begun τ) (member : first ∈ tokens.calls)
      (memberToo : second ∈ tokens.calls) :=
    adds.keepsOrder first.token second.token (sound.isKnown first member)
      (sound.isKnown second memberToo)
  refine ⟨(adds.isKnown _).mpr (.inr sound.knowsDrain), ?_, ?_, ?_, ?_, ?_, ?_⟩
  · refine each (fun call member => ?_) ?_
    · exact (adds.isKnown _).mpr (.inr (sound.isKnown call member))
    · exact (adds.isKnown _).mpr (.inl rfl)
  · refine each (fun call member => ?_) ?_
    · intro below
      refine sound.notBelow call member ?_
      exact (adds.keepsOrder _ _ sound.knowsDrain (sound.isKnown call member)).mp below
    · exact adds.notAbove _ sound.knowsDrain
  · refine List.pairwise_append.mpr ⟨?_, List.pairwise_singleton _ _, ?_⟩
    · refine sound.apart.imp_of_mem fun {first second} member memberToo apart => ?_
      exact ⟨fun below => apart.1 ((keepsOrder first second member memberToo).mp below),
        fun below => apart.2 ((keepsOrder second first memberToo member).mp below)⟩
    · intro call member other isLast
      rw [List.mem_singleton.mp isLast]
      refine ⟨adds.notAbove _ (sound.isKnown call member), fun below => ?_⟩
      exact notAbove call member ((adds.isBelow _ (sound.isKnown call member)).mp below)
  · refine each (fun call member => ?_) ?_
    · refine Iff.trans ?_ (sound.isBelow call member)
      exact adds.keepsOrder _ _ (sound.isKnown call member) sound.knowsDrain
    · exact (adds.isBelow _ sound.knowsDrain).trans isAbove
  · refine each (fun call member isUnary => ?_) (fun isUnary => ?_)
    · exact (keepsOver call member).trans (sound.notOver call member isUnary)
    · have isUnary : kind = .unary := isUnary
      refine adds.isCancelled.trans (isCancelled.trans ?_)
      simp [isUnary]
  · rw [keepsDraining]
    refine each (fun call member notUnary draining => ?_) (fun notUnary draining => ?_)
    · exact (keepsOver call member).trans (sound.follows call member notUnary draining)
    · have notUnary : kind ≠ .unary := notUnary
      refine adds.isCancelled.trans (isCancelled.trans ?_)
      simp [notUnary, draining]

/-- A call that is cancelled is apart from every other call, and the drain is not below it. -/
theorem Sound.apart_of_ne (sound : tokens.Sound library order) {place otherPlace : Nat}
    {call other : Begun τ} (isCall : tokens.calls[place]? = some call)
    (isOther : tokens.calls[otherPlace]? = some other) (differ : otherPlace ≠ place) :
    ¬ order.isBelow tokens.state other.token call.token := by
  obtain ⟨bound, rfl⟩ := List.getElem?_eq_some_iff.mp isCall
  obtain ⟨otherBound, rfl⟩ := List.getElem?_eq_some_iff.mp isOther
  rcases Nat.lt_or_gt_of_ne differ with less | more
  · exact (List.pairwise_iff_getElem.mp sound.apart _ _ otherBound bound less).1
  · exact (List.pairwise_iff_getElem.mp sound.apart _ _ bound otherBound more).2

/-- Cancelling the token of a call touches neither the drain nor another call. -/
theorem Sound.cancel_call (sound : tokens.Sound library order) (lawful : library.IsLawful order)
    {place : Nat} {call : Begun τ} (isCall : tokens.calls[place]? = some call) :
    tokens.KeepsOthers library place (library.cancel tokens.state call.token) := by
  have member := List.mem_of_getElem? isCall
  have known := sound.isKnown call member
  refine ⟨lawful.isCancelled_of_apart known sound.knowsDrain (sound.notBelow call member), ?_⟩
  intro otherPlace other isOther differ
  have otherKnown := sound.isKnown other (List.mem_of_getElem? isOther)
  exact lawful.isCancelled_of_apart known otherKnown (sound.apart_of_ne isCall isOther differ)

/-- Cancelling a known token keeps which tokens are known and which are below which. -/
theorem Sound.cancel (sound : tokens.Sound library order) (lawful : library.IsLawful order)
    (token : τ)
    (notOver : ∀ call ∈ tokens.calls, call.kind = .unary →
      library.isCancelled (library.cancel tokens.state token) call.token = false)
    (follows : ∀ call ∈ tokens.calls, call.kind ≠ .unary →
      library.isCancelled (library.cancel tokens.state token) tokens.drain = true →
        library.isCancelled (library.cancel tokens.state token) call.token = true) :
    Sound library order { tokens with state := library.cancel tokens.state token } where
  knowsDrain := (lawful.isKnown_cancel _ _ _).mpr sound.knowsDrain
  isKnown := fun call member => (lawful.isKnown_cancel _ _ _).mpr (sound.isKnown call member)
  notBelow := fun call member below =>
    sound.notBelow call member ((lawful.isBelow_cancel _ _ _ _).mp below)
  apart := sound.apart.imp fun apart =>
    ⟨fun below => apart.1 ((lawful.isBelow_cancel _ _ _ _).mp below),
      fun below => apart.2 ((lawful.isBelow_cancel _ _ _ _).mp below)⟩
  isBelow := fun call member => (lawful.isBelow_cancel _ _ _ _).trans (sound.isBelow call member)
  notOver := notOver
  follows := follows

theorem Sound.drains (sound : tokens.Sound library order) (lawful : library.IsLawful order) :
    (tokens.step library .drains).Sound library order := by
  refine sound.cancel lawful tokens.drain ?_ ?_
  · intro call member isUnary
    have apart : ¬ order.isBelow tokens.state call.token tokens.drain :=
      fun below => (sound.isBelow call member).mp below isUnary
    exact (lawful.isCancelled_of_apart sound.knowsDrain (sound.isKnown call member) apart).trans
      (sound.notOver call member isUnary)
  · intro call member notUnary _
    refine (lawful.isCancelled_cancel _ _ _ sound.knowsDrain (sound.isKnown call member)).mpr ?_
    exact .inr ((sound.isBelow call member).mpr notUnary)

/-- What is left by a response that is over: everything as it was, or a cancelled call. -/
theorem leaves_cases (library : TokenLibrary σ τ) (tokens : Tokens σ τ) (place : Nat) :
    tokens.leaves library place = tokens ∨
      ∃ call, tokens.calls[place]? = some call ∧ call.kind.guards = true ∧
        tokens.leaves library place =
          { tokens with state := library.cancel tokens.state call.token } := by
  unfold leaves
  cases tokens.calls[place]? with
  | none => exact .inl rfl
  | some call =>
      cases guards : call.kind.guards with
      | false => exact .inl (if_neg (Bool.eq_false_iff.mp guards))
      | true => exact .inr ⟨call, rfl, guards, if_pos guards⟩

theorem Sound.leaves_keepsOthers (sound : tokens.Sound library order)
    (lawful : library.IsLawful order) (place : Nat) :
    tokens.KeepsOthers library place (tokens.leaves library place).state := by
  rcases leaves_cases library tokens place with same | ⟨call, isCall, _, cancels⟩
  · rw [same]
    exact ⟨rfl, fun _ _ _ _ => rfl⟩
  · rw [cancels]
    exact sound.cancel_call lawful isCall

theorem Sound.leaves (sound : tokens.Sound library order) (lawful : library.IsLawful order)
    (place : Nat) : (tokens.leaves library place).Sound library order := by
  rcases leaves_cases library tokens place with same | ⟨call, isCall, guards, cancels⟩
  · rw [same]
    exact sound
  · rw [cancels]
    obtain ⟨keepsDrain, keepsOthers⟩ := sound.cancel_call lawful isCall
    have known := sound.isKnown call (List.mem_of_getElem? isCall)
    refine sound.cancel lawful call.token ?_ ?_
    · intro other member isUnary
      obtain ⟨otherPlace, isOther⟩ := List.mem_iff_getElem?.mp member
      have differ : otherPlace ≠ place := by
        rintro rfl
        cases isCall.symm.trans isOther
        rw [isUnary] at guards
        cases guards
      exact (keepsOthers otherPlace other isOther differ).trans (sound.notOver other member isUnary)
    · intro other member notUnary draining
      refine (lawful.isCancelled_cancel _ _ _ known (sound.isKnown other member)).mpr (.inl ?_)
      exact sound.follows other member notUnary (keepsDrain.symm.trans draining)

theorem Sound.step (sound : tokens.Sound library order) (lawful : library.IsLawful order)
    (event : Event) : (tokens.step library event).Sound library order := by
  cases event with
  | begins kind => exact sound.begins lawful kind
  | leaves place => exact sound.leaves lawful place
  | drains => exact sound.drains lawful
  | passes millis => exact ⟨sound.knowsDrain, sound.isKnown, sound.notBelow, sound.apart,
      sound.isBelow, sound.notOver, sound.follows⟩

theorem Sound.run (sound : tokens.Sound library order) (lawful : library.IsLawful order)
    (events : List Event) : (tokens.run library events).Sound library order := by
  induction events generalizing tokens with
  | nil => exact sound
  | cons event events inductionHypothesis => exact inductionHypothesis (sound.step lawful event)

theorem sound_after (lawful : library.IsLawful order) (state : σ) (events : List Event) :
    (after library state events).Sound library order :=
  (sound_start lawful state).run lawful events

/-! ## What lasts -/

/-- A response that is over touches the state of the library only. -/
theorem leaves_keeps (library : TokenLibrary σ τ) (tokens : Tokens σ τ) (place : Nat) :
    (tokens.leaves library place).drain = tokens.drain ∧
      (tokens.leaves library place).calls = tokens.calls ∧
        (tokens.leaves library place).now = tokens.now := by
  rcases leaves_cases library tokens place with same | ⟨_, _, _, cancels⟩
  · rw [same]
    exact ⟨rfl, rfl, rfl⟩
  · rw [cancels]
    exact ⟨rfl, rfl, rfl⟩

theorem drain_step (event : Event) : (tokens.step library event).drain = tokens.drain := by
  cases event with
  | begins kind | drains | passes millis => rfl
  | leaves place => exact (leaves_keeps library tokens place).1

theorem calls_step (event : Event) : tokens.calls <+: (tokens.step library event).calls := by
  cases event with
  | begins kind => exact List.prefix_append _ _
  | drains | passes millis => exact List.prefix_rfl
  | leaves place =>
      exact ⟨[], (List.append_nil _).trans (leaves_keeps library tokens place).2.1.symm⟩

theorem getElem?_calls_step (event : Event) {place : Nat} {call : Begun τ}
    (isCall : tokens.calls[place]? = some call) :
    (tokens.step library event).calls[place]? = some call := by
  obtain ⟨later, same⟩ : tokens.calls <+: (tokens.step library event).calls := calls_step event
  obtain ⟨bound, _⟩ := List.getElem?_eq_some_iff.mp isCall
  rw [← same, List.getElem?_append_left bound]
  exact isCall

theorem now_le_step (event : Event) : tokens.now ≤ (tokens.step library event).now := by
  cases event with
  | begins kind | drains => exact Nat.le_refl _
  | passes millis => exact Nat.le_add_right _ _
  | leaves place => exact Nat.le_of_eq (leaves_keeps library tokens place).2.2.symm

theorem now_le_run (events : List Event) : tokens.now ≤ (tokens.run library events).now := by
  induction events generalizing tokens with
  | nil => exact Nat.le_refl _
  | cons event events inductionHypothesis =>
      exact Nat.le_trans (now_le_step event) inductionHypothesis

/-- A token that is known or cancelled stays so. -/
theorem Sound.lasts_step (sound : tokens.Sound library order) (lawful : library.IsLawful order)
    (event : Event) {token : τ} (known : order.isKnown tokens.state token) :
    order.isKnown (tokens.step library event).state token ∧
      (library.isCancelled tokens.state token = true →
        library.isCancelled (tokens.step library event).state token = true) := by
  have cancels {other : τ} (otherKnown : order.isKnown tokens.state other) :
      order.isKnown (library.cancel tokens.state other) token ∧
        (library.isCancelled tokens.state token = true →
          library.isCancelled (library.cancel tokens.state other) token = true) :=
    ⟨(lawful.isKnown_cancel _ _ _).mpr known,
      fun cancelled => (lawful.isCancelled_cancel _ _ _ otherKnown known).mpr (.inl cancelled)⟩
  cases event with
  | begins kind =>
      obtain ⟨_, _, adds, _⟩ := sound.tokenFor lawful kind
      exact ⟨(adds.isKnown _).mpr (.inr known), fun cancelled =>
        (adds.keeps _ known).trans cancelled⟩
  | drains => exact cancels sound.knowsDrain
  | passes millis => exact ⟨known, id⟩
  | leaves place =>
      rw [Tokens.step]
      rcases leaves_cases library tokens place with same | ⟨call, isCall, _, cancelsCall⟩
      · rw [same]
        exact ⟨known, id⟩
      · rw [cancelsCall]
        exact cancels (sound.isKnown call (List.mem_of_getElem? isCall))

theorem Sound.draining_step (sound : tokens.Sound library order) (lawful : library.IsLawful order)
    (event : Event) (draining : tokens.isDraining library = true) :
    (tokens.step library event).isDraining library = true := by
  have lasts := (sound.lasts_step lawful event sound.knowsDrain).2 draining
  rw [isDraining, drain_step]
  exact lasts

theorem Sound.draining_run (sound : tokens.Sound library order) (lawful : library.IsLawful order)
    (events : List Event) (draining : tokens.isDraining library = true) :
    (tokens.run library events).isDraining library = true := by
  induction events generalizing tokens with
  | nil => exact draining
  | cons event events inductionHypothesis =>
      exact inductionHypothesis (sound.step lawful event)
        (sound.draining_step lawful event draining)

theorem Sound.draining_drains (sound : tokens.Sound library order)
    (lawful : library.IsLawful order) :
    (tokens.step library .drains).isDraining library = true := by
  refine (lawful.isCancelled_cancel _ _ _ sound.knowsDrain sound.knowsDrain).mpr (.inr ?_)
  exact lawful.isBelow_self _ _ sound.knowsDrain

/-! ## In time -/

variable (library) in
/-- When a token is first found cancelled in a history, if it is. -/
def cancelledAt (token : τ) (tokens : Tokens σ τ) : List Event → Option Nat
  | [] => if library.isCancelled tokens.state token then some tokens.now else none
  | event :: events =>
    if library.isCancelled tokens.state token then some tokens.now
    else (tokens.step library event).cancelledAt token events

variable (library) in
/-- The tokens at the end of a millisecond of a history. -/
def atTime (tokens : Tokens σ τ) (time : Nat) : List Event → Tokens σ τ
  | [] => tokens
  | event :: events =>
    let next := tokens.step library event
    if next.now ≤ time then next.atTime time events else tokens

theorem cancelledAt_of_cancelled {token : τ}
    (cancelled : library.isCancelled tokens.state token = true) (events : List Event) :
    tokens.cancelledAt library token events = some tokens.now := by
  cases events <;> rw [cancelledAt, if_pos cancelled]

theorem le_of_cancelledAt {token : τ} {events : List Event} {time : Nat}
    (found : tokens.cancelledAt library token events = some time) : tokens.now ≤ time := by
  induction events generalizing tokens with
  | nil =>
      unfold cancelledAt at found
      split at found <;> cases found
      exact Nat.le_refl _
  | cons event events inductionHypothesis =>
      unfold cancelledAt at found
      split at found
      · cases found
        exact Nat.le_refl _
      · exact Nat.le_trans (now_le_step event) (inductionHypothesis found)

/-- A token is found cancelled by a time just if it is cancelled at the end of the millisecond. -/
theorem Sound.hasCome_cancelledAt (sound : tokens.Sound library order)
    (lawful : library.IsLawful order) {token : τ} (known : order.isKnown tokens.state token)
    {time : Nat} (later : tokens.now ≤ time) (events : List Event) :
    Cancellation.hasCome (tokens.cancelledAt library token events) time =
      library.isCancelled (tokens.atTime library time events).state token := by
  induction events generalizing tokens with
  | nil =>
      unfold cancelledAt atTime
      cases library.isCancelled tokens.state token with
      | true => exact decide_eq_true later
      | false => rfl
  | cons event events inductionHypothesis =>
      obtain ⟨knownThen, lasts⟩ := sound.lasts_step lawful event known
      have sooner := @inductionHypothesis _ (sound.step lawful event) knownThen
      unfold atTime
      dsimp only
      by_cases inTime : (tokens.step library event).now ≤ time
      · rw [if_pos inTime, ← sooner inTime]
        cases cancelled : library.isCancelled tokens.state token with
        | true =>
            rw [cancelledAt_of_cancelled cancelled, cancelledAt_of_cancelled (lasts cancelled)]
            simp [Cancellation.hasCome, later, inTime]
        | false => rw [cancelledAt, cancelled, if_neg Bool.false_ne_true]
      · rw [if_neg inTime]
        cases cancelled : library.isCancelled tokens.state token with
        | true =>
            rw [cancelledAt_of_cancelled cancelled]
            exact decide_eq_true later
        | false =>
            rw [cancelledAt, cancelled, if_neg Bool.false_ne_true]
            cases found : (tokens.step library event).cancelledAt library token events with
            | none => rfl
            | some cancelledAt =>
                have notBefore := le_of_cancelledAt found
                exact decide_eq_false (by omega)

theorem atTime_append {time : Nat} (before after : List Event)
    (inTime : (tokens.run library before).now ≤ time) :
    tokens.atTime library time (before ++ after) =
      (tokens.run library before).atTime library time after := by
  induction before generalizing tokens with
  | nil => rfl
  | cons event before inductionHypothesis =>
      have soon : (tokens.step library event).now ≤ time := Nat.le_trans (now_le_run before) inTime
      rw [List.cons_append, atTime]
      exact (if_pos soon).trans (inductionHypothesis inTime)

theorem drain_atTime (time : Nat) (events : List Event) :
    (tokens.atTime library time events).drain = tokens.drain := by
  induction events generalizing tokens with
  | nil => rfl
  | cons event events inductionHypothesis =>
      rw [atTime]
      split
      · exact inductionHypothesis.trans (drain_step event)
      · rfl

/-- The server drains at a time just if it was found to drain by then. -/
theorem Sound.isDraining_atTime (sound : tokens.Sound library order)
    (lawful : library.IsLawful order) {time : Nat} (later : tokens.now ≤ time)
    (events : List Event) :
    (tokens.atTime library time events).isDraining library =
      Cancellation.hasCome (tokens.cancelledAt library tokens.drain events) time := by
  rw [isDraining, drain_atTime]
  exact (sound.hasCome_cancelledAt lawful sound.knowsDrain later events).symm

/-- A server that drains at a time drains at every later time. -/
theorem Sound.draining_lasts (sound : tokens.Sound library order) (lawful : library.IsLawful order)
    {time later : Nat} (notBefore : tokens.now ≤ time) (inOrder : time ≤ later)
    {events : List Event}
    (draining : (tokens.atTime library time events).isDraining library = true) :
    (tokens.atTime library later events).isDraining library = true := by
  rw [sound.isDraining_atTime lawful notBefore] at draining
  rw [sound.isDraining_atTime lawful (Nat.le_trans notBefore inOrder)]
  generalize tokens.cancelledAt library tokens.drain events = drainAt at draining
  match drainAt with
  | some drainAt => exact decide_eq_true (Nat.le_trans (of_decide_eq_true draining) inOrder)

/-! ## What a call is told -/

/-- As long as the response of a call with many messages in or out stays, its token and that of the
drain are cancelled together. -/
theorem Sound.mirrors_step (sound : tokens.Sound library order) (lawful : library.IsLawful order)
    {place : Nat} {call : Begun τ} (isCall : tokens.calls[place]? = some call)
    (notUnary : call.kind ≠ .unary) {event : Event} (stays : event ≠ .leaves place)
    (mirrors : tokens.isOver library call = tokens.isDraining library) :
    (tokens.step library event).isOver library call =
      (tokens.step library event).isDraining library := by
  have member := List.mem_of_getElem? isCall
  have known := sound.isKnown call member
  cases event with
  | begins kind =>
      obtain ⟨_, _, adds, _⟩ := sound.tokenFor lawful kind
      have keepsCall : (tokens.begins library kind).isOver library call =
          tokens.isOver library call := adds.keeps _ known
      have keepsDrain : (tokens.begins library kind).isDraining library =
          tokens.isDraining library := adds.keeps _ sound.knowsDrain
      exact keepsCall.trans (mirrors.trans keepsDrain.symm)
  | passes millis => exact mirrors
  | drains =>
      have draining := sound.draining_drains lawful
      rw [draining]
      exact (sound.drains lawful).follows call member notUnary draining
  | leaves other =>
      have differ : place ≠ other := fun same => stays (congrArg Event.leaves same.symm)
      rw [Tokens.step]
      rcases leaves_cases library tokens other with same | ⟨gone, isGone, _, cancels⟩
      · rw [same]
        exact mirrors
      · rw [cancels]
        obtain ⟨keepsDrain, keepsOthers⟩ := sound.cancel_call lawful isGone
        exact (keepsOthers place call isCall differ).trans (mirrors.trans keepsDrain.symm)

/-- A call with many messages in or out whose response stays is found cancelled with the drain. -/
theorem Sound.cancelledAt_of_stays (sound : tokens.Sound library order)
    (lawful : library.IsLawful order) {place : Nat} {call : Begun τ}
    (isCall : tokens.calls[place]? = some call) (notUnary : call.kind ≠ .unary)
    (mirrors : tokens.isOver library call = tokens.isDraining library) {events : List Event}
    (stays : .leaves place ∉ events) :
    tokens.cancelledAt library call.token events =
      tokens.cancelledAt library tokens.drain events := by
  have same : library.isCancelled tokens.state call.token =
      library.isCancelled tokens.state tokens.drain := mirrors
  induction events generalizing tokens with
  | nil => rw [cancelledAt, cancelledAt, same]
  | cons event events inductionHypothesis =>
      obtain ⟨staysNow, staysThen⟩ := List.ne_and_not_mem_of_not_mem_cons stays
      have isCallThen : (tokens.step library event).calls[place]? = some call :=
        getElem?_calls_step event isCall
      have mirrorsThen := sound.mirrors_step lawful isCall notUnary (Ne.symm staysNow) mirrors
      have later := inductionHypothesis (sound.step lawful event) isCallThen mirrorsThen staysThen
        mirrorsThen
      rw [cancelledAt, cancelledAt, same, later, drain_step]

/-- A call with one message in and one out is never found cancelled. -/
theorem Sound.cancelledAt_unary (sound : tokens.Sound library order)
    (lawful : library.IsLawful order) {call : Begun τ} (member : call ∈ tokens.calls)
    (isUnary : call.kind = .unary) (events : List Event) :
    tokens.cancelledAt library call.token events = none := by
  have notOver := sound.notOver call member isUnary
  rw [isOver] at notOver
  induction events generalizing tokens with
  | nil => rw [cancelledAt, notOver, if_neg Bool.false_ne_true]
  | cons event events inductionHypothesis =>
      have memberThen : call ∈ (tokens.step library event).calls := (calls_step event).subset member
      have soundThen := sound.step lawful event
      rw [cancelledAt, notOver, if_neg Bool.false_ne_true]
      exact inductionHypothesis soundThen memberThen (soundThen.notOver call memberThen isUnary)

end Tokens

end RpcEcho
