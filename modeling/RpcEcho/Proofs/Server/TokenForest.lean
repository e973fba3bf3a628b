import RpcEcho.Proofs.Server.Tokens

/-!
# A forest of tokens

A lawful library in which each token remembers the token it was made below, and a token is cancelled
if it or one above it was. So what is assumed of a library of tokens can be met.
-/

namespace RpcEcho

/-- What is known of a token. -/
structure ForestNode where
  parent : Option Nat
  wasCancelled : Bool

/-- Tokens, last to be made first. A token is the number of those that were made before it. -/
abbrev TokenForest := List ForestNode

namespace TokenForest

/-- Whether a token is another one, or was made below it. -/
def isBelow : TokenForest → Nat → Nat → Bool
  | [], _, _ => false
  | node :: older, token, other =>
    if token = older.length then
      other == token || node.parent.any fun parent => isBelow older parent other
    else isBelow older token other

/-- Whether a token or one above it was cancelled. -/
def isCancelled : TokenForest → Nat → Bool
  | [], _ => false
  | node :: older, token =>
    if token = older.length then
      node.wasCancelled || node.parent.any fun parent => isCancelled older parent
    else isCancelled older token

/-- Cancels a token. -/
def cancel : TokenForest → Nat → TokenForest
  | [], _ => []
  | node :: older, token =>
    if token = older.length then { node with wasCancelled := true } :: older
    else node :: cancel older token

/-- The forest as a library. -/
def library : TokenLibrary TokenForest Nat where
  isCancelled := isCancelled
  create := fun forest => (forest.length, ⟨none, false⟩ :: forest)
  child := fun forest parent => (forest.length, ⟨some parent, false⟩ :: forest)
  cancel := cancel

/-- Which tokens are in a forest, and how they stand. -/
def order : TokenOrder TokenForest Nat where
  isKnown := fun forest token => token < forest.length
  isBelow := fun forest token other => forest.isBelow token other = true

theorem isBelow_self {forest : TokenForest} {token : Nat} (known : token < forest.length) :
    forest.isBelow token token = true := by
  induction forest with
  | nil => cases known
  | cons node older inductionHypothesis =>
      rw [isBelow]
      split
      · simp
      · rw [List.length_cons] at known
        exact inductionHypothesis (by omega)

/-- Only a token that was made has others below it. -/
theorem lt_of_isBelow {forest : TokenForest} {token other : Nat}
    (below : forest.isBelow token other = true) : other < forest.length := by
  induction forest generalizing token with
  | nil => cases below
  | cons node older inductionHypothesis =>
      rw [List.length_cons]
      rw [isBelow] at below
      split at below
      · rcases Bool.or_eq_true _ _ ▸ below with same | above
        · have same : other = token := beq_iff_eq.mp same
          omega
        · obtain ⟨parent, _, isAbove⟩ := (Option.any_eq_true _ _).mp above
          exact Nat.lt_succ_of_lt (inductionHypothesis isAbove)
      · exact Nat.lt_succ_of_lt (inductionHypothesis below)

/-- A node that is added leaves the older tokens as they stand. -/
theorem isBelow_cons {node : ForestNode} {forest : TokenForest} {token : Nat}
    (known : token < forest.length) (other : Nat) :
    isBelow (node :: forest) token other = forest.isBelow token other := by
  rw [isBelow, if_neg (Nat.ne_of_lt known)]

theorem isCancelled_cons {node : ForestNode} {forest : TokenForest} {token : Nat}
    (known : token < forest.length) :
    isCancelled (node :: forest) token = forest.isCancelled token := by
  rw [isCancelled, if_neg (Nat.ne_of_lt known)]

/-- A node that is added is a new token, below its parent and whatever stands above that. -/
theorem adds (forest : TokenForest) (parent : Option Nat) :
    library.Adds order forest (forest.length, ⟨parent, false⟩ :: forest)
      (fun token => parent.any (fun parent => forest.isBelow parent token) = true)
      (parent.any fun parent => forest.isCancelled parent) where
  isKnown := fun token => by
    change token < forest.length + 1 ↔ token = forest.length ∨ token < forest.length
    omega
  isCancelled := by
    change isCancelled _ _ = _
    simp [isCancelled]
  isBelow := fun token known => by
    have differ : token ≠ forest.length := Nat.ne_of_lt known
    change isBelow _ _ _ = true ↔ _
    simp [isBelow, differ]
  notAbove := fun token known below => by
    have notAbove : forest.isBelow token forest.length = true :=
      (isBelow_cons known forest.length).symm.trans below
    exact Nat.lt_irrefl _ (lt_of_isBelow notAbove)
  keepsOrder := fun _ other known _ => by
    change isBelow _ _ _ = true ↔ _
    rw [isBelow_cons known]
    rfl
  keeps := fun _ known => isCancelled_cons known

theorem length_cancel (forest : TokenForest) (token : Nat) :
    (forest.cancel token).length = forest.length := by
  induction forest with
  | nil => rfl
  | cons node older inductionHypothesis =>
      rw [cancel]
      split
      · rfl
      · rw [List.length_cons, List.length_cons, inductionHypothesis]

theorem isBelow_cancel (forest : TokenForest) (token other another : Nat) :
    (forest.cancel token).isBelow other another = forest.isBelow other another := by
  induction forest generalizing other with
  | nil => rfl
  | cons node older inductionHypothesis =>
      rw [cancel]
      split
      · rfl
      · simp only [isBelow, length_cancel, inductionHypothesis]

/-- A token is cancelled with every token above it, and with no other. -/
theorem isCancelled_cancel (forest : TokenForest) (token other : Nat) :
    (forest.cancel token).isCancelled other =
      (forest.isCancelled other || forest.isBelow other token) := by
  induction forest generalizing other with
  | nil => rfl
  | cons node older inductionHypothesis =>
      rw [cancel]
      by_cases isToken : token = older.length
      · -- No older token is below the newest.
        have notBelow (token : Nat) : isBelow older token older.length = false :=
          Bool.eq_false_iff.mpr fun below => Nat.lt_irrefl _ (lt_of_isBelow below)
        by_cases isOther : other = older.length <;>
          simp [isToken, isOther, isCancelled, isBelow, notBelow]
      · by_cases isOther : other = older.length
        · have differ : (token == older.length) = false := beq_false_of_ne isToken
          obtain ⟨parent, wasCancelled⟩ := node
          cases parent <;>
            simp [isToken, isOther, isCancelled, isBelow, length_cancel, inductionHypothesis,
              Bool.or_assoc, differ]
        · simp [isToken, isOther, isCancelled, isBelow, length_cancel, inductionHypothesis]

theorem isLawful : library.IsLawful order where
  isBelow_self := fun _ _ => isBelow_self
  create := fun forest => by
    have added := adds forest none
    simp only [Option.any_none, Bool.false_eq_true] at added
    exact added
  child := fun forest parent _ => adds forest (some parent)
  isKnown_cancel := fun forest token other => by
    change other < (forest.cancel token).length ↔ _
    rw [length_cancel]
    rfl
  isBelow_cancel := fun forest token other another => by
    change (forest.cancel token).isBelow other another = true ↔ _
    rw [isBelow_cancel]
    rfl
  isCancelled_cancel := fun forest token other _ _ => by
    change (forest.cancel token).isCancelled other = true ↔ _
    rw [isCancelled_cancel, Bool.or_eq_true]
    rfl

end TokenForest

end RpcEcho
