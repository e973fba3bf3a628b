import RpcEcho.Proofs.Json.Writing

/-!
# Written objects

An object is written with its members in the order of their keys, whatever order they came in. It is
exact if its members are, and its octets are never blank alone.
-/

namespace RpcEcho.Json

/-- Items in the order of their keys. -/
def sortedBy {alpha : Type} (key : alpha → String) (items : List alpha) : List alpha :=
  items.mergeSort fun first second => decide (key first ≤ key second)

theorem sortedBy_perm {alpha : Type} (key : alpha → String) (items : List alpha) :
    (sortedBy key items).Perm items := List.mergeSort_perm _ _

/-- The members of an object are those that were written, sorted by key. -/
theorem ofMembers_map {alpha : Type} (member : alpha → String × Json) (items : List alpha) :
    ofMembers (items.map member) =
      .object ((sortedBy (fun item => (member item).1) items).map
        fun item => (some (member item).1, (member item).2)) := by
  have sorted : (items.map member).mergeSort (fun first second => decide (first.1 ≤ second.1)) =
      (sortedBy (fun item => (member item).1) items).map member :=
    (List.map_mergeSort (f := member) fun _ _ _ _ => rfl).symm
  rw [ofMembers, sorted, List.map_map]
  rfl

/-! ## Exact values -/

theorem areExact_of_forall {items : List Json} (exact : ∀ item ∈ items, IsExact item) :
    AreExact items := by
  induction items with
  | nil => trivial
  | cons item items inductionHypothesis =>
      exact ⟨exact item List.mem_cons_self,
        inductionHypothesis fun other member => exact other (List.mem_cons_of_mem item member)⟩

theorem areMembersExact_map {members : List (String × Json)}
    (exact : ∀ entry ∈ members, IsExact entry.2) :
    AreMembersExact (members.map fun entry => (some entry.1, entry.2)) := by
  induction members with
  | nil => trivial
  | cons entry members inductionHypothesis =>
      exact ⟨⟨entry.1, rfl⟩, exact entry List.mem_cons_self,
        inductionHypothesis fun other member => exact other (List.mem_cons_of_mem entry member)⟩

theorem isExact_ofMembers {members : List (String × Json)}
    (exact : ∀ entry ∈ members, IsExact entry.2) : IsExact (ofMembers members) :=
  areMembersExact_map fun entry member =>
    exact entry ((List.mergeSort_perm members _).mem_iff.mp member)

/-- A text of an object is no blank payload. -/
theorem all_isBlank_of_isPayload {members : List (Option String × Json)} {octets : Bytes}
    (isPayload : IsPayload (.object members) octets) : octets.all Bytes.isBlank = false := by
  obtain ⟨_, isText, _⟩ := isPayload
  cases isText with
  | object _ =>
      rw [List.all_eq_false]
      exact ⟨123, by simp, by decide⟩

end RpcEcho.Json
