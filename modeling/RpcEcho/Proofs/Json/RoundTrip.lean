import RpcEcho.Json.Reader
import RpcEcho.Proofs.Json.Tokens

/-!
# Reading JSON texts

The tokens of a value settle exactly that value, whatever is open around it. So every text of a
value is read as the value.
-/

namespace RpcEcho.Json

open Reader

/-! ## The machine on the tokens of a value -/

theorem run_cons (reader : Reader) (token : Token) (rest : List Token) :
    reader.run (token :: rest) = (reader.step token).bind fun next => next.run rest := rfl

/-- Behind an opening bracket anything but its end is read as any value is. -/
theorem step_firstItem {token : Token} (notEnd : token ≠ .closeArray) (frames : List Frame) :
    (⟨.firstItem, frames⟩ : Reader).step token = (⟨.value, frames⟩ : Reader).step token := by
  cases token <;> first | rfl | exact absurd rfl notEnd

theorem tokensOf_eq_cons (json : Json) :
    ∃ first rest, tokensOf json = first :: rest ∧ first ≠ .closeArray := by
  cases json with
  | null => exact ⟨_, _, rfl, by simp⟩
  | bool value => exact ⟨_, _, rfl, by simp⟩
  | number value => exact ⟨_, _, rfl, by simp⟩
  | string text => exact ⟨_, _, rfl, by simp⟩
  | array items => exact ⟨_, _, by rw [tokensOf], by simp⟩
  | object members => exact ⟨_, _, by rw [tokensOf], by simp⟩

mutual

/-- The tokens of a value settle it. -/
theorem run_tokensOf (json : Json) (frames : List Frame) (rest : List Token) :
    (⟨.value, frames⟩ : Reader).run (tokensOf json ++ rest) =
      (settle json frames).bind fun next => next.run rest := by
  match json with
  | .null => rfl
  | .bool value => rfl
  | .number value => rfl
  | .string text => rfl
  | .array [] => rfl
  | .array (item :: items) =>
      obtain ⟨first, others, shape, notEnd⟩ := tokensOf_eq_cons item
      have settled := run_itemTokens (item :: items) (by simp) [] frames rest
      obtain ⟨behind, whole⟩ : ∃ behind, itemTokens (item :: items) = first :: behind := by
        cases items with
        | nil => exact ⟨others, by rw [itemTokens, shape]⟩
        | cons next items =>
            refine ⟨others ++ .comma :: itemTokens (next :: items), ?_⟩
            rw [itemTokens, shape, List.cons_append]
            simp
      have opened : (⟨.value, frames⟩ : Reader).step .openArray =
          some ⟨.firstItem, .array [] :: frames⟩ := rfl
      rw [whole, List.cons_append, run_cons] at settled
      rw [tokensOf, whole, List.cons_append, List.append_assoc, run_cons, opened,
        Option.bind_some, List.cons_append, run_cons, step_firstItem notEnd]
      exact settled
  | .object [] => rfl
  | .object ((key, value) :: members) =>
      have settled := run_memberTokens ((key, value) :: members) (by simp) [] frames rest
      obtain ⟨behind, whole⟩ :
          ∃ behind, memberTokens ((key, value) :: members) = .text key :: behind := by
        cases members with
        | nil => exact ⟨.colon :: tokensOf value, by rw [memberTokens]⟩
        | cons next members =>
            refine ⟨.colon :: (tokensOf value ++ .comma :: memberTokens (next :: members)), ?_⟩
            rw [memberTokens]
            simp
      rw [whole, List.cons_append, run_cons] at settled
      rw [tokensOf, whole, List.cons_append, List.append_assoc, run_cons]
      exact settled

theorem run_itemTokens (items : List Json) (notEmpty : items ≠ []) (came : List Json)
    (frames : List Frame) (rest : List Token) :
    (⟨.value, .array came :: frames⟩ : Reader).run (itemTokens items ++ .closeArray :: rest) =
      (settle (.array (came.reverse ++ items)) frames).bind fun next => next.run rest := by
  match items with
  | [] => exact absurd rfl notEmpty
  | [item] =>
      rw [itemTokens, run_tokensOf, ← List.reverse_cons]
      rfl
  | item :: next :: others =>
      have longer : came.reverse ++ item :: next :: others =
          (item :: came).reverse ++ next :: others := by simp
      rw [itemTokens, List.append_assoc, run_tokensOf, longer]
      · exact run_itemTokens (next :: others) (by simp) (item :: came) frames rest
      · simp

theorem run_memberTokens (members : List (Option String × Json)) (notEmpty : members ≠ [])
    (came : List (Option String × Json)) (frames : List Frame) (rest : List Token) :
    (⟨.key, .object came :: frames⟩ : Reader).run
        (memberTokens members ++ .closeObject :: rest) =
      (settle (.object (came.reverse ++ members)) frames).bind fun next => next.run rest := by
  -- The key and the colon open the place of the value.
  have opened : ∀ key behind, (⟨.key, .object came :: frames⟩ : Reader).run
      (.text key :: .colon :: behind) =
        (⟨.value, .member key came :: frames⟩ : Reader).run behind := fun _ _ => rfl
  match members with
  | [] => exact absurd rfl notEmpty
  | [(key, value)] =>
      rw [memberTokens, List.cons_append, List.cons_append, opened, run_tokensOf,
        ← List.reverse_cons]
      rfl
  | (key, value) :: next :: others =>
      have longer : came.reverse ++ (key, value) :: next :: others =
          ((key, value) :: came).reverse ++ next :: others := by simp
      rw [memberTokens, List.cons_append, List.cons_append, List.append_assoc, opened,
        run_tokensOf, longer]
      · exact run_memberTokens (next :: others) (by simp) ((key, value) :: came) frames rest
      · simp

end

theorem ofTokens?_tokensOf (json : Json) : ofTokens? (tokensOf json) = some json := by
  have settled := run_tokensOf json [] []
  rw [List.append_nil] at settled
  rw [ofTokens?, start, settled]
  rfl

/-- A text of a value is read as the value. -/
theorem parse?_of_isPayload {json : Json} {octets : Bytes} (isPayload : IsPayload json octets) :
    parse? octets = some json := by
  rw [parse?, tokens?_of_isPayload isPayload]
  exact ofTokens?_tokensOf json

end RpcEcho.Json
