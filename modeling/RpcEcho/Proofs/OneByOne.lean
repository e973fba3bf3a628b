/-!
# Reading one by one

A list is read item by item, and not at all if one item cannot be read. What is read then stands in
the places of the items.
-/

namespace RpcEcho

/-- Reading one by one succeeds if each can be read. -/
theorem mapM_map_eq_some {alpha beta gamma : Type} {items : List alpha} {write : alpha → beta}
    {read? : beta → Option gamma} {result : alpha → gamma}
    (each : ∀ item ∈ items, read? (write item) = some (result item)) :
    (items.map write).mapM read? = some (items.map result) := by
  induction items with
  | nil => rfl
  | cons item items inductionHypothesis =>
      have later := inductionHypothesis fun other member =>
        each other (List.mem_cons_of_mem item member)
      rw [List.map_cons, List.mapM_cons, each item List.mem_cons_self, later]
      rfl

theorem mapM_append_eq_some {alpha beta : Type} {front behind : List alpha}
    {read? : alpha → Option beta} {first second : List beta}
    (isFirst : front.mapM read? = some first) (isSecond : behind.mapM read? = some second) :
    (front ++ behind).mapM read? = some (first ++ second) := by
  rw [List.mapM_append, isFirst, isSecond]
  rfl

theorem mapM_concat {alpha beta : Type} {front : List alpha} {item : alpha}
    {read? : alpha → Option beta} {first : List beta} {result : beta}
    (isFirst : front.mapM read? = some first) (isResult : read? item = some result) :
    (front ++ [item]).mapM read? = some (first ++ [result]) := by
  refine mapM_append_eq_some isFirst ?_
  rw [List.mapM_cons, isResult]
  rfl

/-- Reading one by one gives what is read of each. -/
theorem map_eq_map_some_of_mapM {alpha beta : Type} {items : List alpha}
    {read? : alpha → Option beta} {results : List beta} (found : items.mapM read? = some results) :
    items.map read? = results.map some := by
  induction items generalizing results with
  | nil =>
      cases found
      rfl
  | cons item items inductionHypothesis =>
      rw [List.mapM_cons] at found
      obtain ⟨result, isResult, rest⟩ := Option.bind_eq_some_iff.mp found
      obtain ⟨others, areOthers, same⟩ := Option.bind_eq_some_iff.mp rest
      cases same
      rw [List.map_cons, List.map_cons, isResult, inductionHypothesis areOthers]

theorem exists_of_mem_mapM {alpha beta : Type} {items : List alpha} {read? : alpha → Option beta}
    {results : List beta} (found : items.mapM read? = some results) {result : beta}
    (member : result ∈ results) : ∃ item ∈ items, read? item = some result := by
  have isRead : some result ∈ items.map read? :=
    map_eq_map_some_of_mapM found ▸ List.mem_map_of_mem member
  exact List.mem_map.mp isRead

/-- What is read of each item, given something to fall back to that is not needed. -/
theorem eq_map_getD_of_mapM {alpha beta : Type} {items : List alpha} {read? : alpha → Option beta}
    {results : List beta} (found : items.mapM read? = some results) (fallback : beta) :
    (∀ item ∈ items, read? item = some ((read? item).getD fallback)) ∧
      results = items.map fun item => (read? item).getD fallback := by
  have each := map_eq_map_some_of_mapM found
  have isRead : ∀ item ∈ items, read? item = some ((read? item).getD fallback) := by
    intro item member
    have isResult : read? item ∈ results.map some := each ▸ List.mem_map_of_mem member
    obtain ⟨result, _, same⟩ := List.mem_map.mp isResult
    rw [← same, Option.getD_some]
  refine ⟨isRead, (List.map_inj_right fun _ _ => Option.some.inj).mp ?_⟩
  rw [← each, List.map_map]
  exact List.map_congr_left isRead

/-- Nothing is read if one item cannot be. -/
theorem mapM_eq_none {alpha beta : Type} {items : List alpha} {read? : alpha → Option beta}
    {item : alpha} (member : item ∈ items) (fails : read? item = none) :
    items.mapM read? = none := by
  cases found : items.mapM read? with
  | none => rfl
  | some results =>
      have isRead := map_eq_map_some_of_mapM found
      have isResult : read? item ∈ results.map some := isRead ▸ List.mem_map_of_mem member
      rw [fails] at isResult
      obtain ⟨_, _, impossible⟩ := List.mem_map.mp isResult
      cases impossible

end RpcEcho
