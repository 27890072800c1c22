/-!
# Computations that may fail

A row of computations ends at the first that fails. So it succeeds if each of them does, on what
the one before it found, and a failure is the failure of one of them.

A list is traversed by computing something of each of its items in a row. It fails as the first
item that does, and what it comes to has a result for every item.
-/

namespace Amqp

variable {α β γ ε δ : Type}

section Rows

variable {first : Except ε α} {next : α → Except ε β}

/-- Two computations in a row succeed if the first does and the second does on its result. -/
theorem bind_eq_ok_iff {result : β} :
    first >>= next = .ok result ↔ ∃ found, first = .ok found ∧ next found = .ok result := by
  cases first with
  | error error =>
    constructor
    · nofun
    · rintro ⟨_, ⟨⟩, _⟩
  | ok found =>
    constructor
    · exact fun ran => ⟨found, rfl, ran⟩
    · rintro ⟨_, ⟨⟩, ran⟩
      exact ran

/-- Two computations in a row fail if the first does or the second does on its result. Only one
of the two can be so, as the second one is not run behind a failure. -/
theorem bind_eq_error_iff {error : ε} : first >>= next = .error error ↔
    first = .error error ∨ ∃ found, first = .ok found ∧ next found = .error error := by
  cases first with
  | error cause =>
    constructor
    · rintro ⟨⟩
      exact .inl rfl
    · rintro (⟨⟨⟩⟩ | ⟨_, ⟨⟩, _⟩)
      rfl
  | ok found =>
    constructor
    · exact fun failed => .inr ⟨found, rfl, failed⟩
    · rintro (⟨⟨⟩⟩ | ⟨_, ⟨⟩, failed⟩)
      exact failed

variable {second : Except ε β}

/-- A pair is found if both sides of it are. -/
theorem pair_eq_ok_iff {pair : α × β} :
    (do
      let found ← first
      let other ← second
      pure (found, other)) = .ok pair ↔ first = .ok pair.1 ∧ second = .ok pair.2 := by
  simp only [bind_eq_ok_iff]
  constructor
  · rintro ⟨found, here, other, there, ⟨⟩⟩
    exact ⟨here, there⟩
  · rintro ⟨here, there⟩
    exact ⟨pair.1, here, pair.2, there, rfl⟩

/-- A pair fails for its first side, or for its second side if the first is found. -/
theorem pair_eq_error_iff {error : ε} :
    (do
      let found ← first
      let other ← second
      pure (found, other)) = .error error ↔
      first = .error error ∨ (∃ found, first = .ok found) ∧ second = .error error := by
  rw [bind_eq_error_iff]
  refine or_congr_right ?_
  simp only [bind_eq_error_iff]
  constructor
  · rintro ⟨found, here, failed | ⟨_, _, ⟨⟩⟩⟩
    exact ⟨⟨found, here⟩, failed⟩
  · rintro ⟨⟨found, here⟩, failed⟩
    exact ⟨found, here, .inl failed⟩

/-- A result that is finished is the finish of a result. -/
theorem map_eq_ok_iff {finish : α → β} {result : β} :
    first.map finish = .ok result ↔ ∃ found, first = .ok found ∧ finish found = result := by
  cases first with
  | error error =>
    constructor
    · nofun
    · rintro ⟨_, ⟨⟩, _⟩
  | ok found =>
    constructor
    · exact fun finished => ⟨found, rfl, Except.ok.inj finished⟩
    · rintro ⟨_, ⟨⟩, rfl⟩
      rfl

/-- A failure is not finished. -/
theorem map_eq_error_iff {finish : α → β} {error : ε} :
    first.map finish = .error error ↔ first = .error error := by
  cases first with
  | error cause =>
    constructor
    · rintro ⟨⟩
      rfl
    · rintro ⟨⟩
      rfl
  | ok found => constructor <;> nofun

variable {blame : ε → δ}

/-- Whatever failures are turned into, a result stays as it is. -/
theorem mapError_eq_ok_iff {result : α} :
    first.mapError blame = .ok result ↔ first = .ok result := by
  cases first with
  | error cause => constructor <;> nofun
  | ok found =>
    constructor
    · rintro ⟨⟩
      rfl
    · rintro ⟨⟩
      rfl

/-- A failure that is turned into another is one of the computation. -/
theorem mapError_eq_error_iff {error : δ} :
    first.mapError blame = .error error ↔ ∃ cause, first = .error cause ∧ blame cause = error := by
  cases first with
  | error cause =>
    constructor
    · exact fun blamed => ⟨cause, rfl, Except.error.inj blamed⟩
    · rintro ⟨_, ⟨⟩, rfl⟩
      rfl
  | ok found =>
    constructor
    · nofun
    · rintro ⟨_, ⟨⟩, _⟩

end Rows

section Traversals

variable {compute : α → Except ε β} {item : α} {items : List α} {results : List β}

/-- A traversal succeeds if its first item does and the traversal of the others. -/
theorem mapM_cons_eq_ok_iff : (item :: items).mapM compute = .ok results ↔
    ∃ result others, compute item = .ok result ∧ items.mapM compute = .ok others ∧
      results = result :: others := by
  rw [List.mapM_cons]
  simp only [bind_eq_ok_iff]
  constructor
  · rintro ⟨result, first, others, later, ⟨⟩⟩
    exact ⟨result, others, first, later, rfl⟩
  · rintro ⟨result, others, first, later, rfl⟩
    exact ⟨result, first, others, later, rfl⟩

/-- A traversal succeeds exactly if each of its items does. -/
theorem exists_mapM_eq_ok_iff : (∃ results, items.mapM compute = .ok results) ↔
    ∀ item ∈ items, ∃ result, compute item = .ok result := by
  induction items with
  | nil => exact ⟨fun _ _ => nofun, fun _ => ⟨[], rfl⟩⟩
  | cons item rest inductionHypothesis =>
    rw [List.forall_mem_cons, ← inductionHypothesis]
    simp only [mapM_cons_eq_ok_iff]
    constructor
    · rintro ⟨_, result, others, first, later, rfl⟩
      exact ⟨⟨result, first⟩, others, later⟩
    · rintro ⟨⟨result, first⟩, others, later⟩
      exact ⟨result :: others, result, others, first, later, rfl⟩

/-- Every result of a traversal is computed of one of its items. Nothing is said of which one,
and there can be several. -/
theorem exists_of_mapM (ran : items.mapM compute = .ok results) {result : β}
    (member : result ∈ results) : ∃ item ∈ items, compute item = .ok result := by
  induction items generalizing results with
  | nil =>
    cases ran
    cases member
  | cons item rest inductionHypothesis =>
    obtain ⟨found, others, first, later, rfl⟩ := mapM_cons_eq_ok_iff.mp ran
    rcases List.mem_cons.mp member with rfl | member
    · exact ⟨item, List.mem_cons_self, first⟩
    · obtain ⟨other, listed, computed⟩ := inductionHypothesis later member
      exact ⟨other, List.mem_cons_of_mem _ listed, computed⟩

/-- Items that are each found again are found again together. -/
theorem mapM_map_of_forall {into : β → α}
    (each : ∀ result ∈ results, compute (into result) = .ok result) :
    (results.map into).mapM compute = .ok results := by
  induction results with
  | nil => rfl
  | cons result rest inductionHypothesis =>
    obtain ⟨first, later⟩ := List.forall_mem_cons.mp each
    exact mapM_cons_eq_ok_iff.mpr ⟨result, rest, first, inductionHypothesis later, rfl⟩

/-- Results that are finished one by one are finished together. -/
theorem mapM_eq_map_mapM {finish : β → γ} {other : α → Except ε γ}
    (each : ∀ item ∈ items, other item = (compute item).map finish) :
    items.mapM other = (items.mapM compute).map (List.map finish) := by
  induction items with
  | nil => rfl
  | cons item rest inductionHypothesis =>
    obtain ⟨first, later⟩ := List.forall_mem_cons.mp each
    rw [List.mapM_cons, List.mapM_cons, first, inductionHypothesis later]
    cases compute item with
    | error error => rfl
    | ok result => cases rest.mapM compute <;> rfl

/-- A traversal fails if its first item does or the traversal of the others. -/
theorem mapM_cons_eq_error_iff {error : ε} : (item :: items).mapM compute = .error error ↔
    compute item = .error error ∨
      (∃ result, compute item = .ok result) ∧ items.mapM compute = .error error := by
  rw [List.mapM_cons, bind_eq_error_iff]
  refine or_congr_right ?_
  simp only [bind_eq_error_iff]
  constructor
  · rintro ⟨result, first, failed | ⟨_, _, ⟨⟩⟩⟩
    exact ⟨⟨result, first⟩, failed⟩
  · rintro ⟨⟨result, first⟩, failed⟩
    exact ⟨result, first, .inl failed⟩

/-- A traversal fails as the first of its items that does. All items before it succeed, and
nothing is asked of those behind it. -/
theorem mapM_eq_error_iff {error : ε} : items.mapM compute = .error error ↔
    ∃ before item after, items = before ++ item :: after ∧
      (∀ earlier ∈ before, ∃ result, compute earlier = .ok result) ∧
      compute item = .error error := by
  constructor
  · intro failed
    induction items with
    | nil => cases failed
    | cons item rest inductionHypothesis =>
      rcases mapM_cons_eq_error_iff.mp failed with refused | ⟨accepted, failed⟩
      · exact ⟨[], item, rest, rfl, nofun, refused⟩
      · obtain ⟨before, other, after, rfl, earlier, refused⟩ := inductionHypothesis failed
        exact ⟨item :: before, other, after, rfl, List.forall_mem_cons.mpr ⟨accepted, earlier⟩,
          refused⟩
  · rintro ⟨before, item, after, rfl, accepted, refused⟩
    induction before with
    | nil => exact mapM_cons_eq_error_iff.mpr (.inl refused)
    | cons earlier before inductionHypothesis =>
      obtain ⟨first, accepted⟩ := List.forall_mem_cons.mp accepted
      exact mapM_cons_eq_error_iff.mpr (.inr ⟨first, inductionHypothesis accepted⟩)

/-- A traversal fails as one of its items does. -/
theorem exists_of_mapM_error {error : ε} (failed : items.mapM compute = .error error) :
    ∃ item ∈ items, compute item = .error error := by
  obtain ⟨before, item, after, rfl, _, blamed⟩ := mapM_eq_error_iff.mp failed
  exact ⟨item, List.mem_append_right _ List.mem_cons_self, blamed⟩

end Traversals

end Amqp
