/-!
# Maps without a key twice

A map on the wire is a list of pairs and may repeat a key. Read as a typed map, the
repetitions collapse: a key stands where it first occurred and has the value that it
last had. A typed map is therefore a list of pairs with distinct keys, in the order
in which the keys came.
-/

namespace Amqp.TypedMap

variable {κ β : Type} [DecidableEq κ]

/-- Give a key a value: in its place if the map has it, else at the end. -/
def insert (key : κ) (value : β) : List (κ × β) → List (κ × β)
  | [] => [(key, value)]
  | (present, old) :: rest =>
    if present = key then (present, value) :: rest
    else (present, old) :: insert key value rest

/-- The typed map of some pairs, taken in order. -/
def ofPairs (pairs : List (κ × β)) : List (κ × β) :=
  pairs.foldl (fun built pair => insert pair.1 pair.2 built) []

/-- The value of a key. -/
def get? (key : κ) : List (κ × β) → Option β
  | [] => none
  | (present, value) :: rest => if present = key then some value else get? key rest

/-- After an insertion the key has the new value and the others keep theirs. This holds of any
list of pairs, also one with a key twice, of which the first counts. -/
theorem get?_insert (key wanted : κ) (value : β) (built : List (κ × β)) :
    get? wanted (insert key value built) =
      if key = wanted then some value else get? wanted built := by
  induction built with
  | nil => simp [insert, get?]
  | cons pair rest inductionHypothesis =>
    obtain ⟨present, old⟩ := pair
    by_cases same : present = key
    · subst same
      by_cases found : present = wanted <;> simp [insert, get?, found]
    · by_cases found : present = wanted
      · subst found
        simp [insert, get?, same, Ne.symm same]
      · simp [insert, get?, same, found, inductionHypothesis]

/-- An insertion adds its key at the end unless the map has it. So keys stay distinct, and none
of them moves. -/
theorem keys_insert (key : κ) (value : β) (built : List (κ × β)) :
    (insert key value built).map Prod.fst =
      if key ∈ built.map Prod.fst then built.map Prod.fst else built.map Prod.fst ++ [key] := by
  induction built with
  | nil => simp [insert]
  | cons pair rest inductionHypothesis =>
    obtain ⟨present, old⟩ := pair
    by_cases same : present = key
    · subst same
      simp [insert]
    · simp only [insert, same, if_false, List.map_cons, inductionHypothesis, List.mem_cons,
        Ne.symm same, false_or]
      split <;> simp

/-- A key that is not there is added at the end. -/
theorem insert_of_not_mem {key : κ} {built : List (κ × β)} (fresh : key ∉ built.map Prod.fst)
    (value : β) : insert key value built = built ++ [(key, value)] := by
  induction built with
  | nil => rfl
  | cons pair rest inductionHypothesis =>
    obtain ⟨present, old⟩ := pair
    simp only [List.map_cons, List.mem_cons, not_or] at fresh
    rw [insert, if_neg (Ne.symm fresh.1), inductionHypothesis fresh.2, List.cons_append]

/-- Pairs after an insertion are the one inserted or were there before. The former value of the
key is gone. -/
theorem mem_insert {key : κ} {value : β} {built : List (κ × β)} {pair : κ × β}
    (member : pair ∈ insert key value built) : pair = (key, value) ∨ pair ∈ built := by
  induction built with
  | nil => simpa [insert] using member
  | cons first rest inductionHypothesis =>
    obtain ⟨present, old⟩ := first
    rw [insert] at member
    split at member
    · next same =>
      subst same
      rcases List.mem_cons.1 member with found | found
      · exact .inl found
      · exact .inr (List.mem_cons_of_mem _ found)
    · rcases List.mem_cons.1 member with found | found
      · exact .inr (found ▸ List.mem_cons_self)
      · exact (inductionHypothesis found).imp_right (List.mem_cons_of_mem _)

/-- An insertion keeps the keys distinct. -/
theorem nodup_insert {built : List (κ × β)} (distinct : (built.map Prod.fst).Nodup) (key : κ)
    (value : β) : ((insert key value built).map Prod.fst).Nodup := by
  rw [keys_insert]
  split
  · exact distinct
  · next fresh =>
    rw [List.nodup_append]
    exact ⟨distinct, by simp, fun one first two second same =>
      fresh (by rw [← List.mem_singleton.1 second, ← same]; exact first)⟩

/-- What is built from pairs holds only those pairs. -/
theorem mem_ofPairs {pairs : List (κ × β)} {pair : κ × β} (member : pair ∈ ofPairs pairs) :
    pair ∈ pairs := by
  have general : ∀ built : List (κ × β),
      pair ∈ pairs.foldl (fun built pair => insert pair.1 pair.2 built) built →
        pair ∈ built ∨ pair ∈ pairs := by
    clear member
    induction pairs with
    | nil => intro built member; exact .inl member
    | cons first rest inductionHypothesis =>
      intro built member
      rcases inductionHypothesis _ member with found | found
      · rcases mem_insert found with same | old
        · exact .inr (same ▸ List.mem_cons_self)
        · exact .inl old
      · exact .inr (List.mem_cons_of_mem _ found)
  simpa using general [] member

/-- The keys of a typed map are distinct. -/
theorem nodup_ofPairs (pairs : List (κ × β)) : ((ofPairs pairs).map Prod.fst).Nodup := by
  have general : ∀ built : List (κ × β), (built.map Prod.fst).Nodup →
      ((pairs.foldl (fun built pair => insert pair.1 pair.2 built) built).map Prod.fst).Nodup := by
    induction pairs with
    | nil => intro built distinct; exact distinct
    | cons first rest inductionHypothesis =>
      intro built distinct
      exact inductionHypothesis _ (nodup_insert distinct _ _)
  exact general [] List.nodup_nil

/-- Pairs with distinct keys are a typed map already, so making a typed map of one changes
nothing. -/
theorem ofPairs_of_nodup {pairs : List (κ × β)} (distinct : (pairs.map Prod.fst).Nodup) :
    ofPairs pairs = pairs := by
  have general : ∀ built : List (κ × β), ((built ++ pairs).map Prod.fst).Nodup →
      pairs.foldl (fun built pair => insert pair.1 pair.2 built) built = built ++ pairs := by
    clear distinct
    induction pairs with
    | nil => intro built _; simp
    | cons first rest inductionHypothesis =>
      intro built distinct
      have fresh : first.1 ∉ built.map Prod.fst := by
        intro present
        rw [List.map_append, List.nodup_append] at distinct
        exact distinct.2.2 _ present first.1 (by simp) rfl
      rw [List.foldl_cons, insert_of_not_mem fresh, inductionHypothesis]
      · simp
      · simpa using distinct
  simpa [ofPairs] using general [] (by simpa using distinct)

/-- What comes behind pairs without a key decides its value. Pairs in front of it do not count.
-/
theorem get?_append_of_not_mem {key : κ} {front : List (κ × β)}
    (absent : key ∉ front.map Prod.fst) (back : List (κ × β)) :
    get? key (front ++ back) = get? key back := by
  induction front with
  | nil => rfl
  | cons pair rest inductionHypothesis =>
    obtain ⟨present, old⟩ := pair
    simp only [List.map_cons, List.mem_cons, not_or] at absent
    rw [List.cons_append, get?, if_neg (Ne.symm absent.1), inductionHypothesis absent.2]

/-- The value of a key stands beside it. -/
theorem mem_of_get? {key : κ} {value : β} {built : List (κ × β)}
    (found : get? key built = some value) : (key, value) ∈ built := by
  induction built with
  | nil => cases found
  | cons pair rest inductionHypothesis =>
    obtain ⟨present, old⟩ := pair
    rw [get?] at found
    split at found
    · next same =>
      cases same
      cases found
      exact List.mem_cons_self
    · exact List.mem_cons_of_mem _ (inductionHypothesis found)

/-- A pair of a typed map tells the value of its key. In a list with a key twice only the first
pair would. -/
theorem get?_of_mem {key : κ} {value : β} {built : List (κ × β)}
    (distinct : (built.map Prod.fst).Nodup) (member : (key, value) ∈ built) :
    get? key built = some value := by
  obtain ⟨before, after, rfl⟩ := List.append_of_mem member
  rw [List.map_append, List.nodup_append] at distinct
  have absent : key ∉ before.map Prod.fst := fun earlier =>
    distinct.2.2 key earlier key (by simp) rfl
  rw [get?_append_of_not_mem absent, get?, if_pos rfl]

end Amqp.TypedMap
