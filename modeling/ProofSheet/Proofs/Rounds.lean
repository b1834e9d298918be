/-
# Rounds of a loop

The loop that reads items between separators makes one round after the other, as long as a separator
is next.  `Rounds` says what some rounds do, without saying that they are all: a run of the loop is
rounds that stop in front of no separator (`rounds_of_further`, `further_stops`), and such rounds are
a run of the loop (`further_of_rounds`).  Proofs about a grammar go by induction on rounds; the
bookkeeping of the loop stays in this module.
-/
import ProofSheet.Parser
import ProofSheet.Proofs.Attempt

namespace ProofSheet

namespace Parser

variable {σ ε α : Type}

/-- `Rounds isSep item input as rest`: from `input`, some rounds of a separator and an item give the
values `as` and leave `rest`.  Another round may still be possible. -/
inductive Rounds (isSep : σ → Bool) (item : Parser σ ε α) : List σ → List α → List σ → Prop
  | stop {input : List σ} : Rounds isSep item input [] input
  | round {s : σ} {input mid rest : List σ} {a : α} {as : List α} :
      isSep s = true → item input = .ok (a, mid) → Rounds isSep item mid as rest →
      Rounds isSep item (s :: input) (a :: as) rest

variable {isSep : σ → Bool} {item : Parser σ ε α}

theorem rounds_of_further :
    ∀ {bound input rest : List σ} {as : List α},
      further isSep item bound input = .ok (as, rest) → Rounds isSep item input as rest
  | [], _, _, _, h => by cases h; exact .stop
  | _ :: _, [], _, _, h => by cases h; exact .stop
  | _ :: bound, s :: input, rest, as, h => by
      simp only [further] at h
      split at h
      · rename_i hs
        obtain ⟨⟨a, mid⟩, ha, h⟩ := bind_eq_ok.1 h
        obtain ⟨⟨as', rest'⟩, has, h⟩ := bind_eq_ok.1 h
        cases h
        exact .round hs ha (rounds_of_further has)
      · cases h
        exact .stop

/-- The loop fails in some round: after a separator no item is read. -/
theorem rounds_of_further_error :
    ∀ {bound input : List σ} {e : ε}, further isSep item bound input = .error e →
      ∃ as s mid, Rounds isSep item input as (s :: mid) ∧ isSep s = true ∧ item mid = .error e
  | [], _, _, h => by cases h
  | _ :: _, [], _, h => by cases h
  | _ :: bound, s :: input, e, h => by
      simp only [further] at h
      split at h
      · rename_i hs
        rcases bind_eq_error.1 h with h | ⟨⟨a, mid⟩, ha, h⟩
        · exact ⟨[], s, input, .stop, hs, h⟩
        · rcases bind_eq_error.1 h with h | ⟨as, -, h⟩
          · obtain ⟨as, s', mid', hrounds, hs', hfail⟩ := rounds_of_further_error h
            exact ⟨a :: as, s', mid', .round hs ha hrounds, hs', hfail⟩
          · cases h
      · cases h

/-- The loop makes every round that can be made: it ends after given rounds if no separator is
next. -/
theorem further_of_rounds (hi : Shrinks item) {input rest : List σ} {as : List α}
    (h : Rounds isSep item input as rest) (hr : ∀ s ∈ rest.head?, isSep s = false) :
    further isSep item input input = .ok (as, rest) := by
  induction h with
  | @stop input =>
      cases input with
      | nil => rfl
      | cons s input =>
          have hs : isSep s = false := hr s rfl
          simp [further, hs]
  | round hs ha _ ih =>
      rw [further_eq isSep hi, if_pos hs, ha]
      simp only [bind_ok, ih hr]
      rfl

/-- Where the number of rounds is known, nothing need be known of the item. -/
theorem further_of_rounds_count {input rest : List σ} {as : List α}
    (h : Rounds isSep item input as rest) (hr : ∀ s ∈ rest.head?, isSep s = false) :
    ∀ {bound : List σ}, as.length ≤ bound.length → further isSep item bound input = .ok (as, rest) := by
  induction h with
  | @stop input =>
      intro bound _
      cases bound with
      | nil => rfl
      | cons b bound =>
          cases input with
          | nil => rfl
          | cons s input =>
              have hs : isSep s = false := hr s rfl
              simp [further, hs]
  | round hs ha _ ih =>
      intro bound hb
      cases bound with
      | nil => exact absurd hb (Nat.not_succ_le_zero _)
      | cons b bound =>
          rw [further, if_pos hs, ha]
          simp only [bind_ok, ih hr (Nat.le_of_succ_le_succ hb)]
          rfl

theorem Rounds.snoc {s : σ} {input mid rest : List σ} {a : α} {as : List α}
    (h : Rounds isSep item input as (s :: mid)) (hs : isSep s = true)
    (ha : item mid = .ok (a, rest)) : Rounds isSep item input (as ++ [a]) rest := by
  generalize hm : s :: mid = left at h
  induction h with
  | stop => subst hm; exact .round hs ha .stop
  | round hs' ha' _ ih => exact .round hs' ha' (ih hm)

theorem sepBy_eq_ok {input rest : List σ} {a : α} {as : List α}
    (h : sepBy isSep item input = .ok ((a, as), rest)) :
    ∃ mid, item input = .ok (a, mid) ∧ Rounds isSep item mid as rest := by
  obtain ⟨⟨a', mid⟩, ha, h⟩ := bind_eq_ok.1 h
  obtain ⟨⟨as', rest'⟩, has, h⟩ := bind_eq_ok.1 h
  cases h
  exact ⟨mid, ha, rounds_of_further has⟩

theorem sepBy_eq_error {input : List σ} {e : ε} (h : sepBy isSep item input = .error e) :
    item input = .error e ∨ ∃ a mid as s rest, item input = .ok (a, mid) ∧
      Rounds isSep item mid as (s :: rest) ∧ isSep s = true ∧ item rest = .error e := by
  rcases bind_eq_error.1 h with h | ⟨⟨a, mid⟩, ha, h⟩
  · exact .inl h
  · rcases bind_eq_error.1 h with h | ⟨as, -, h⟩
    · obtain ⟨as, s, rest, hrounds, hs, hfail⟩ := rounds_of_further_error h
      exact .inr ⟨a, mid, as, s, rest, ha, hrounds, hs, hfail⟩
    · cases h

theorem sepBy_of_rounds (hi : Shrinks item) {input mid rest : List σ} {a : α} {as : List α}
    (ha : item input = .ok (a, mid)) (h : Rounds isSep item mid as rest)
    (hr : ∀ s ∈ rest.head?, isSep s = false) :
    sepBy isSep item input = .ok ((a, as), rest) := by
  rw [sepBy, ha]
  simp only [bind_ok, further_of_rounds hi h hr]
  rfl

theorem Rounds.length_le (hi : Shrinks item) {input rest : List σ} {as : List α}
    (h : Rounds isSep item input as rest) : rest.length ≤ input.length := by
  induction h with
  | stop => exact Nat.le_refl _
  | round _ ha _ ih =>
      have hm := hi _ _ _ ha
      simp only [List.length_cons]
      omega

/-- What rounds leave is what they were given, or what an item left. -/
theorem Rounds.last {input rest : List σ} {as : List α} (h : Rounds isSep item input as rest) :
    rest = input ∨ ∃ a mid, item mid = .ok (a, rest) := by
  induction h with
  | stop => exact .inl rfl
  | @round _ input mid _ a _ _ ha _ ih =>
      rcases ih with rfl | ih
      · exact .inr ⟨a, input, ha⟩
      · exact .inr ih

theorem shrinks_sepBy (hi : Shrinks item) : Shrinks (sepBy isSep item) := by
  rintro input ⟨a, as⟩ rest h
  obtain ⟨mid, ha, has⟩ := sepBy_eq_ok h
  exact Nat.le_trans (has.length_le hi) (hi _ _ _ ha)

theorem further_stops (hi : Shrinks item) :
    ∀ {bound input rest : List σ} {as : List α}, input.length ≤ bound.length →
      further isSep item bound input = .ok (as, rest) → ∀ s ∈ rest.head?, isSep s = false
  | [], [], _, _, _, h => by cases h; simp
  | _ :: _, [], _, _, _, h => by cases h; simp
  | _ :: bound, s :: input, rest, as, hb, h => by
      simp only [further] at h
      split at h
      · obtain ⟨⟨a, mid⟩, ha, h⟩ := bind_eq_ok.1 h
        obtain ⟨⟨as', rest'⟩, has, h⟩ := bind_eq_ok.1 h
        cases h
        have hm := hi _ _ _ ha
        exact further_stops hi (Nat.le_trans hm (Nat.le_of_succ_le_succ hb)) has
      · rename_i hs
        cases h
        rintro t ⟨⟩
        simpa using hs

theorem sepBy_stops (hi : Shrinks item) {input rest : List σ} {a : α} {as : List α}
    (h : sepBy isSep item input = .ok ((a, as), rest)) :
    (∃ b mid, item mid = .ok (b, rest)) ∧ ∀ s ∈ rest.head?, isSep s = false := by
  obtain ⟨⟨a', mid⟩, ha, h⟩ := bind_eq_ok.1 h
  obtain ⟨⟨as', rest'⟩, has, h⟩ := bind_eq_ok.1 h
  cases h
  refine ⟨?_, further_stops hi (Nat.le_refl _) has⟩
  rcases (rounds_of_further has).last with rfl | hl
  · exact ⟨a, input, ha⟩
  · exact hl

end Parser

end ProofSheet
