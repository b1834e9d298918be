/-
# Attempts that succeed

Readers, edits and payloads are all attempts: they give a value or the cause of a failure.  A
computation made of several attempts succeeds exactly when each of them does, and the lemmas here
say so for two attempts in sequence and for one attempt on every element of a list.  The proofs
about such computations take them apart with these lemmas and never open a bind.

An attempt that fails does so with the first thing that goes wrong, which is the subject of the second
section.  An attempt on every element leaves two lists that go together element by element; the last
section says what is read off such a pairing.
-/
import Mathlib.Data.List.Forall2

namespace ProofSheet

variable {ε α β γ : Type}

theorem bind_eq_ok {x : Except ε α} {k : α → Except ε β} {b : β} :
    x >>= k = .ok b ↔ ∃ a, x = .ok a ∧ k a = .ok b := by
  cases x with
  | error e =>
      constructor
      · intro h; cases h
      · rintro ⟨a, h, -⟩; cases h
  | ok a =>
      constructor
      · intro h; exact ⟨a, rfl, h⟩
      · rintro ⟨a', h, hk⟩; cases h; exact hk

theorem bind_eq_error {x : Except ε α} {k : α → Except ε β} {e : ε} :
    x >>= k = .error e ↔ x = .error e ∨ ∃ a, x = .ok a ∧ k a = .error e := by
  cases x with
  | error e' =>
      constructor
      · intro h; cases h; exact .inl rfl
      · rintro (h | ⟨a, h, -⟩)
        · cases h; rfl
        · cases h
  | ok a =>
      constructor
      · intro h; exact .inr ⟨a, rfl, h⟩
      · rintro (h | ⟨a', h, hk⟩)
        · cases h
        · cases h; exact hk

theorem bind_error (e : ε) (k : α → Except ε β) : (Except.error e >>= k) = .error e := rfl

theorem bind_ok (a : α) (k : α → Except ε β) : (Except.ok a >>= k) = k a := rfl

theorem exists_of_toBool {x : Except ε α} (h : x.toBool = true) : ∃ a, x = .ok a := by
  cases x with
  | error e => cases h
  | ok a => exact ⟨a, rfl⟩

/-- An attempt on every element of a list succeeds when each attempt does, and gives the list of
the values. -/
theorem mapM_eq_ok {f : α → Except ε β} {xs : List α} {ys : List β} :
    xs.mapM f = .ok ys ↔ List.Forall₂ (fun x y => f x = .ok y) xs ys := by
  induction xs generalizing ys with
  | nil =>
      rw [List.mapM_nil, List.forall₂_nil_left_iff]
      constructor
      · intro h; cases h; rfl
      · rintro rfl; rfl
  | cons x xs ih =>
      rw [List.mapM_cons, bind_eq_ok, List.forall₂_cons_left_iff]
      constructor
      · rintro ⟨y, hy, h⟩
        obtain ⟨ys', hys, h⟩ := bind_eq_ok.1 h
        cases h
        exact ⟨y, ys', hy, ih.1 hys, rfl⟩
      · rintro ⟨y, ys', hy, hys, rfl⟩
        exact ⟨y, hy, bind_eq_ok.2 ⟨ys', ih.2 hys, rfl⟩⟩

theorem mapM_eq_some {f : α → Option β} {xs : List α} {ys : List β} :
    xs.mapM f = some ys ↔ List.Forall₂ (fun x y => f x = some y) xs ys := by
  induction xs generalizing ys with
  | nil =>
      rw [List.mapM_nil, List.forall₂_nil_left_iff]
      constructor
      · intro h; cases h; rfl
      · rintro rfl; rfl
  | cons x xs ih =>
      rw [List.mapM_cons, Option.bind_eq_bind, Option.bind_eq_some_iff, List.forall₂_cons_left_iff]
      constructor
      · rintro ⟨y, hy, h⟩
        obtain ⟨ys', hys, h⟩ := Option.bind_eq_some_iff.1 h
        cases h
        exact ⟨y, ys', hy, ih.1 hys, rfl⟩
      · rintro ⟨y, ys', hy, hys, rfl⟩
        exact ⟨y, hy, Option.bind_eq_some_iff.2 ⟨ys', ih.2 hys, rfl⟩⟩

/-- An attempt on every element of a list fails at the first element where the attempt fails. -/
theorem mapM_eq_error {f : α → Except ε β} {xs : List α} {e : ε} :
    xs.mapM f = .error e ↔ ∃ before x after, xs = before ++ x :: after ∧
      (∀ y ∈ before, ∃ b, f y = .ok b) ∧ f x = .error e := by
  induction xs with
  | nil =>
      constructor
      · intro h; cases h
      · rintro ⟨before, x, after, h, -⟩; simp at h
  | cons x xs ih =>
      rw [List.mapM_cons]
      constructor
      · intro h
        cases hx : f x with
        | error e' =>
            rw [hx] at h
            cases h
            exact ⟨[], x, xs, rfl, by simp, hx⟩
        | ok b =>
            rw [hx, bind_ok] at h
            cases hxs : xs.mapM f with
            | ok bs => rw [hxs] at h; cases h
            | error e' =>
                rw [hxs] at h
                cases h
                obtain ⟨before, y, after, rfl, hbefore, hy⟩ := ih.1 hxs
                exact ⟨x :: before, y, after, rfl, List.forall_mem_cons.2 ⟨⟨b, hx⟩, hbefore⟩, hy⟩
      · rintro ⟨before, y, after, hsplit, hbefore, hy⟩
        cases before with
        | nil =>
            cases hsplit
            rw [hy, bind_error]
        | cons z before =>
            cases hsplit
            obtain ⟨⟨b, hb⟩, hbefore⟩ := List.forall_mem_cons.1 hbefore
            rw [hb, bind_ok, ih.2 ⟨before, y, after, rfl, hbefore, hy⟩, bind_error]

/-! ## The first failure

What can go wrong in an attempt made of several is a list, in the order of the attempts, and the
attempt fails with the first of it. -/

/-- `Reports x es`: the attempt `x` succeeds if `es` is empty, and else fails with the first of it. -/
inductive Reports : Except ε α → List ε → Prop
  | success (a : α) : Reports (.ok a) []
  | failure (e : ε) (es : List ε) : Reports (.error e) (e :: es)

theorem Reports.bind {x : Except ε α} {k : α → Except ε β} {es es' : List ε} (hx : Reports x es)
    (hk : ∀ a, x = .ok a → Reports (k a) es') : Reports (x >>= k) (es ++ es') := by
  cases hx with
  | success a => exact hk a rfl
  | failure e es => exact .failure e (es ++ es')

/-- What is made of the value of an attempt adds nothing to what can go wrong. -/
theorem Reports.finish {x : Except ε α} {es : List ε} (hx : Reports x es) (g : α → β) :
    Reports (x >>= fun a => pure (g a)) es := by
  cases hx with
  | success a => exact .success (g a)
  | failure e es => exact .failure e es

theorem reports_mapM {f : α → Except ε β} {g : α → List ε} {xs : List α}
    (h : ∀ x ∈ xs, Reports (f x) (g x)) : Reports (xs.mapM f) (xs.flatMap g) := by
  induction xs with
  | nil => exact .success []
  | cons x xs ih =>
      obtain ⟨hx, hxs⟩ := List.forall_mem_cons.1 h
      rw [List.mapM_cons, List.flatMap_cons]
      exact hx.bind fun y _ => (ih hxs).finish (y :: ·)

theorem Reports.ok_iff {x : Except ε α} {es : List ε} (h : Reports x es) :
    (∃ a, x = .ok a) ↔ es = [] := by
  cases h with
  | success a => exact ⟨fun _ => rfl, fun _ => ⟨a, rfl⟩⟩
  | failure e es =>
      constructor
      · rintro ⟨a, ha⟩; cases ha
      · intro hes; cases hes

theorem Reports.error_iff {x : Except ε α} {es : List ε} (h : Reports x es) (e : ε) :
    x = .error e ↔ es.head? = some e := by
  cases h with
  | success a => constructor <;> intro he <;> cases he
  | failure e' es =>
      constructor
      · intro he; cases he; rfl
      · intro he; cases he; rfl

/-! ## Lists that go together -/

section

variable {R : α → β → Prop} {l : List α} {m : List β}

theorem map_eq_of_forall₂ {f : α → γ} {g : β → γ} (hR : ∀ x y, R x y → g y = f x)
    (h : List.Forall₂ R l m) : m.map g = l.map f := by
  induction h with
  | nil => rfl
  | cons hxy _ ih => rw [List.map_cons, List.map_cons, hR _ _ hxy, ih]

theorem exists_of_forall₂ (h : List.Forall₂ R l m) : ∀ y ∈ m, ∃ x ∈ l, R x y := by
  induction h with
  | nil => intro y hy; cases hy
  | cons hxy _ ih =>
      intro z hz
      rcases List.mem_cons.1 hz with rfl | hz
      · exact ⟨_, List.mem_cons_self, hxy⟩
      · obtain ⟨x, hx, hxz⟩ := ih z hz
        exact ⟨x, List.mem_cons_of_mem _ hx, hxz⟩

theorem forall₂_comp {S : β → γ → Prop} {T : α → γ → Prop} {n : List γ}
    (h : List.Forall₂ R l m) (h' : List.Forall₂ S m n) (hT : ∀ x y z, R x y → S y z → T x z) :
    List.Forall₂ T l n := by
  induction h generalizing n with
  | nil =>
      cases h'
      exact .nil
  | cons hxy _ ih =>
      cases h' with
      | cons hyz htail => exact .cons (hT _ _ _ hxy hyz) (ih htail)

theorem forall₂_append {l' : List α} {m' : List β} (hlen : l.length = m.length) :
    List.Forall₂ R (l ++ l') (m ++ m') ↔ List.Forall₂ R l m ∧ List.Forall₂ R l' m' := by
  induction l generalizing m with
  | nil =>
      obtain rfl := List.length_eq_zero_iff.1 hlen.symm
      simp
  | cons x l ih =>
      cases m with
      | nil => cases hlen
      | cons y m =>
          simp only [List.cons_append, List.forall₂_cons, ih (Nat.succ.inj hlen), and_assoc]

theorem getElem?_of_forall₂ (h : List.Forall₂ R l m) {i : Nat} {y : β} (hi : m[i]? = some y) :
    ∃ x, l[i]? = some x ∧ R x y := by
  obtain ⟨hm, rfl⟩ := List.getElem?_eq_some_iff.1 hi
  have hl : i < l.length := h.length_eq ▸ hm
  exact ⟨l[i], List.getElem?_eq_getElem hl, h.get hl hm⟩

end

end ProofSheet
