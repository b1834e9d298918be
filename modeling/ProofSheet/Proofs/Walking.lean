/-
# Where the cursor goes

Every walk of the cursor follows a reader (`KeepsTo`): it ends, with the verdict of the reader and with
the tokens in front that the reader leaves, and it comes back to the level where it began.  A walk made
of two follows the reader made of two (`Finishes.bind`), a loop follows the loop of the readers
(`loop_keepsTo`), and the walk over a nested phrase follows the reader of what is nested, which has one
level less to open (`nested_of_inner`).

So the walk over a formula ends on any tokens, wherever it begins.  Since it is made of moves, it also
stays in bounds (`walks_end_in_bounds`).
-/
import ProofSheet.Proofs.Continuation
import ProofSheet.Proofs.Cursor

namespace ProofSheet

namespace Formula

/-! ## Walks that follow a reader -/

namespace Reader

variable {α : Type}

def verdict : Except Failure (α × List Token) → Verdict α
  | .ok (a, _) => .ok a
  | .error e => .error e.cause

def left : Except Failure (α × List Token) → List Token
  | .ok (_, rest) => rest
  | .error e => e.rest

theorem eq_ok_of_verdict {r : Except Failure (α × List Token)} {a : α} (h : verdict r = .ok a) :
    r = .ok (a, left r) := by
  match r with
  | .ok (_, rest) =>
      cases h
      rfl

end Reader

/-- The reader of the terms that are still to be found. -/
def Listing.reader : Listing → Reader (List Term)
  | .atTerm found => fun ts => Parser.sepBy (· == .comma) Reader.term ts >>=
      fun r => .ok (found ++ r.1.1 :: r.1.2, r.2)
  | .atComma found => fun ts => Parser.further (· == .comma) Reader.term ts ts >>=
      fun r => .ok (found ++ r.1, r.2)

def Phrase.reader : Phrase → (room : Nat) → Reader Formula
  | .joined cs, room => Reader.joined (Reader.unary room) cs
  | .rounds c tighter left, room => fun ts =>
      Parser.further (· == .connective c) (Reader.joined (Reader.unary room) tighter) ts ts >>=
        fun r => .ok (r.1.foldl (.binary c) left, r.2)
  | .operand, room => Reader.unary room
  | .body q, room => fun ts => Reader.boundVariable ts >>= fun r => read room r.2 >>=
      fun r' => .ok (.quantified q r.1 r'.1, r'.2)
  | .nested _, 0 => fun ts => .error ⟨.tooDeep, ts⟩
  | .nested inner, room + 1 => inner.reader room

namespace Reader

/-! What an operand that opens a level holds is read as a nested phrase, whether there is room or not. -/

theorem unary_negation (room : Nat) (ts : List Token) :
    unary room (.negation :: ts) =
      (Phrase.nested .operand).reader room ts >>= fun r => .ok (.neg r.1, r.2) := by
  cases room <;> rfl

theorem unary_quantifier (room : Nat) (q : Quantifier) (ts : List Token) :
    unary room (.quantifier q :: ts) = (Phrase.nested (.body q)).reader room ts := by
  cases room <;> rfl

theorem unary_opening (room : Nat) (ts : List Token) :
    unary room (.opening :: ts) = (Phrase.nested (.joined precedence)).reader room ts >>=
      fun r => closing r.2 >>= fun r' => .ok (r.1, r'.2) := by
  cases room <;> rfl

theorem unary_identifier (room : Nat) (name : String) (ts : List Token) :
    unary room (.identifier name :: ts) =
      arguments ts >>= fun r => .ok (.predicate name r.1, r.2) := by
  cases room <;> rfl

theorem unary_bottom (room : Nat) (ts : List Token) :
    unary room (.bottom :: ts) = .ok (.bottom, ts) := by
  cases room <;> rfl

end Reader

namespace Walk

variable {α β : Type} {c c' : Cursor} {t : Token} {ts : List Token} {d : Nat}
  {r : Except Failure (α × List Token)}

/-- `Finishes c x r`: the walk from `c` that came to `x` has ended, with the verdict of `r` and with
the tokens that `r` leaves in front, at the level where it began. -/
def Finishes (c : Cursor) (x : Option (Verdict α × Cursor))
    (r : Except Failure (α × List Token)) : Prop :=
  ∃ c', x = some (Reader.verdict r, c') ∧ c.Leads c' ∧ c'.spot.depth = c.spot.depth ∧
    c'.rest = Reader.left r

/-- From every spot with `d` open levels, the walk does what the reader says. -/
def KeepsTo (d : Nat) (w : Walk (Verdict α)) (p : Reader α) : Prop :=
  ∀ c : Cursor, c.spot.depth = d → Finishes c (w c) (p c.rest)

theorem bind_apply {w : Walk α} {k : α → Walk β} {a : α} (h : w c = some (a, c')) :
    (w >>= k) c = k a c' := by
  show (w c >>= fun r => k r.1 r.2) = k a c'
  rw [h]
  rfl

theorem finishes_here (c : Cursor) (v : Verdict α) (hv : Reader.verdict r = v)
    (hr : Reader.left r = c.rest) : Finishes c ((pure v : Walk (Verdict α)) c) r :=
  ⟨c, by rw [hv]; rfl, .refl c, rfl, hr.symm⟩

theorem Finishes.after {x : Option (Verdict α × Cursor)} (hc : c.Leads c')
    (hd : c'.spot.depth = c.spot.depth) (h : Finishes c' x r) : Finishes c x r := by
  obtain ⟨c'', hx, hleads, hdepth, hrest⟩ := h
  exact ⟨c'', hx, hc.trans hleads, hdepth.trans hd, hrest⟩

theorem Finishes.afterToken {x : Option (Verdict α × Cursor)} (hc : c.rest = t :: ts)
    (ht : t ≠ .eof) (h : Finishes c.advance x r) : Finishes c x r :=
  h.after (c.leads_advance hc ht) rfl

/-- Two walks in sequence.  The second begins where the first ended, at the same level; a failure of
the first is passed on. -/
theorem Finishes.bind {w : Walk (Verdict α)} {k : Verdict α → Walk (Verdict β)}
    {kr : α × List Token → Except Failure (β × List Token)} (hw : Finishes c (w c) r)
    (herror : ∀ e, k (.error e) = pure (.error e))
    (hok : ∀ a c', r = .ok (a, c'.rest) → c'.spot.depth = c.spot.depth →
      Finishes c' (k (.ok a) c') (kr (a, c'.rest))) :
    Finishes c ((w >>= k) c) (r >>= kr) := by
  obtain ⟨c', hx, hleads, hdepth, hrest⟩ := hw
  rw [bind_apply hx]
  refine .after hleads hdepth ?_
  match r, hrest with
  | .error e, hrest =>
      rw [Reader.verdict, herror]
      exact finishes_here c' _ rfl hrest.symm
  | .ok (a, rest), hrest =>
      obtain rfl : c'.rest = rest := hrest
      exact hok a c' rfl hdepth

theorem KeepsTo.bind {w : Walk (Verdict α)} {k : Verdict α → Walk (Verdict β)} {p : Reader α}
    {kr : α × List Token → Except Failure (β × List Token)} (hw : KeepsTo d w p)
    (herror : ∀ e, k (.error e) = pure (.error e))
    (hok : ∀ a, KeepsTo d (k (.ok a)) fun ts => kr (a, ts)) :
    KeepsTo d (w >>= k) fun ts => p ts >>= kr := by
  intro c hc
  exact (hw c hc).bind herror fun a c' _ hd => hok a c' (hd.trans hc)

theorem keepsTo_pure (a : α) : KeepsTo d (pure (.ok a)) fun ts => .ok (a, ts) :=
  fun c _ => finishes_here c _ rfl rfl

theorem KeepsTo.finish {w : Walk (Verdict α)} {p : Reader α} (hw : KeepsTo d w p) (g : α → β) :
    KeepsTo d (w >>= fun v => pure (v.map g)) fun ts => p ts >>= fun r => .ok (g r.1, r.2) :=
  hw.bind (fun _ => rfl) fun a => keepsTo_pure (g a)

/-! ### Looking at the token in front -/

theorem finishes_look {k : Token → Walk (Verdict α)} (h : Finishes c (k c.current c) r) :
    Finishes c ((current >>= k) c) r := h

theorem finishes_passed {w : Walk (Verdict α)} (hc : c.rest = t :: ts) (ht : t ≠ .eof)
    (h : Finishes c.advance (w c.advance) r) : Finishes c ((advance >>= fun _ => w) c) r :=
  Finishes.afterToken hc ht h

theorem accept_apply (t : Token) (c : Cursor) :
    accept t c = if c.current = t then some (true, c.advance) else some (false, c) := by
  show (if c.current = t then _ else _ : Walk Bool) c = _
  split <;> rfl

theorem finishes_accepted {yes no : Walk (Verdict α)} (hc : c.rest = t :: ts) (ht : t ≠ .eof)
    (h : Finishes c.advance (yes c.advance) r) :
    Finishes c ((accept t >>= fun b => if b then yes else no) c) r := by
  rw [bind_apply ((accept_apply t c).trans (if_pos (c.current_of_cons hc)))]
  exact h.afterToken hc ht

theorem finishes_refused {yes no : Walk (Verdict α)} (hc : c.current ≠ t)
    (h : Finishes c (no c) r) :
    Finishes c ((accept t >>= fun b => if b then yes else no) c) r := by
  rw [bind_apply ((accept_apply t c).trans (if_neg hc))]
  exact h

theorem closing_keepsTo (d : Nat) : KeepsTo d closing Reader.closing := by
  intro c _
  by_cases hclosing : c.current = .closing
  · have hc := c.rest_of_current hclosing Token.noConfusion
    rw [hc]
    exact finishes_accepted hc Token.noConfusion (finishes_here c.advance _ rfl rfl)
  · have hread : Reader.closing c.rest = .error ⟨.expectedClosing c.current, c.rest⟩ := by
      rw [c.current_eq] at hclosing ⊢
      unfold Reader.closing
      split
      · rename_i hrest
        rw [hrest] at hclosing
        exact absurd rfl hclosing
      · rfl
    rw [hread]
    exact finishes_refused hclosing (finishes_look (finishes_here c _ rfl rfl))

theorem term_keepsTo (d : Nat) : KeepsTo d term Reader.term := by
  intro c _
  refine finishes_look ?_
  cases hc : c.rest with
  | nil =>
      rw [c.current_of_nil hc]
      exact finishes_here c _ rfl hc.symm
  | cons t ts =>
      rw [c.current_of_cons hc]
      cases t with
      | identifier name =>
          exact finishes_passed hc Token.noConfusion
            (finishes_here c.advance _ rfl (c.rest_advance hc).symm)
      | _ => exact finishes_here c _ rfl hc.symm

theorem boundVariable_keepsTo (d : Nat) : KeepsTo d boundVariable Reader.boundVariable := by
  intro c _
  refine finishes_look ?_
  cases hc : c.rest with
  | nil =>
      rw [c.current_of_nil hc]
      exact finishes_here c _ rfl hc.symm
  | cons t ts =>
      rw [c.current_of_cons hc]
      cases t with
      | identifier name =>
          simp only [Reader.boundVariable]
          split
          · exact finishes_passed hc Token.noConfusion
              (finishes_here c.advance _ rfl (c.rest_advance hc).symm)
          · exact finishes_here c _ rfl hc.symm
      | _ => exact finishes_here c _ rfl hc.symm

/-! ### Loops -/

/-- A walk that goes on as long as it finds a separator follows the loop of the readers.  The induction
is on the tokens in front: a round passes its separator. -/
theorem loop_keepsTo {t : Token} (ht : t ≠ .eof) {w : Walk (Verdict α)} {p : Reader α}
    (hw : KeepsTo d w p) (hp : Parser.Shrinks p) (loop : β → Walk (Verdict β)) {f : β → α → β}
    {k : β → Verdict α → Walk (Verdict β)}
    (hloop : ∀ b, loop b = accept t >>= fun more => if more then w >>= k b else pure (.ok b))
    (herror : ∀ b e, k b (.error e) = pure (.error e)) (hok : ∀ b a, k b (.ok a) = loop (f b a))
    (b : β) :
    KeepsTo d (loop b) fun ts =>
      Parser.further (· == t) p ts ts >>= fun r => .ok (r.1.foldl f b, r.2) := by
  intro c hd
  induction hn : c.rest.length using Nat.strongRecOn generalizing b c with
  | ind n ih =>
      rw [hloop]
      cases hc : c.rest with
      | nil =>
          refine finishes_refused ?_ (finishes_here c _ rfl hc.symm)
          rw [c.current_of_nil hc]
          exact ht.symm
      | cons s ts =>
          beta_reduce
          rw [Parser.further_eq _ hp]
          by_cases hs : s = t
          · subst hs
            have hfirst := hw c.advance hd
            rw [c.rest_advance hc] at hfirst
            rw [if_pos (beq_self_eq_true s), bind_assoc]
            refine finishes_accepted hc ht (hfirst.bind (herror b) fun a c' hr hd' => ?_)
            -- the separator has been passed, and the item took no tokens back
            have hshort : c'.rest.length < n := by
              have := hp _ _ _ hr
              rw [hc, List.length_cons] at hn
              omega
            rw [hok, bind_assoc]
            exact ih _ hshort (f b a) c' (hd'.trans hd) rfl
          · refine finishes_refused ?_ ?_
            · rw [c.current_of_cons hc]
              exact hs
            · rw [if_neg (by simpa using hs)]
              exact finishes_here c _ rfl hc.symm

/-- Items with separators, and what is made of them: the first item, then the loop. -/
theorem sepBy_bind {isSep : Token → Bool} {p : Reader α}
    {k : (α × List α) × List Token → Except Failure (β × List Token)} (ts : List Token) :
    Parser.sepBy isSep p ts >>= k =
      p ts >>= fun r => Parser.further isSep p r.2 r.2 >>= fun r' => k ((r.1, r'.1), r'.2) := by
  rw [Parser.sepBy, bind_assoc]
  congr 1
  funext r
  rw [bind_assoc]
  rfl

theorem atComma_keepsTo (d : Nat) (found : List Term) :
    KeepsTo d (Listing.atComma found).walk (Listing.atComma found).reader := by
  have hfold : ∀ others : List Term,
      others.foldl (fun found t => found ++ [t]) found = found ++ others := by
    intro others
    rw [List.foldl_append_eq_append, ← List.flatMap_def, List.flatMap_singleton']
  simp only [Listing.reader, ← hfold]
  exact loop_keepsTo Token.noConfusion (term_keepsTo d) shrinks_term
    (fun found => (Listing.atComma found).walk) (fun found => by rw [Listing.walk, Listing.walk])
    (fun _ _ => by rfl) (fun _ _ => by rfl) found

theorem atTerm_keepsTo (d : Nat) (found : List Term) :
    KeepsTo d (Listing.atTerm found).walk (Listing.atTerm found).reader := by
  rw [Listing.walk, Listing.reader, funext sepBy_bind]
  refine (term_keepsTo d).bind (fun _ => rfl) fun t => ?_
  have hloop := atComma_keepsTo d (found ++ [t])
  simp only [Listing.reader, List.append_assoc, List.singleton_append] at hloop
  exact hloop

theorem listed_keepsTo (d : Nat) : KeepsTo d listed Formula.listed := by
  intro c hd
  have hread : Formula.listed c.rest =
      (Listing.atTerm []).reader c.rest >>=
        fun r => Reader.closing r.2 >>= fun r' => .ok (r.1, r'.2) := by
    rw [Listing.reader, bind_assoc]
    rfl
  rw [hread, listed]
  refine (atTerm_keepsTo d [] c hd).bind (fun _ => rfl) fun found c' _ hd' => ?_
  exact (closing_keepsTo d).finish (fun () => found) c' (hd'.trans hd)

theorem arguments_keepsTo (d : Nat) : KeepsTo d arguments Reader.arguments := by
  intro c hd
  by_cases hopening : c.current = .opening
  · have hc := c.rest_of_current hopening Token.noConfusion
    rw [hc]
    refine finishes_accepted hc Token.noConfusion ?_
    by_cases hclosing : c.advance.current = .closing
    · have hc' := c.advance.rest_of_current hclosing Token.noConfusion
      rw [hc']
      exact finishes_accepted hc' Token.noConfusion (finishes_here _ _ rfl rfl)
    · have hread : Reader.arguments (.opening :: c.advance.rest) = Formula.listed c.advance.rest := by
        rw [c.advance.current_eq] at hclosing
        cases hts : c.advance.rest with
        | nil => rfl
        | cons t ts =>
            rw [hts] at hclosing
            exact arguments_opening hclosing ts
      rw [hread]
      exact finishes_refused hclosing (listed_keepsTo d c.advance hd)
  · refine finishes_refused hopening ?_
    rw [c.current_eq] at hopening
    rw [arguments_of_noList hopening]
    exact finishes_here c _ rfl rfl

theorem rounds_keepsTo {room : Nat} {tighter : List Connective}
    (h : KeepsTo d (Phrase.joined tighter).walk ((Phrase.joined tighter).reader room))
    (c : Connective) (f : Formula) :
    KeepsTo d (Phrase.rounds c tighter f).walk ((Phrase.rounds c tighter f).reader room) :=
  loop_keepsTo Token.noConfusion h (shrinks_joined (shrinks_unary room) tighter)
    (fun f => (Phrase.rounds c tighter f).walk) (fun f => by rw [Phrase.walk]) (fun _ _ => by rfl)
    (fun _ _ => by rfl) f

/-- The levels of binding follow those of the reader when the operands do. -/
theorem joined_keepsTo {room : Nat} (h : KeepsTo d Phrase.operand.walk (Reader.unary room)) :
    ∀ cs : List Connective, KeepsTo d (Phrase.joined cs).walk ((Phrase.joined cs).reader room)
  | [] => by
      rw [Phrase.walk]
      exact h
  | c :: cs => by
      have hitem := joined_keepsTo h cs
      rw [Phrase.walk, Phrase.reader, Reader.joined, funext sepBy_bind]
      exact hitem.bind (fun _ => rfl) fun f => rounds_keepsTo hitem c f

/-- An operand that fails is the failure of all that it begins. -/
theorem joined_error {tighter : List Connective} {e : ParseError}
    (h : (Phrase.joined tighter).walk c = some (.error e, c')) (k : Connective) :
    (Phrase.joined (k :: tighter)).walk c = some (.error e, c') := by
  rw [Phrase.walk, bind_apply h]
  rfl

/-! ### Levels -/

theorem nested_apply {inner : Phrase} {v : Verdict Formula} (hd : c.spot.depth < maxDepth)
    (h : inner.walk c.enter = some (v, c')) : (Phrase.nested inner).walk c = some (v, c'.leave) := by
  rw [Phrase.walk]
  show (if c.spot.depth < maxDepth then _ else _ : Walk (Verdict Formula)) c = _
  have henter : (modify Cursor.enter : Walk Unit) c = some ((), c.enter) := rfl
  rw [if_pos hd, bind_apply henter, bind_apply h]
  rfl

theorem operand_opening_error {e : ParseError} (hc : c.current = .opening)
    (h : (Phrase.nested (.joined precedence)).walk c.advance = some (.error e, c')) :
    Phrase.operand.walk c = some (.error e, c') := by
  have hrefuse : ∀ t, t ≠ .opening → accept t c = some (false, c) := fun t ht =>
    (accept_apply t c).trans (if_neg fun ht' => ht (ht'.symm.trans hc))
  have hlook : current c = some (.opening, c) := congrArg (fun t => some (t, c)) hc
  have hpass : advance c = some ((), c.advance) := rfl
  rw [Phrase.walk, bind_apply (hrefuse .negation (by decide)), if_neg Bool.false_ne_true,
    bind_apply (hrefuse (.quantifier .universal) (by decide)), if_neg Bool.false_ne_true,
    bind_apply (hrefuse (.quantifier .existential) (by decide)), if_neg Bool.false_ne_true,
    bind_apply hlook]
  dsimp only
  rw [bind_apply hpass, bind_apply h]
  rfl

/-- A level that is opened is closed again, whatever was found inside. -/
theorem nested_of_inner {p : Reader Formula} {inner : Phrase} (hd : d < maxDepth)
    (h : KeepsTo (d + 1) inner.walk p) : KeepsTo d (Phrase.nested inner).walk p := by
  intro c hc
  subst hc
  obtain ⟨c', hx, hleads, hdepth, hrest⟩ := h c.enter rfl
  have hdeep : c'.spot.depth = c.spot.depth + 1 := hdepth
  refine ⟨c'.leave, nested_apply hd hx, ?_, ?_, hrest⟩
  · have henter : c.Leads c.enter := Cursor.leads_moveTo (.enter hd)
    have hleave : c'.Leads c'.leave := Cursor.leads_moveTo (.leave (by omega))
    exact henter.trans (hleads.trans hleave)
  · show c'.spot.depth - 1 = c.spot.depth
    omega

theorem nested_full (hd : d = maxDepth) (inner : Phrase) :
    KeepsTo d (Phrase.nested inner).walk fun ts => .error ⟨.tooDeep, ts⟩ := by
  intro c hc
  rw [Phrase.walk]
  show Finishes c ((if c.spot.depth < maxDepth then _ else _ : Walk (Verdict Formula)) c) _
  rw [if_neg (by omega)]
  exact finishes_here c _ rfl rfl

theorem operand_of_nested {room : Nat}
    (h : ∀ inner, KeepsTo d (Phrase.nested inner).walk ((Phrase.nested inner).reader room)) :
    KeepsTo d Phrase.operand.walk (Reader.unary room) := by
  intro c hd
  rw [Phrase.walk]
  -- the walk tries the symbols that open an operand one by one, and looks at what it found only then
  by_cases hneg : c.current = .negation
  · have hc := c.rest_of_current hneg Token.noConfusion
    rw [hc, Reader.unary_negation]
    exact finishes_accepted hc Token.noConfusion ((h .operand).finish Formula.neg c.advance hd)
  refine finishes_refused hneg ?_
  by_cases hall : c.current = .quantifier .universal
  · have hc := c.rest_of_current hall Token.noConfusion
    rw [hc, Reader.unary_quantifier]
    exact finishes_accepted hc Token.noConfusion (h (.body .universal) c.advance hd)
  refine finishes_refused hall ?_
  by_cases hex : c.current = .quantifier .existential
  · have hc := c.rest_of_current hex Token.noConfusion
    rw [hc, Reader.unary_quantifier]
    exact finishes_accepted hc Token.noConfusion (h (.body .existential) c.advance hd)
  refine finishes_refused hex (finishes_look ?_)
  cases hc : c.rest with
  | nil =>
      rw [c.current_of_nil hc]
      exact finishes_here c _ (by cases room <;> rfl) (by rw [hc]; cases room <;> rfl)
  | cons t ts =>
      have hrest := c.rest_advance hc
      rw [c.current_of_cons hc] at hneg hall hex ⊢
      cases t with
      | negation => exact absurd rfl hneg
      | quantifier q =>
          cases q with
          | universal => exact absurd rfl hall
          | existential => exact absurd rfl hex
      | opening =>
          rw [Reader.unary_opening, ← hrest]
          refine finishes_passed hc Token.noConfusion ?_
          refine (h (.joined precedence) c.advance hd).bind (fun _ => rfl) fun f c' _ hd' => ?_
          exact (closing_keepsTo d).finish (fun () => f) c' (hd'.trans hd)
      | identifier name =>
          rw [Reader.unary_identifier, ← hrest]
          exact finishes_passed hc Token.noConfusion
            ((arguments_keepsTo d).finish (Formula.predicate name) c.advance hd)
      | bottom =>
          rw [Reader.unary_bottom]
          exact finishes_passed hc Token.noConfusion (finishes_here c.advance _ rfl hrest.symm)
      | _ => exact finishes_here c _ (by cases room <;> rfl) (by rw [hc]; cases room <;> rfl)

/-- The walk over a phrase follows its reader if the walks over nested phrases do. -/
theorem keepsTo_of_nested {room : Nat}
    (h : ∀ inner, KeepsTo d (Phrase.nested inner).walk ((Phrase.nested inner).reader room)) :
    ∀ phrase : Phrase, KeepsTo d phrase.walk (phrase.reader room) := by
  have hjoined := joined_keepsTo (operand_of_nested h)
  intro phrase
  cases phrase with
  | joined cs => exact hjoined cs
  | rounds c tighter f => exact rounds_keepsTo (hjoined tighter) c f
  | operand => exact operand_of_nested h
  | body q =>
      rw [Phrase.walk]
      exact (boundVariable_keepsTo d).bind (fun _ => rfl) fun x =>
        (hjoined precedence).finish (Formula.quantified q x)
  | nested inner => exact h inner

/-- Every walk follows its reader.  The induction is on the room: a nested phrase has one level less to
open. -/
theorem walk_keepsTo (room : Nat) : ∀ d, d + room = maxDepth →
    ∀ phrase : Phrase, KeepsTo d phrase.walk (phrase.reader room) := by
  induction room with
  | zero =>
      intro d hd
      exact keepsTo_of_nested (nested_full hd)
  | succ room ih =>
      intro d hd
      exact keepsTo_of_nested fun inner => nested_of_inner (by omega) (ih (d + 1) (by omega) inner)

end Walk

/-! ## Every walk ends in bounds -/

theorem Derives.ne_nil {l d : Nat} {ts : List Token} {f : Formula} {o : Bool}
    (h : Derives l d ts f o) : ts ≠ [] := by
  induction h with
  | tighter _ _ ih => exact ih
  | joined _ _ _ _ _ => simp
  | _ => exact List.cons_ne_nil _ _

theorem length_lt_of_read {room : Nat} {ts rest : List Token} {f : Formula} (hroom : room ≤ maxDepth)
    (h : read room ts = .ok (f, rest)) : rest.length < ts.length := by
  obtain ⟨used, o, rfl, hused, -⟩ := read_sound (Nat.sub_add_cancel hroom) _ _ _ h
  have hlen := List.length_pos_iff.2 hused.ne_nil
  rw [List.length_append]
  omega

/-- What a walk over the tokens `ts` keeps to, from `start` along its trail to `stop`. -/
structure StaysInBounds (ts : List Token) (start : Spot) (v : Verdict Formula) (stop : Spot)
    (trail : List Spot) : Prop where
  /-- The trail has every spot between the beginning and the end. -/
  path : Path ts start trail stop
  /-- Whatever was found, the levels that were opened have been closed. -/
  depth_eq : stop.depth = start.depth
  depth_le : ∀ p ∈ start :: trail, p.depth ≤ maxDepth
  /-- A formula takes a token. -/
  pos_lt : ∀ f, v = .ok f → start.pos < stop.pos
  /-- The cursor never goes back, and never past the end of the list. -/
  pos_le : ∀ p ∈ start :: trail, start.pos ≤ p.pos ∧ p.pos ≤ ts.length
  /-- No `eof` is passed, the first one as little as any other. -/
  pos_le_eof : ∀ n, start.pos ≤ n → ts[n]? = some .eof → ∀ p ∈ start :: trail, p.pos ≤ n

/-- On any tokens, with or without an `eof` and with one anywhere, from any position in them and with
any number of open levels that is allowed: the walk over a formula ends, it stays in bounds, and it finds
what the reader finds in the tokens ahead with the levels that may still be opened, and stops where the
reader stops. -/
theorem walks_end_in_bounds (ts : List Token) (start : Spot) (hpos : start.pos ≤ ts.length)
    (hdepth : start.depth ≤ maxDepth) :
    ∃ v stop trail,
      Walk.formula ⟨ts, start, []⟩ = some (v, ⟨ts, stop, trail⟩) ∧
      StaysInBounds ts start v stop trail ∧
      v = Reader.verdict (read (maxDepth - start.depth) (ts.drop start.pos)) ∧
      ts.drop stop.pos = Reader.left (read (maxDepth - start.depth) (ts.drop start.pos)) := by
  obtain ⟨⟨ts', stop, trail'⟩, hwalk, hleads, hlevel, hrest⟩ :=
    Walk.walk_keepsTo _ _ (Nat.add_sub_cancel' hdepth) (.joined precedence) ⟨ts, start, []⟩ rfl
  obtain ⟨trail, htrail, hpath⟩ := hleads.path
  obtain rfl : ts = ts' := hleads.tokens.symm
  obtain rfl : trail = trail' := htrail.symm
  replace hpath : Path ts start trail stop := hpath
  replace hrest : ts.drop stop.pos =
    Reader.left (read (maxDepth - start.depth) (ts.drop start.pos)) := hrest
  refine ⟨_, stop, trail, hwalk, ⟨hpath, hlevel, ?_, ?_, ?_, ?_⟩, rfl, hrest⟩
  · exact hpath.forall_mem Move.depth_le hdepth
  · intro f hf
    have hshort : (ts.drop stop.pos).length < (ts.drop start.pos).length := by
      rw [hrest]
      exact length_lt_of_read (Nat.sub_le _ _) (Reader.eq_ok_of_verdict hf)
    rw [List.length_drop, List.length_drop] at hshort
    omega
  · intro p hp
    have hback := hpath.forall_mem (fun hmove hle => Nat.le_trans hle hmove.pos_le) (Nat.le_refl _)
    have hend := hpath.forall_mem (Move.pos_le_of_eof (n := ts.length) (by simp)) hpos
    exact ⟨hback p hp, hend p hp⟩
  · intro n hn heof
    exact hpath.forall_mem (Move.pos_le_of_eof (by rw [heof]; rfl)) hn

/-- A list that breaks off in parentheses, with an `eof` in the middle and none at the end. -/
def brokenOff : List Token :=
  [.bottom, .opening, .identifier "P", .connective .and, .eof, .stray '#']

/-- With one level left to open, the walk opens it, breaks off inside and leaves it again. -/
theorem last_level_left_again :
    Walk.formula ⟨brokenOff, ⟨1, 127⟩, []⟩ =
      some (.error .unexpectedEnd,
        ⟨brokenOff, ⟨4, 127⟩, [⟨2, 127⟩, ⟨2, 128⟩, ⟨3, 128⟩, ⟨4, 128⟩, ⟨4, 127⟩]⟩) ∧
    StaysInBounds brokenOff ⟨1, 127⟩ (.error .unexpectedEnd) ⟨4, 127⟩
      [⟨2, 127⟩, ⟨2, 128⟩, ⟨3, 128⟩, ⟨4, 128⟩, ⟨4, 127⟩] := by
  have hwalk : Walk.formula ⟨brokenOff, ⟨1, 127⟩, []⟩ =
      some (.error .unexpectedEnd,
        ⟨brokenOff, ⟨4, 127⟩, [⟨2, 127⟩, ⟨2, 128⟩, ⟨3, 128⟩, ⟨4, 128⟩, ⟨4, 127⟩]⟩) := by
    -- inside the parentheses: the name, then the connective, and no operand after it
    let name : Cursor := ⟨brokenOff, ⟨2, 128⟩, [⟨2, 127⟩, ⟨2, 128⟩]⟩
    let sign : Cursor := ⟨brokenOff, ⟨3, 128⟩, [⟨2, 127⟩, ⟨2, 128⟩, ⟨3, 128⟩]⟩
    let mark : Cursor := ⟨brokenOff, ⟨4, 128⟩, [⟨2, 127⟩, ⟨2, 128⟩, ⟨3, 128⟩, ⟨4, 128⟩]⟩
    have hname : Phrase.operand.walk name = some (.ok (.predicate "P" []), sign) := by
      rw [Phrase.walk]
      rfl
    have hsign : Walk.accept (.connective .and) sign = some (true, mark) := rfl
    have hmark : Phrase.operand.walk mark = some (.error .unexpectedEnd, mark) := by
      rw [Phrase.walk]
      rfl
    have hjoin : (Phrase.joined [.and]).walk name = some (.error .unexpectedEnd, mark) := by
      rw [Phrase.walk, Phrase.walk, Walk.bind_apply hname]
      show (Phrase.rounds .and [] (.predicate "P" [])).walk sign = _
      rw [Phrase.walk, Walk.bind_apply hsign, if_pos rfl, Phrase.walk, Walk.bind_apply hmark]
      rfl
    have hinner : (Phrase.joined precedence).walk name = some (.error .unexpectedEnd, mark) :=
      Walk.joined_error (Walk.joined_error (Walk.joined_error hjoin .or) .implies) .iff
    have houter : (Phrase.joined []).walk ⟨brokenOff, ⟨1, 127⟩, []⟩ =
        some (.error .unexpectedEnd, mark.leave) := by
      rw [Phrase.walk]
      exact Walk.operand_opening_error rfl (Walk.nested_apply (by decide) hinner)
    exact Walk.joined_error (Walk.joined_error (Walk.joined_error (Walk.joined_error houter .and) .or)
      .implies) .iff
  obtain ⟨v, stop, trail, hends, hbounds, -⟩ :=
    walks_end_in_bounds brokenOff ⟨1, 127⟩ (by decide) (by decide)
  rw [hwalk] at hends
  cases hends
  exact ⟨hwalk, hbounds⟩

end Formula

end ProofSheet
