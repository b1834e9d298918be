/-
# Typing on

What becomes of a text that is wrong when something is typed after it?  Some errors go away: a text that
ends too early may be completed.  The errors that are about a token which is there (`isDefinite`) stay,
whatever is typed.

The tokens of the longer text are those of the shorter one with more tokens in the place of the mark `eof`,
except that a name at the very end may have grown into a longer name (`Continued`).  A reader sees one
token at a time.  So its answer on the shorter list is either undecided, because it came to the end, or it
is the answer on the longer list too (`Steady`).  This holds of the readers of single tokens, and it is
kept by sequence and by the loop; from there it is passed up to formulas.
-/
import ProofSheet.Proofs.Rereading

namespace ProofSheet

/-! ## Errors that stay -/

namespace ParseError

/-- What an error is about, whatever token it quotes. -/
inductive Kind where
  | unexpectedEnd
  | unexpectedToken
  | expectedClosing
  | expectedTerm
  | expectedVariable
  | trailingInput
  | tooDeep
  deriving DecidableEq, Repr

def kind : ParseError → Kind
  | .unexpectedEnd => .unexpectedEnd
  | .unexpectedToken _ => .unexpectedToken
  | .expectedClosing _ => .expectedClosing
  | .expectedTerm => .expectedTerm
  | .expectedVariable _ => .expectedVariable
  | .trailingInput => .trailingInput
  | .tooDeep => .tooDeep

/-- Is the error about a token that is there?  A missing term is counted out, since the error does not say
what was found in its place. -/
def isDefinite : ParseError → Bool
  | .unexpectedEnd => false
  | .expectedTerm => false
  | .expectedClosing found => found != .eof
  | _ => true

end ParseError

/-! ## Tokens of a longer text -/

/-- `Continued ts us`: the tokens `us` begin like `ts`, up to the mark at the end of `ts`.  A name right
before the mark may have become another one, but if it was no variable then it is none now. -/
inductive Continued : List Token → List Token → Prop
  | more (us : List Token) : Continued [.eof] us
  | grown {n m : String} (us : List Token) : (isVariableName n = false → isVariableName m = false) →
      Continued [.identifier n, .eof] (.identifier m :: us)
  | cons (t : Token) {ts us : List Token} : Continued ts us → Continued (t :: ts) (t :: us)

theorem Continued.prepend {ts us : List Token} (pre : List Token) (h : Continued ts us) :
    Continued (pre ++ ts) (pre ++ us) := by
  induction pre with
  | nil => exact h
  | cons t pre ih => exact .cons t ih

theorem Continued.current_ne_eof {ts us : List Token} (h : Continued ts us)
    (ht : Formula.Reader.current ts ≠ .eof) : Formula.Reader.current us ≠ .eof := by
  cases h with
  | more us => exact absurd rfl ht
  | grown us _ => exact Token.noConfusion
  | cons t _ => exact ht

namespace Token

/-- Inside an identifier, the next token is an identifier that begins with what has been read of it. -/
theorem scanFrom_open (c : Char) (ds : List Char) : ∀ name : List Char, ∃ grown us,
    scanFrom (c :: name) ds = identifier (String.ofList ((c :: name).reverse ++ grown)) :: us := by
  induction ds generalizing c with
  | nil =>
      intro name
      exact ⟨[], [eof], by simp [scanFrom, close]⟩
  | cons d ds ih =>
      intro name
      by_cases hd : continues (c :: name) d = true
      · obtain ⟨grown, us, e⟩ := ih d (c :: name)
        exact ⟨d :: grown, us, by rw [scanFrom, if_pos hd, e]; simp⟩
      · exact ⟨[], (ofChar? d).toList ++ scanFrom [] ds, by
          rw [scanFrom, if_neg hd]; simp [close]⟩

theorem isVariableName_grown {c : Char} {cs grown : List Char}
    (h : isVariableName (String.ofList (c :: cs)) = false) :
    isVariableName (String.ofList (c :: cs ++ grown)) = false := by
  cases cs with
  | nil =>
      cases grown with
      | nil => exact h
      | cons d grown => simp [isVariableName]
  | cons d cs => simp [isVariableName]

theorem continued_scanFrom (cs ds : List Char) :
    ∀ name : List Char, Continued (scanFrom name cs) (scanFrom name (cs ++ ds)) := by
  induction cs with
  | nil =>
      intro name
      cases name with
      | nil => exact .more _
      | cons c name =>
          -- the text ends inside an identifier, which may go on in what follows
          obtain ⟨grown, us, e⟩ := scanFrom_open c ds name
          obtain ⟨b, bs, hb⟩ : ∃ b bs, (c :: name).reverse = b :: bs :=
            List.exists_cons_of_ne_nil (by simp)
          rw [List.nil_append, e, scanFrom, close, hb]
          · exact .grown us isVariableName_grown
          · exact List.cons_ne_nil c name
  | cons c cs ih =>
      intro name
      rw [List.cons_append, scanFrom, scanFrom]
      split
      · exact ih (c :: name)
      · exact (ih []).prepend _

theorem continued_scan (t s : String) : Continued (scan t) (scan (t ++ s)) := by
  rw [scan, scan, String.toList_append]
  exact continued_scanFrom t.toList s.toList []

end Token

namespace Formula

open Reader

variable {α β : Type}

/-! ## Answers that stay -/

/-- The reader came to the end, and its answer may depend on what follows. -/
def Undecided : Except Failure (α × List Token) → Prop
  | .ok (_, rest) => current rest = .eof
  | .error e => e.cause.isDefinite = false

/-- The answer on a list and the answer on a list that goes on: the same value, or errors of the same kind. -/
inductive Agrees : Except Failure (α × List Token) → Except Failure (α × List Token) → Prop
  | ok (a : α) {rest rest' : List Token} : Continued rest rest' → Agrees (.ok (a, rest)) (.ok (a, rest'))
  | error {e e' : Failure} : e'.cause.kind = e.cause.kind → e'.cause.isDefinite = true →
      Agrees (.error e) (.error e')

/-- The first answer is undecided, or else the second one agrees with it. -/
def Settled (x x' : Except Failure (α × List Token)) : Prop := Undecided x ∨ Agrees x x'

/-- What a reader answers stays its answer when the input goes on, unless it came to the end. -/
structure Steady (p : Reader α) : Prop where
  waits : ∀ {ts : List Token}, current ts = .eof → Undecided (p ts)
  keeps : ∀ {ts us : List Token}, Continued ts us → Settled (p ts) (p us)

/-- There are two ways to be at the end: no token is left, or only the mark. -/
theorem undecided_of_end (p : Reader α) (hnil : Undecided (p []))
    (heof : ∀ us, Undecided (p (.eof :: us))) {ts : List Token} (ht : current ts = .eof) :
    Undecided (p ts) := by
  match ts, ht with
  | [], _ => exact hnil
  | .eof :: us, _ => exact heof us

theorem undecided_bind {x : Except Failure (α × List Token)}
    {k : α × List Token → Except Failure (β × List Token)} (hx : Undecided x)
    (hk : ∀ a rest, current rest = .eof → Undecided (k (a, rest))) : Undecided (x >>= k) := by
  match x with
  | .ok (a, rest) => exact hk a rest hx
  | .error e => exact hx

/-- What comes second need only be steady on what the first leaves. -/
theorem settled_bind {x x' : Except Failure (α × List Token)}
    {k : α × List Token → Except Failure (β × List Token)} (hx : Settled x x')
    (hwait : ∀ a rest, current rest = .eof → Undecided (k (a, rest)))
    (hk : ∀ a rest rest', x = .ok (a, rest) → Continued rest rest' →
      Settled (k (a, rest)) (k (a, rest'))) : Settled (x >>= k) (x' >>= k) := by
  rcases hx with hx | hx
  · exact .inl (undecided_bind hx hwait)
  · cases hx with
    | ok a hrest => exact hk a _ _ rfl hrest
    | error hkind hdefinite => exact .inr (.error hkind hdefinite)

theorem Steady.bind {p : Reader α} {k : α × List Token → Except Failure (β × List Token)}
    (hp : Steady p) (hk : ∀ a, Steady fun ts => k (a, ts)) : Steady fun ts => p ts >>= k where
  waits ht := undecided_bind (hp.waits ht) fun a _ => (hk a).waits
  keeps h := settled_bind (hp.keeps h) (fun a _ => (hk a).waits) fun a _ _ _ => (hk a).keeps

theorem steady_pure (a : α) : Steady fun ts => .ok (a, ts) where
  waits ht := ht
  keeps h := .inr (.ok a h)

theorem Steady.finish {p : Reader α} (hp : Steady p) (g : α → β) :
    Steady fun ts => p ts >>= fun r => .ok (g r.1, r.2) :=
  hp.bind fun a => steady_pure (g a)

/-! ## The loop -/

section

variable {isSep : Token → Bool} {item : Reader α}

theorem further_waits (heof : isSep .eof = false) {ts : List Token} (ht : current ts = .eof) :
    Undecided (Parser.further isSep item ts ts) := by
  refine undecided_of_end (fun ts => Parser.further isSep item ts ts) rfl ?_ ht
  intro us
  simp only [Parser.further, heof]
  rfl

/-- A round begins at a separator, which is neither the end nor a name, so the same round is made on the
list that goes on.  The induction is on a bound for the length. -/
theorem further_settled (hitem : Steady item) (hshrinks : Parser.Shrinks item)
    (heof : isSep .eof = false) (hname : ∀ n, isSep (.identifier n) = false) :
    ∀ (bound : Nat) {ts us : List Token}, ts.length ≤ bound → Continued ts us →
      Settled (Parser.further isSep item ts ts) (Parser.further isSep item us us) := by
  intro bound
  induction bound with
  | zero =>
      intro ts us hlen h
      obtain rfl : ts = [] := List.length_eq_zero_iff.1 (Nat.le_zero.1 hlen)
      cases h
  | succ bound ih =>
      intro ts us hlen h
      cases h with
      | more us => exact .inl (further_waits heof rfl)
      | grown us hgrown =>
          rw [Parser.further_eq _ hshrinks, Parser.further_eq _ hshrinks, hname, hname]
          exact .inr (.ok [] (.grown us hgrown))
      | @cons t ts us h =>
          rw [Parser.further_eq _ hshrinks, Parser.further_eq _ hshrinks]
          split
          · refine settled_bind (hitem.keeps h) ?_ ?_
            · intro a rest hrest
              exact undecided_bind (further_waits heof hrest) fun as _ ht => ht
            · intro a rest rest' hok hrest
              have hshort : rest.length ≤ bound :=
                Nat.le_trans (hshrinks _ _ _ hok) (Nat.le_of_succ_le_succ hlen)
              exact settled_bind (ih hshort hrest) (fun as _ ht => ht)
                fun as _ _ _ h => .inr (.ok (a :: as) h)
          · exact .inr (.ok [] (.cons t h))

theorem steady_sepBy (hitem : Steady item) (hshrinks : Parser.Shrinks item)
    (heof : isSep .eof = false) (hname : ∀ n, isSep (.identifier n) = false) :
    Steady (Parser.sepBy isSep item) := by
  refine hitem.bind fun a => ?_
  have hloop : Steady fun ts => Parser.further isSep item ts ts :=
    ⟨further_waits heof, fun h => further_settled hitem hshrinks heof hname _ (Nat.le_refl _) h⟩
  exact hloop.finish fun as => (a, as)

end

/-! ## The readers, one by one -/

theorem steady_term : Steady term where
  waits := undecided_of_end term rfl fun _ => rfl
  keeps := by
    intro ts us h
    cases h with
    | more us => exact .inl rfl
    | grown us _ => exact .inl rfl
    | cons t h =>
        cases t with
        | identifier n => exact .inr (.ok _ h)
        | _ => exact .inl rfl

theorem steady_closing : Steady closing where
  waits := undecided_of_end closing rfl fun _ => rfl
  keeps := by
    intro ts us h
    cases h with
    | more us => exact .inl rfl
    | grown us _ => exact .inr (.error rfl rfl)
    | cons t h =>
        cases t with
        | closing => exact .inr (.ok () h)
        | eof => exact .inl rfl
        | _ => exact .inr (.error rfl rfl)

theorem steady_boundVariable : Steady boundVariable where
  waits := undecided_of_end boundVariable rfl fun _ => rfl
  keeps := by
    intro ts us h
    cases h with
    | more us => exact .inl rfl
    | @grown n m us hgrown =>
        rw [boundVariable, boundVariable]
        cases hn : isVariableName n with
        -- a variable at the very end is accepted, but the reader has come to the end
        | true => exact .inl rfl
        | false =>
            rw [hgrown hn]
            exact .inr (.error rfl rfl)
    | cons t h =>
        cases t with
        | identifier n =>
            rw [boundVariable, boundVariable]
            split
            · exact .inr (.ok n h)
            · exact .inr (.error rfl rfl)
        | eof => exact .inl rfl
        | _ => exact .inr (.error rfl rfl)

/-- Reads the terms of a list of arguments and the parenthesis after it. -/
def listed : Reader (List Term) := fun ts => do
  let ((t, others), ts) ← Parser.sepBy (· == .comma) term ts
  let ((), ts) ← closing ts
  return (t :: others, ts)

theorem arguments_opening {t : Token} (h : t ≠ .closing) (ts : List Token) :
    arguments (.opening :: t :: ts) = listed (t :: ts) := by
  cases t with
  | closing => exact absurd rfl h
  | _ => rfl

theorem steady_listed : Steady listed :=
  (steady_sepBy steady_term shrinks_term rfl fun _ => rfl).bind fun _ =>
    steady_closing.bind fun _ => steady_pure _

theorem steady_arguments : Steady arguments where
  waits := by
    intro ts ht
    rw [arguments_of_noList (by rw [ht]; exact Token.noConfusion)]
    exact ht
  keeps := by
    intro ts us h
    cases h with
    | more us => exact .inl rfl
    | grown us hgrown => exact .inr (.ok [] (.grown us hgrown))
    | @cons t ts us h =>
        by_cases ht : t = .opening
        · subst ht
          cases h with
          | more us => exact .inl rfl
          | grown us _ => exact .inl rfl
          | @cons t' ts us h =>
              by_cases ht' : t' = .closing
              · subst ht'
                exact .inr (.ok [] h)
              · rw [arguments_opening ht', arguments_opening ht']
                exact steady_listed.keeps (.cons t' h)
        · rw [arguments_of_noList (show current (t :: ts) ≠ .opening from ht),
            arguments_of_noList (show current (t :: us) ≠ .opening from ht)]
          exact .inr (.ok [] (.cons t h))

theorem steady_joined {operand : Reader Formula} (h : Steady operand) (hs : Parser.Shrinks operand) :
    ∀ cs : List Connective, Steady (joined operand cs)
  | [] => h
  | _ :: cs =>
      (steady_sepBy (steady_joined h hs cs) (shrinks_joined hs cs) rfl fun _ => rfl).bind
        fun _ => steady_pure _

theorem unary_waits {room : Nat} {ts : List Token} (ht : current ts = .eof) :
    Undecided (unary room ts) := by
  refine undecided_of_end (unary room) ?_ (fun us => ?_) ht
  · cases room <;> rfl
  · cases room <;> rfl

/-- Does the token open a level where an operand is expected? -/
def Reader.opensLevel : Token → Bool
  | .negation => true
  | .quantifier _ => true
  | .opening => true
  | _ => false

theorem unary_settled {t : Token} (ht : opensLevel t = false) (room : Nat) {ts us : List Token}
    (h : Continued ts us) : Settled (unary room (t :: ts)) (unary room (t :: us)) := by
  cases t with
  | identifier n =>
      have hpredicate := steady_arguments.finish (Formula.predicate n)
      cases room <;> exact hpredicate.keeps h
  | bottom => cases room <;> exact .inr (.ok Formula.bottom h)
  | eof => exact .inl (unary_waits rfl)
  | negation => cases ht
  | quantifier q => cases ht
  | opening => cases ht
  | _ => cases room <;> exact .inr (.error rfl rfl)

/-- The first token decides which kind of operand it is, and whether there is a level to open for it. -/
theorem steady_unary (room : Nat) : Steady (unary room) := by
  induction room with
  | zero =>
      refine ⟨unary_waits, ?_⟩
      intro ts us h
      cases h with
      | more us => exact .inl rfl
      | grown us _ => exact .inl rfl
      | cons t h =>
          cases t with
          | negation => exact .inr (.error rfl rfl)
          | quantifier q => exact .inr (.error rfl rfl)
          | opening => exact .inr (.error rfl rfl)
          | _ => exact unary_settled rfl 0 h
  | succ room ih =>
      have hbody := steady_joined ih (shrinks_unary room) precedence
      refine ⟨unary_waits, ?_⟩
      intro ts us h
      cases h with
      | more us => exact .inl rfl
      | grown us _ => exact .inl rfl
      | cons t h =>
          cases t with
          | negation => exact (ih.finish Formula.neg).keeps h
          | quantifier q =>
              have hquantified : Steady fun ts => boundVariable ts >>= fun r =>
                  joined (unary room) precedence r.2 >>= fun r' =>
                    .ok (Formula.quantified q r.1 r'.1, r'.2) :=
                steady_boundVariable.bind fun x => hbody.finish (Formula.quantified q x)
              exact hquantified.keeps h
          | opening =>
              have henclosed : Steady fun ts => joined (unary room) precedence ts >>= fun r =>
                  closing r.2 >>= fun r' => .ok (r.1, r'.2) :=
                hbody.bind fun f => steady_closing.finish fun _ => f
              exact henclosed.keeps h
          | _ => exact unary_settled rfl (room + 1) h

theorem steady_read (room : Nat) : Steady (read room) :=
  steady_joined (steady_unary room) (shrinks_unary room) precedence

/-! ## Texts -/

/-- An error about a token that is there stays when tokens follow, and so does input after a formula. -/
theorem ofTokens_continued {ts us : List Token} {e : ParseError} (h : Continued ts us)
    (he : ofTokens ts = .error e) (hd : e.isDefinite = true) :
    ∃ e', ofTokens us = .error e' ∧ e'.kind = e.kind ∧ e'.isDefinite = true := by
  have hread := (steady_read maxDepth).keeps h
  unfold ofTokens at he
  split at he
  · rename_i failure hfail
    cases he
    rw [hfail] at hread
    rcases hread with hread | hread
    · exact absurd (hd.symm.trans hread) (by simp)
    · generalize hus : read maxDepth us = x at hread
      cases hread with
      | @error _ e' hkind hdefinite => exact ⟨e'.cause, by rw [ofTokens, hus], hkind, hdefinite⟩
  · rename_i f rest hok
    split at he
    · cases he
    · rename_i hrest
      cases he
      rw [hok] at hread
      rcases hread with hread | hread
      · exact absurd hread hrest
      · generalize hus : read maxDepth us = x at hread
        cases hread with
        | ok _ hrest' =>
            refine ⟨.trailingInput, ?_, rfl, rfl⟩
            simp only [ofTokens, hus, if_neg (hrest'.current_ne_eof hrest)]

/-- A text that is wrong by a token it contains stays wrong, with an error of the same kind, whatever is
typed after it. -/
theorem mistakes_stay {t : String} {e : ParseError} (h : parse t = .error e) (he : e.isDefinite = true)
    (s : String) :
    ∃ e', parse (t ++ s) = .error e' ∧ e'.kind = e.kind ∧ e'.isDefinite = true ∧
      Reading.ofText (t ++ s) = .wrong e'.message := by
  obtain ⟨e', hparse, hkind, hdefinite⟩ := ofTokens_continued (Token.continued_scan t s) h he
  refine ⟨e', hparse, hkind, hdefinite, Reading.ofText_of_mistake hparse ?_⟩
  rintro rfl
  cases hdefinite

/-- The name after the formula grows, and what is typed after it would close the parenthesis; it is still
the closing parenthesis that is missed. -/
theorem grown_name_stays_wrong :
    parse "(P Q" = .error (.expectedClosing (.identifier "Q")) ∧
    (ParseError.expectedClosing (.identifier "Q")).isDefinite = true ∧
    ∃ e', parse ("(P Q" ++ "1) ∧ R") = .error e' ∧ e'.kind = .expectedClosing ∧
      e'.isDefinite = true ∧ Reading.ofText ("(P Q" ++ "1) ∧ R") = .wrong e'.message := by
  have hwrong : parse "(P Q" = .error (.expectedClosing (.identifier "Q")) := rfl
  exact ⟨hwrong, rfl, mistakes_stay hwrong rfl _⟩

end Formula

end ProofSheet
