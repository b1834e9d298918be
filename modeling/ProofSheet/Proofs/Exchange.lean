/-
# Exchanges with a verifier

A session makes four kinds of calls to a verifier.  What a verifier answers is its own affair: it is any
state machine.  What the session does is fixed by five equations, one for a sheet without a payload and
one for each kind of call, and all that there is to say about calls is read off them: a verifier is
asked once or, if there is nothing to send, not at all; the sheet and the settings stay as they are;
and the rule book changes only when the verifier has accepted a new rule or listed the rules it knows.

What a verifier receives is made visible by a verifier that keeps a list of the requests
(`Verifier.recorded`) and is otherwise the same.
-/
import ProofSheet.Session
import ProofSheet.Proofs.Faults
import ProofSheet.Proofs.RuleBook

namespace ProofSheet

variable {σ : Type}

/-! ## Requests -/

/-- A request to a verifier, with all that it carries. -/
inductive Request where
  | verify (proof : Payload)
  | listRules
  | suggest (r : SuggestRequest)
  | register (r : RegisterRequest)
  deriving DecidableEq

namespace Verifier

def noted {α : Type} (answer : α × σ) (received : List Request) (r : Request) :
    α × σ × List Request :=
  (answer.1, answer.2, received ++ [r])

/-- The same verifier with a list of the requests it has received, the latest last. -/
def recorded (v : Verifier σ) : Verifier (σ × List Request) where
  verify p state := noted (v.verify p state.1) state.2 (.verify p)
  listRules state := noted (v.listRules state.1) state.2 .listRules
  suggest r state := noted (v.suggest r state.1) state.2 (.suggest r)
  register r state := noted (v.register r state.1) state.2 (.register r)

/-- A verifier that accepts everything and has nothing to offer. -/
def accepting : Verifier Unit where
  verify _ state := (.ok .valid, state)
  listRules state := (.ok ⟨[], []⟩, state)
  suggest _ state := (.ok [], state)
  register _ state := (.ok .valid, state)

end Verifier

/-! ## Calls -/

namespace Session

inductive Call where
  | verify
  | suggest
  | register (name : String)
  | refreshRules
  deriving DecidableEq

inductive Answer where
  | outcome (o : Outcome)
  | suggestions (l : List Suggestion)
  | refreshed

structure Turn (σ : Type) where
  answer : Except RequestError Answer
  session : Session
  state : σ

/-- Makes a call.  Checking and suggesting leave the session alone. -/
def call (s : Session) (v : Verifier σ) (state : σ) : Call → Turn σ
  | .verify =>
    let (answer, state) := s.verify v state
    ⟨answer.map .outcome, s, state⟩
  | .suggest =>
    let (answer, state) := s.suggest v state
    ⟨answer.map .suggestions, s, state⟩
  | .register name =>
    let (answer, s, state) := s.register name v state
    ⟨answer.map .outcome, s, state⟩
  | .refreshRules =>
    let (answer, s, state) := s.refreshRules v state
    ⟨answer.map fun _ => .refreshed, s, state⟩

def request (s : Session) (p : Payload) : Call → Request
  | .verify => .verify p
  | .suggest => .suggest { proof := p, max := s.config.service.maxSuggestions }
  | .register name => .register { name, proof := p }
  | .refreshRules => .listRules

/-! ## What each call comes to -/

variable {s : Session} {v : Verifier σ} {state : σ} {p : Payload}

theorem call_of_error {f : Fault} (h : s.payload = .error f) {c : Call} (hc : c ≠ .refreshRules) :
    s.call v state c = ⟨.error (.unconvertible f), s, state⟩ := by
  cases c with
  | verify => simp only [call, verify, h]; rfl
  | suggest => simp only [call, suggest, h]; rfl
  | register name => simp only [call, register, h]; rfl
  | refreshRules => exact absurd rfl hc

theorem call_verify (h : s.payload = .ok p) :
    s.call v state .verify =
      ⟨(v.verify p state).1.map .outcome, s, (v.verify p state).2⟩ := by
  simp only [call, verify, h]

theorem call_suggest (h : s.payload = .ok p) :
    let max := s.config.service.maxSuggestions
    let reply := v.suggest { proof := p, max } state
    s.call v state .suggest =
      ⟨reply.1.map fun l => .suggestions (l.take max), s, reply.2⟩ := by
  simp only [call, suggest, h]
  cases (v.suggest { proof := p, max := s.config.service.maxSuggestions } state).1 <;> rfl

theorem call_register (h : s.payload = .ok p) (name : String) :
    let reply := v.register { name, proof := p } state
    s.call v state (.register name) =
      ⟨reply.1.map .outcome,
        match reply.1 with
        | .ok .valid => { s with rules := s.rules.insert name }
        | _ => s,
        reply.2⟩ := by
  simp only [call, register, h]
  rcases v.register { name, proof := p } state with ⟨_ | _ | _, state'⟩ <;> rfl

theorem call_refreshRules :
    let reply := v.listRules state
    s.call v state .refreshRules =
      ⟨reply.1.map fun _ => .refreshed,
        match reply.1 with
        | .ok listing => { s with rules := listing.book }
        | .error _ => s,
        reply.2⟩ := by
  simp only [call, refreshRules]
  rcases v.listRules state with ⟨_ | _, state'⟩ <;> rfl

/-- The ways in which a call can leave the session: as it was, or with a rule that was accepted, or with
the rules that were listed. -/
theorem session_call (s : Session) (v : Verifier σ) (state : σ) (c : Call) :
    (s.call v state c).session = s ∨
    (∃ name, c = .register name ∧ (s.call v state c).answer = .ok (.outcome .valid) ∧
      (s.call v state c).session = { s with rules := s.rules.insert name }) ∨
    (∃ listing : RuleListing, c = .refreshRules ∧ (s.call v state c).answer = .ok .refreshed ∧
      (s.call v state c).session = { s with rules := listing.book }) := by
  cases c with
  | verify => exact .inl rfl
  | suggest => exact .inl rfl
  | register name =>
      cases hp : s.payload with
      | error f => exact .inl (by rw [call_of_error hp Call.noConfusion])
      | ok p =>
          rw [call_register hp]
          rcases (v.register { name, proof := p } state).1 with e | _ | ⟨line, message⟩
          · exact .inl rfl
          · exact .inr (.inl ⟨name, rfl, rfl, rfl⟩)
          · exact .inl rfl
  | refreshRules =>
      rw [call_refreshRules]
      rcases (v.listRules state).1 with e | listing
      · exact .inl rfl
      · exact .inr (.inr ⟨listing, rfl, rfl, rfl⟩)

/-! ## What a verifier receives -/

theorem received_of_error {f : Fault} (h : s.payload = .error f) {c : Call} (hc : c ≠ .refreshRules)
    (log : List Request) : (s.call v.recorded (state, log) c).state.2 = log := by
  rw [call_of_error h hc]

theorem received_of_ok (h : s.payload = .ok p) (c : Call) (log : List Request) :
    (s.call v.recorded (state, log) c).state.2 = log ++ [s.request p c] := by
  cases c with
  | verify => rw [call_verify h]; rfl
  | suggest => rw [call_suggest h]; rfl
  | register name => rw [call_register h]; rfl
  | refreshRules => rw [call_refreshRules]; rfl

theorem call_recorded (s : Session) (v : Verifier σ) (state : σ) (c : Call) (log : List Request) :
    (s.call v.recorded (state, log) c).answer = (s.call v state c).answer ∧
    (s.call v.recorded (state, log) c).session = (s.call v state c).session ∧
    (s.call v.recorded (state, log) c).state.1 = (s.call v state c).state := by
  by_cases hc : c = .refreshRules
  · subst hc
    rw [call_refreshRules, call_refreshRules]
    exact ⟨rfl, rfl, rfl⟩
  · cases h : s.payload with
    | error f =>
        rw [call_of_error h hc, call_of_error h hc]
        exact ⟨rfl, rfl, rfl⟩
    | ok p =>
        cases c with
        | verify => rw [call_verify h, call_verify h]; exact ⟨rfl, rfl, rfl⟩
        | suggest => rw [call_suggest h, call_suggest h]; exact ⟨rfl, rfl, rfl⟩
        | register name => rw [call_register h, call_register h]; exact ⟨rfl, rfl, rfl⟩
        | refreshRules => exact absurd rfl hc

/-! ## The order of an exchange -/

/-- What every call of a session to a verifier keeps to. -/
structure Orderly (s : Session) (v : Verifier σ) (state : σ) : Prop where
  /-- No call changes the sheet or the settings. -/
  framed : ∀ c, (s.call v state c).session.sheet = s.sheet ∧
    (s.call v state c).session.config = s.config
  /-- Without a payload nothing is checked, suggested or registered: the call fails with the fault of
  the sheet, and the verifier receives nothing. -/
  gated : ∀ f, Payload.ofSheet s.rules s.sheet = .error f → ∀ c, c ≠ .refreshRules →
    s.call v state c = ⟨.error (.unconvertible f), s, state⟩ ∧
      ∀ log, (s.call v.recorded (state, log) c).state.2 = log
  /-- With a payload the verifier receives one request, which carries it. -/
  asked : ∀ p, Payload.ofSheet s.rules s.sheet = .ok p → ∀ c log,
    (s.call v.recorded (state, log) c).state.2 = log ++ [s.request p c]
  /-- Listing the rules is one request, with or without a payload. -/
  listed : ∀ log, (s.call v.recorded (state, log) .refreshRules).state.2 = log ++ [.listRules]
  /-- Keeping a list of the requests changes nothing else. -/
  unobserved : ∀ c log,
    (s.call v.recorded (state, log) c).answer = (s.call v state c).answer ∧
    (s.call v.recorded (state, log) c).session = (s.call v state c).session ∧
    (s.call v.recorded (state, log) c).state.1 = (s.call v state c).state
  /-- Outcomes are those that the verifier reports. -/
  reported : ∀ p, Payload.ofSheet s.rules s.sheet = .ok p →
    (s.call v state .verify).answer = (v.verify p state).1.map .outcome ∧
    ∀ name, (s.call v state (.register name)).answer =
      (v.register { name, proof := p } state).1.map .outcome
  /-- Suggestions are the first ones of the verifier, as many as were asked for if there are. -/
  suggested : ∀ p, Payload.ofSheet s.rules s.sheet = .ok p → ∀ l,
    (v.suggest { proof := p, max := s.config.service.maxSuggestions } state).1 = .ok l →
    ∃ k, (s.call v state .suggest).answer = .ok (.suggestions k) ∧ k <+: l ∧
      k.length = min s.config.service.maxSuggestions l.length
  /-- What the verifier fails with is what the call fails with. -/
  failed : ∀ e,
    (∀ p, Payload.ofSheet s.rules s.sheet = .ok p →
      (v.suggest { proof := p, max := s.config.service.maxSuggestions } state).1 = .error e →
      (s.call v state .suggest).answer = .error e) ∧
    ((v.listRules state).1 = .error e → (s.call v state .refreshRules).answer = .error e)
  /-- Checking, suggesting, a call that fails and a rule that is rejected leave the rule book alone. -/
  kept : ∀ c, (c = .verify ∨ c = .suggest ∨ (∃ e, (s.call v state c).answer = .error e) ∨
      ∃ line message, (s.call v state c).answer = .ok (.outcome (.invalid line message))) →
    (s.call v state c).session.rules = s.rules
  /-- After rules were listed, the custom ones are those of the list, each where it comes first, without
  the reserved ones. -/
  refreshed : ∀ listing, (v.listRules state).1 = .ok listing →
    (s.call v state .refreshRules).answer = .ok .refreshed ∧
    (s.call v state .refreshRules).session.rules.custom =
      (listing.custom.filter fun n => !isReservedRule n).eraseDups
  /-- After a rule was accepted, the custom ones are the old ones and the new one, unless its name is
  reserved or was there. -/
  registered : ∀ p, Payload.ofSheet s.rules s.sheet = .ok p → ∀ name,
    (v.register { name, proof := p } state).1 = .ok .valid →
    (s.call v state (.register name)).answer = .ok (.outcome .valid) ∧
    (s.call v state (.register name)).session.rules.custom =
      if isReservedRule name = true ∨ name ∈ s.rules.custom then s.rules.custom
      else s.rules.custom ++ [name]

theorem framed_call (s : Session) (v : Verifier σ) (state : σ) (c : Call) :
    (s.call v state c).session.sheet = s.sheet ∧ (s.call v state c).session.config = s.config := by
  obtain h | ⟨name, -, -, h⟩ | ⟨listing, -, -, h⟩ := session_call s v state c
  · rw [h]
    exact ⟨rfl, rfl⟩
  · rw [h]
    exact ⟨rfl, rfl⟩
  · rw [h]
    exact ⟨rfl, rfl⟩

theorem suggestions_first (h : s.payload = .ok p) {l : List Suggestion}
    (hl : (v.suggest { proof := p, max := s.config.service.maxSuggestions } state).1 = .ok l) :
    ∃ k, (s.call v state .suggest).answer = .ok (.suggestions k) ∧ k <+: l ∧
      k.length = min s.config.service.maxSuggestions l.length := by
  refine ⟨l.take s.config.service.maxSuggestions, ?_, List.take_prefix _ _, List.length_take⟩
  rw [call_suggest h, hl]
  rfl

theorem rules_kept {c : Call}
    (h : c = .verify ∨ c = .suggest ∨ (∃ e, (s.call v state c).answer = .error e) ∨
      ∃ line message, (s.call v state c).answer = .ok (.outcome (.invalid line message))) :
    (s.call v state c).session.rules = s.rules := by
  obtain hs | ⟨name, rfl, hanswer, -⟩ | ⟨listing, rfl, hanswer, -⟩ := session_call s v state c
  · rw [hs]
  -- both other ways have an answer that `h` excludes
  · rw [hanswer] at h
    simp at h
  · rw [hanswer] at h
    simp at h

/-- Whatever a verifier is and does, the calls of a session to it keep to the order: they are made only
for a sheet with a payload, each is one request, and nothing but the rule book ever changes. -/
theorem calls_orderly (s : Session) (v : Verifier σ) (state : σ) : s.Orderly v state where
  framed := framed_call s v state
  gated := fun _ h _ hc => ⟨call_of_error h hc, received_of_error h hc⟩
  asked := fun _ h c log => received_of_ok h c log
  listed := fun log => by rw [call_refreshRules]; rfl
  unobserved := call_recorded s v state
  reported := by
    intro p h
    rw [call_verify h]
    refine ⟨rfl, fun name => ?_⟩
    rw [call_register h]
  suggested := fun _ h _ hl => suggestions_first h hl
  failed := by
    intro e
    constructor
    · intro p h he
      rw [call_suggest h, he]
      rfl
    · intro he
      rw [call_refreshRules, he]
      rfl
  kept := fun _ h => rules_kept h
  refreshed := by
    intro listing h
    rw [call_refreshRules, h]
    exact ⟨rfl, RuleBook.custom_ofNames listing.custom⟩
  registered := by
    intro p h name hvalid
    rw [call_register h, hvalid]
    exact ⟨rfl, RuleBook.custom_insert s.rules name⟩

/-- The theorem for a session whose sheet has a payload, which is sent in one request and accepted as a rule,
and for a session whose sheet has faults, of which the verifier hears nothing. -/
theorem sent_or_gated : ∃ (s t : Session) (p : Payload),
    s = { sheet := Command.runAll {} Payload.weakening } ∧
    t = { sheet := Command.runAll {} Payload.unfinishedHistory } ∧
    Payload.ofSheet s.rules s.sheet = .ok p ∧
    (s.call Verifier.accepting.recorded ((), []) .verify).state.2 = [.verify p] ∧
    (s.call Verifier.accepting.recorded ((), []) .suggest).state.2 = [.suggest { proof := p, max := 5 }] ∧
    (s.call Verifier.accepting.recorded ((), []) (.register "Weakening")).state.2 =
      [.register { name := "Weakening", proof := p }] ∧
    (s.call Verifier.accepting () (.register "Weakening")).session.rules.custom = ["Weakening"] ∧
    t.call Verifier.accepting () (.register "Weakening") =
      ⟨.error (.unconvertible (.unmappedRule ⟨[1, 2]⟩ "none")), t, ()⟩ ∧
    (t.call Verifier.accepting.recorded ((), []) (.register "Weakening")).state.2 = [] := by
  let s : Session := { sheet := Command.runAll {} Payload.weakening }
  let t : Session := { sheet := Command.runAll {} Payload.unfinishedHistory }
  have hpayload : (Payload.ofSheet s.rules s.sheet).toBool = true := by decide +kernel
  have hfault : Payload.ofSheet t.rules t.sheet = .error (.unmappedRule ⟨[1, 2]⟩ "none") := by
    decide +kernel
  have hsent := calls_orderly s .accepting ()
  obtain ⟨hgated, hreceived⟩ := (calls_orderly t .accepting ()).gated _ hfault (.register "Weakening") nofun
  cases hp : Payload.ofSheet s.rules s.sheet with
  | error f =>
      rw [hp] at hpayload
      cases hpayload
  | ok p =>
      exact ⟨s, t, p, rfl, rfl, hp, hsent.asked p hp .verify [], hsent.asked p hp .suggest [],
        hsent.asked p hp (.register "Weakening") [], (hsent.registered p hp "Weakening" rfl).2, hgated,
        hreceived []⟩

end Session

end ProofSheet
