/-
# Citations keep their target

A citation names a node id, and no node id is handed out twice, so it means the same thing for as long as
that thing is on the sheet.  A verifier is told the address that the thing has now, wherever it has moved;
once the thing has been deleted there is nothing to tell, and no payload as long as something cites it.
-/
import ProofSheet.Proofs.Faults
import ProofSheet.Proofs.InPlace

namespace ProofSheet

namespace Payload

variable {b : RuleBook} {s : Sheet} {p : Payload}

theorem no_payload_of_dangling (hs : s.Invariant) {e : Entity} (he : e ∈ s.entities) {id : NodeId}
    (hcited : id ∈ e.cited) (hgone : id ∉ s.entities.map Entity.id) :
    ∃ f, ofSheet b s = .error f := by
  cases h : ofSheet b s with
  | error f => exact ⟨f, rfl⟩
  | ok p =>
      obtain ⟨r, -, a, -, -, hpremises⟩ := exists_of_forall₂ (handed_ofSheet hs h).flip e he
      obtain ⟨q, -, e', he', hid, -⟩ := exists_of_forall₂ hpremises.flip id hcited
      exact absurd (hid ▸ List.mem_map_of_mem he') hgone

theorem premises_current (hs : s.Invariant) {e : Entity} {r : Record} (h : Handed s e r) :
    r.premises.map some = e.cited.map fun c => (s.numberOf? c).map Address.print := by
  obtain ⟨a, -, -, hcited⟩ := h
  refine map_eq_of_forall₂ ?_ hcited
  rintro c q ⟨f, hf, rfl, b, hb, -, rfl⟩
  rw [Sheet.numberOf?, Sheet.find?_of_mem hs.distinct hf, Option.bind_some, hb]
  rfl

theorem deleted_gone {earlier : List Command} (later : List Command) {c : Command} {r : Reply} {t : Sheet}
    (h : c.run (Command.runAll {} earlier) = (.ok r, t)) {e : Entity} (he : e ∈ r.removed) :
    e.id ∉ (Command.runAll {} (earlier ++ c :: later)).entities.map Entity.id := by
  have hbefore : (Command.runAll {} earlier).Invariant :=
    Command.runAll_invariant earlier Sheet.invariant_empty
  obtain ⟨hspent, hgone⟩ := Command.removed_gone hbefore h he
  rw [Command.runAll_append]
  show e.id ∉ (Command.runAll (c.run (Command.runAll {} earlier)).2 later).entities.map Entity.id
  rw [h]
  exact Command.gone_runAll hspent hgone later

/-- Along every history from the empty sheet, whatever of it fails, no node id is handed out twice, and
everything on the sheet has one that was handed out.  What has been deleted, alone or inside a subproof,
never comes back under its id, and as long as something cites it there is no payload.  For a citation of a
thing that is there, a line is given the current address of that thing if it comes before the line, and
is told that it does not otherwise.  So if nothing is wrong with the sheet there is a payload, and where there
is one, every citation is told as the current address of the thing with the id that is cited.  If the node ids
taken fit into 32 bits, all this is so where the history is performed in place: every command along it is
answered alike and leads to the same sheet. -/
theorem citations_keep_target (history : List Command) :
    (Command.handedAll {} history).Nodup ∧
    (∀ e ∈ (Command.runAll {} history).entities, e.id ∈ Command.handedAll {} history) ∧
    (∀ (earlier : List Command) (c : Command) (later : List Command) (r : Reply) (t : Sheet),
      history = earlier ++ c :: later → c.run (Command.runAll {} earlier) = (.ok r, t) →
      ∀ e ∈ r.removed,
        (∀ e' ∈ (Command.runAll {} history).entities, e'.id ≠ e.id) ∧
        ∀ (b : RuleBook), ∀ e' ∈ (Command.runAll {} history).entities, e.id ∈ e'.cited →
          ∃ f, ofSheet b (Command.runAll {} history) = .error f) ∧
    (∃ d, Directory.ofSheet (Command.runAll {} history) = .ok d ∧ ∀ line : Address,
      (∀ target, (∀ e ∈ (Command.runAll {} history).entities, e.id ≠ target) →
        d.cite line target = .error (.danglingReference line target)) ∧
      ∀ e ∈ (Command.runAll {} history).entities, ∃ a, e.number = some a ∧
        d.cite line e.id = if a.before line then .ok a.print else .error (.forwardReference line a)) ∧
    (∀ b : RuleBook, (Command.runAll {} history).faults b = [] →
      ∃ p, ofSheet b (Command.runAll {} history) = .ok p) ∧
    (∀ (b : RuleBook) (p : Payload), ofSheet b (Command.runAll {} history) = .ok p →
      List.Forall₂ (fun e r => r.premises.map some =
          e.cited.map fun c => ((Command.runAll {} history).numberOf? c).map Address.print)
        (Command.runAll {} history).entities p.records) ∧
    ((history.map Command.takes).sum ≤ NodeId.largest →
      Command.performAll {} history = Command.runAll {} history ∧
      ∀ (earlier : List Command) (c : Command) (later : List Command), history = earlier ++ c :: later →
        c.perform (Command.performAll {} earlier) = c.run (Command.runAll {} earlier)) := by
  have hinv : (Command.runAll {} history).Invariant :=
    Command.runAll_invariant history Sheet.invariant_empty
  refine ⟨Command.nodup_handedAll history {}, ?_, ?_, ?_, ?_, ?_, ?_⟩
  · intro e he
    rcases Command.mem_handedAll history (List.mem_map_of_mem he) with h | h
    · exact h
    · cases h
  · rintro earlier c later r t rfl hrun e he
    have habsent := deleted_gone later hrun he
    constructor
    · intro e' he' hid
      exact habsent (hid ▸ List.mem_map_of_mem he')
    · intro b e' he' hcited
      exact no_payload_of_dangling hinv he' hcited habsent
  · obtain ⟨d, hd⟩ := Directory.exists_ofSheet hinv.numbered
    refine ⟨d, hd, fun line => ⟨fun target habsent => ?_, fun e he => ?_⟩⟩
    · exact Directory.cite_of_absent hd line habsent
    · exact Directory.cite_of_mem hinv hd line he
  · intro b hfaults
    exact (reports_ofSheet b hinv).ok_iff.2 hfaults
  · intro b p h
    exact (handed_ofSheet hinv h).imp fun e r her => premises_current hinv her
  · intro htaken
    have hroom : (Sheet.freshId {}).val + (history.map Command.takes).sum ≤ NodeId.largest := by
      show 0 + (history.map Command.takes).sum ≤ NodeId.largest
      rwa [Nat.zero_add]
    refine ⟨Command.performAll_eq_runAll history hroom, ?_⟩
    rintro earlier c later rfl
    exact Command.perform_eq_run_along hroom

/-- The history of `weakening`, and then a line that comes, moves and goes, and a second premise that shifts
all below it. -/
def shiftedWeakening : List Command :=
  weakening ++ [.insertStatement [] 0, .moveStep [] 0 2, .deleteStep [] 2, .addPremise, .setText ⟨7⟩ "R"]

/-- The theorem for this history: every citation is told at its new address.  If the premise that a line cites
is deleted then, there is no payload. -/
theorem shifted_citations_kept : ∃ p f, Command.handedAll {} shiftedWeakening = (List.range 8).map NodeId.mk ∧
    ((List.range 8).map NodeId.mk).Nodup ∧
    ofSheet {} (Command.performAll {} shiftedWeakening) = .ok p ∧
    p.records = [⟨"1", []⟩, ⟨"2", []⟩, ⟨"3", []⟩, ⟨"3.1", []⟩, ⟨"3.2", ["1"]⟩, ⟨"4", ["3"]⟩, ⟨"5", ["4"]⟩] ∧
    List.Forall₂ (fun e r => r.premises.map some =
        e.cited.map fun c => ((Command.runAll {} shiftedWeakening).numberOf? c).map Address.print)
      (Command.runAll {} shiftedWeakening).entities p.records ∧
    ofSheet {} (Command.runAll {} (shiftedWeakening ++ [.deletePremise 0])) = .error f := by
  obtain ⟨hnodup, -, -, -, hpayload, hcurrent, hperform⟩ := citations_keep_target shiftedWeakening
  obtain ⟨-, -, hdeleted, -⟩ := citations_keep_target (shiftedWeakening ++ [.deletePremise 0])
  have hhanded : Command.handedAll {} shiftedWeakening = (List.range 8).map NodeId.mk := by decide +kernel
  have hrecords : (ofSheet {} (Command.runAll {} shiftedWeakening)).map records = .ok
      [⟨"1", []⟩, ⟨"2", []⟩, ⟨"3", []⟩, ⟨"3.1", []⟩, ⟨"3.2", ["1"]⟩, ⟨"4", ["3"]⟩, ⟨"5", ["4"]⟩] := by
    decide +kernel
  have hreply : ((Command.deletePremise 0).run (Command.runAll {} shiftedWeakening)).1 =
      .ok (.removedPremise ⟨⟨0⟩, "P", .formula (.predicate "P" []), some ⟨[1]⟩⟩) := by decide +kernel
  have hciting : ∃ e ∈ (Command.runAll {} (shiftedWeakening ++ [.deletePremise 0])).entities,
      ⟨0⟩ ∈ e.cited := by decide +kernel
  obtain ⟨p, hp⟩ := hpayload {} (by decide +kernel)
  obtain ⟨e, he, hcited⟩ := hciting
  rcases hrun : (Command.deletePremise 0).run (Command.runAll {} shiftedWeakening) with ⟨reply, t⟩
  rw [hrun] at hreply
  cases hreply
  obtain ⟨-, hnone⟩ := hdeleted shiftedWeakening _ [] _ t rfl hrun _ (List.mem_singleton_self _)
  obtain ⟨f, hf⟩ := hnone {} e he hcited
  refine ⟨p, f, hhanded, hhanded ▸ hnodup, ?_, ?_, hcurrent {} p hp, hf⟩
  · rw [(hperform (by decide +kernel)).1, hp]
  · rw [hp] at hrecords
    exact Except.ok.inj hrecords

end Payload

end ProofSheet
