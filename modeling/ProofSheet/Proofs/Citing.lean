/-
# Citing by typed addresses

What a line cites is typed as a list: items between commas, with blanks around them, and perhaps nothing
but blanks where an item might be.  `Lists text items` says so from the side of the one who types, and the
items are found again whatever the blanks (`listItems_eq_iff`).

On a sheet that edits lead to, no two things share an address, and the dotted form of an address has
neither a comma nor a blank.  So the addresses of some things, typed in any such way, record these very
things, and an item that is no address of anything stops the edit before the line is looked for.
-/
import ProofSheet.Proofs.Histories
import ProofSheet.Proofs.LineEdits
import ProofSheet.Proofs.Shifting

namespace ProofSheet

/-! ## Typed lists -/

/-- `Padded items fields`: the fields hold the items in order, each with blanks around it, and among them
there may be fields of blanks alone. -/
inductive Padded : List String → List (List Char) → Prop
  | nil : Padded [] []
  | blank {pad : List Char} {items : List String} {fields : List (List Char)} :
      Text.Blanks pad → Padded items fields → Padded items (pad :: fields)
  | item {pre post : List Char} (x : String) {items : List String} {fields : List (List Char)} :
      Text.Blanks pre → Text.Blanks post → Padded items fields →
      Padded (x :: items) ((pre ++ x.toList ++ post) :: fields)

/-- The text is the items joined by commas, with blanks around them and blank items in between. -/
def Lists (text : String) (items : List String) : Prop :=
  ∃ fields, Padded items fields ∧ text.toList = [','].intercalate fields

/-- A text that can be an item of a typed list by itself. -/
structure IsItem (x : String) : Prop where
  nonempty : x.toList ≠ []
  whole : ',' ∉ x.toList
  tight : Text.Tight x.toList

theorem Padded.notMem {items : List String} {fields : List (List Char)} (h : Padded items fields)
    (hitems : ∀ x ∈ items, IsItem x) : ∀ w ∈ fields, ',' ∉ w := by
  have hblanks : ∀ {cs : List Char}, Text.Blanks cs → ',' ∉ cs := by
    intro cs hcs hin
    cases hcs ',' hin
  induction h with
  | nil => simp
  | blank hpad _ ih => exact List.forall_mem_cons.2 ⟨hblanks hpad, ih hitems⟩
  | item x hpre hpost _ ih =>
      obtain ⟨hx, hitems⟩ := List.forall_mem_cons.1 hitems
      refine List.forall_mem_cons.2 ⟨?_, ih hitems⟩
      simp only [List.mem_append, not_or]
      exact ⟨⟨hblanks hpre, hx.whole⟩, hblanks hpost⟩

theorem Padded.trimmed {items : List String} {fields : List (List Char)} (h : Padded items fields)
    (hitems : ∀ x ∈ items, IsItem x) :
    ((fields.map Text.trim).filter (!·.isEmpty)).map String.ofList = items := by
  induction h with
  | nil => rfl
  | blank hpad _ ih =>
      rw [List.map_cons, Text.trim_blanks hpad]
      exact ih hitems
  | item x hpre hpost _ ih =>
      obtain ⟨hx, hitems⟩ := List.forall_mem_cons.1 hitems
      rw [List.map_cons, Text.trim_padded hpre hpost hx.tight,
        List.filter_cons_of_pos (by simpa using hx.nonempty), List.map_cons, String.ofList_toList, ih hitems]

namespace Sheet

/-- A field without commas is blank or an item with blanks around it. -/
theorem exists_padded : ∀ {fields : List (List Char)}, (∀ w ∈ fields, ',' ∉ w) →
    ∃ items, Padded items fields ∧ ∀ x ∈ items, IsItem x
  | [], _ => ⟨[], .nil, by simp⟩
  | w :: fields, h => by
      obtain ⟨hw, hfields⟩ := List.forall_mem_cons.1 h
      obtain ⟨items, hpadded, hitems⟩ := exists_padded hfields
      obtain ⟨pre, post, hpre, hpost, hcut, htight⟩ := Text.exists_trim w
      -- the item is what trimming leaves, if it leaves anything
      obtain ⟨x, hx⟩ : ∃ x : String, x.toList = Text.trim w := ⟨.ofList _, String.toList_ofList⟩
      rw [← hx] at hcut htight
      subst hcut
      by_cases hnil : x.toList = []
      · have hblank : Text.Blanks (pre ++ x.toList ++ post) := by
          rw [hnil, List.append_nil]
          exact List.forall_mem_append.2 ⟨hpre, hpost⟩
        exact ⟨items, .blank hblank hpadded, hitems⟩
      · have hwhole : ',' ∉ x.toList := fun hin =>
          hw (List.mem_append_left _ (List.mem_append_right _ hin))
        exact ⟨x :: items, .item x hpre hpost hpadded,
          List.forall_mem_cons.2 ⟨⟨hnil, hwhole, htight⟩, hitems⟩⟩

theorem listItems_of_lists {text : String} {items : List String} (h : Lists text items)
    (hitems : ∀ x ∈ items, IsItem x) : listItems text = items := by
  obtain ⟨fields, hpadded, htext⟩ := h
  rw [listItems, htext]
  by_cases hne : fields = []
  · subst hne
    cases hpadded
    rfl
  · rw [Text.fields_intercalate hne (hpadded.notMem hitems)]
    exact hpadded.trimmed hitems

theorem listItems_eq_iff {text : String} {items : List String} :
    listItems text = items ↔ Lists text items ∧ ∀ x ∈ items, IsItem x := by
  constructor
  · rintro rfl
    obtain ⟨items, hpadded, hitems⟩ :=
      exists_padded fun w (hw : w ∈ Text.fields ',' text.toList) => Text.notMem_of_mem_fields hw
    have hlists : Lists text items := ⟨_, hpadded, (Text.intercalate_fields ',' text.toList).symm⟩
    rw [listItems_of_lists hlists hitems]
    exact ⟨hlists, hitems⟩
  · rintro ⟨h, hitems⟩
    exact listItems_of_lists h hitems

/-! ## Items and things -/

variable {s : Sheet} {text x : String} {e : EditError} {id : NodeId} {cited : List NodeId}

def Names (s : Sheet) (x : String) (id : NodeId) : Prop :=
  ∃ a, Address.parse? x = some a ∧ ∃ e ∈ s.entities, e.number = some a ∧ e.id = id

/-- Why a text is the address of nothing on the sheet. -/
inductive Misses (s : Sheet) (x : String) : EditError → Prop
  | malformed : Address.parse? x = none → Misses s x (.invalidAddress x)
  | unknown {a : Address} : Address.parse? x = some a → (∀ e ∈ s.entities, e.number ≠ some a) →
      Misses s x (.unknownAddress a)

theorem Numbered.resolveText_eq_ok (h : s.Numbered) : s.resolveText x = .ok id ↔ s.Names x id := by
  rw [resolveText, Names]
  cases Address.parse? x with
  | none => simp
  | some a =>
      constructor
      · intro hok
        cases ha : s.resolve? a with
        | none => simp [ha] at hok
        | some target =>
            simp only [ha] at hok
            cases hok
            exact ⟨a, rfl, exists_of_resolve? ha⟩
      · rintro ⟨a', hsame, f, hf, hnumber, rfl⟩
        cases hsame
        simp only [h.resolve? hf hnumber]

theorem misses_of_resolveText (h : s.resolveText x = .error e) : s.Misses x e := by
  rw [resolveText] at h
  cases hparse : Address.parse? x with
  | none =>
      rw [hparse] at h
      cases h
      exact .malformed hparse
  | some a =>
      simp only [hparse] at h
      cases hresolve : s.resolve? a with
      | some target => simp [hresolve] at h
      | none =>
          simp only [hresolve] at h
          cases h
          refine .unknown hparse fun f hf hnumber => ?_
          rw [resolve?, Option.map_eq_none_iff, List.find?_eq_none] at hresolve
          exact hresolve f hf (beq_iff_eq.2 hnumber)

end Sheet

theorem Address.isItem_print {a : Address} (h : a.path ≠ []) : IsItem a.print := by
  have hlist : a.print.toList = a.text := String.toList_ofList
  refine ⟨?_, ?_, ?_⟩
  · rw [hlist]
    exact mt text_eq_nil_iff.1 h
  · rw [hlist]
    intro hin
    rcases Text.mem_intercalate hin with hdot | ⟨w, hw, hc⟩
    · cases hdot
    · obtain ⟨n, -, rfl⟩ := List.mem_map.1 hw
      exact notMem_decimal rfl n hc
  · rw [hlist]
    exact Text.tight_of_solid isBlank_text

namespace Sheet

variable {s : Sheet} {st : Statement} {text : String} {cited : List NodeId}

/-- The things with some node ids have addresses, and these name them. -/
theorem Invariant.exists_addresses (h : s.Invariant) (hsize : s.entities.length ≤ Address.maxPosition) :
    ∀ {cited : List NodeId}, (∀ target ∈ cited, target ∈ s.entities.map Entity.id) →
      ∃ as : List Address, cited.map s.numberOf? = as.map some ∧
        (∀ x ∈ as.map Address.print, IsItem x) ∧ List.Forall₂ s.Names (as.map Address.print) cited
  | [], _ => ⟨[], rfl, by simp, .nil⟩
  | target :: cited, hthere => by
      obtain ⟨htarget, hcited⟩ := List.forall_mem_cons.1 hthere
      obtain ⟨as, has, hitems, hnames⟩ := exists_addresses h hsize hcited
      obtain ⟨f, hf, rfl⟩ := List.mem_map.1 htarget
      obtain ⟨a, ha⟩ := Option.ne_none_iff_exists'.1 (Numbered.ne_none h.numbered hf)
      have htypable := Numbered.typable h.numbered hsize hf ha
      have hnumber : s.numberOf? f.id = some a := by
        rw [numberOf?, find?_of_mem h.distinct hf]
        exact ha
      refine ⟨a :: as, ?_, ?_, ?_⟩
      · rw [List.map_cons, List.map_cons, hnumber, has]
      · rw [List.map_cons, List.forall_mem_cons]
        exact ⟨Address.isItem_print htypable.1, hitems⟩
      · exact .cons ⟨a, Address.parse?_print htypable, f, hf, ha, rfl⟩ hnames

/-! ## What a typed list records -/

theorem setCitations_statement (h : s.lineIds.Nodup) (hst : .statement st ∈ s.lines)
    (hcited : (listItems text).mapM s.resolveText = .ok cited) :
    s.setCitations st.id text = .ok (s.reviseAt st.id (.citations cited)) := by
  have hl : s.line? st.id = some (.statement st) := (line?_eq_some_iff h).2 ⟨hst, rfl⟩
  rw [setCitations, hcited, bind_ok, lineAt, hl, bind_ok,
    ← setLine_eq_reviseAt (.citations cited) h hl]
  rfl

/-- What citing by a typed list of items comes to.  The first item that is no address of anything is told,
whatever line is meant to cite; if there is none, a line among the steps cites what the items name, in
their order. -/
inductive Cites (s : Sheet) (text : String) (items : List String) : Prop
  | refused {before after : List String} {x : String} {e : EditError} :
      items = before ++ x :: after → (∀ y ∈ before, ∃ target, s.Names y target) → s.Misses x e →
      (∀ id, s.setCitations id text = .error e) → Cites s text items
  | recorded {cited : List NodeId} : List.Forall₂ s.Names items cited →
      (∀ st, .statement st ∈ s.lines →
        s.setCitations st.id text = .ok (s.reviseAt st.id (.citations cited))) → Cites s text items

theorem Invariant.cites (h : s.Invariant) (text : String) : s.Cites text (listItems text) := by
  cases hm : (listItems text).mapM s.resolveText with
  | error e =>
      obtain ⟨before, x, after, hitems, hbefore, hx⟩ := mapM_eq_error.1 hm
      refine .refused hitems ?_ (misses_of_resolveText hx) ?_
      · intro y hy
        obtain ⟨target, hok⟩ := hbefore y hy
        exact ⟨target, (Numbered.resolveText_eq_ok h.numbered).1 hok⟩
      · intro id
        rw [setCitations, hm, bind_error]
  | ok cited =>
      have hnames : List.Forall₂ s.Names (listItems text) cited :=
        (mapM_eq_ok.1 hm).imp fun x target => (Numbered.resolveText_eq_ok h.numbered).1
      exact .recorded hnames fun st hst => setCitations_statement (nodup_lineIds h.distinct) hst hm

/-- On a sheet that edits lead to, the current addresses of some things, typed in any order and number and
with any blanks, record these things and change nothing else; so a line that is told again what it
cites stays as it is.  Every text is one list of items, and the first of them that is no address of
anything refuses the edit. -/
theorem citing_records_things_meant (h : s.Reachable) :
    (s.entities.length ≤ Address.maxPosition → ∀ st, .statement st ∈ s.lines →
      ∀ cited : List NodeId, (∀ target ∈ cited, target ∈ s.entities.map Entity.id) →
        ∃ as : List Address, cited.map s.numberOf? = as.map some ∧
          ∀ text, Lists text (as.map Address.print) →
            s.setCitations st.id text = .ok (s.reviseAt st.id (.citations cited)) ∧
              (cited = st.citations → s.setCitations st.id text = .ok s)) ∧
    (∀ text, ∃! items, Lists text items ∧ ∀ x ∈ items, IsItem x) ∧
    (∀ text items, Lists text items → (∀ x ∈ items, IsItem x) → s.Cites text items) := by
  have hinv := h.invariant
  have hdistinct := nodup_lineIds hinv.distinct
  refine ⟨?_, ?_, ?_⟩
  · intro hsize st hst cited hthere
    obtain ⟨as, has, hitems, hnames⟩ := hinv.exists_addresses hsize hthere
    refine ⟨as, has, fun text htext => ?_⟩
    have hcited : (listItems text).mapM s.resolveText = .ok cited := by
      rw [listItems_of_lists htext hitems]
      exact mapM_eq_ok.2 (hnames.imp fun x target => (Numbered.resolveText_eq_ok hinv.numbered).2)
    have hset := setCitations_statement hdistinct hst hcited
    refine ⟨hset, ?_⟩
    rintro rfl
    have hl : s.line? st.id = some (.statement st) := (line?_eq_some_iff hdistinct).2 ⟨hst, rfl⟩
    have hsame : s.reviseAt st.id (.citations st.citations) = s := reviseAt_of_revise_eq hdistinct hl rfl
    rwa [hsame] at hset
  · intro text
    exact ⟨listItems text, listItems_eq_iff.1 rfl, fun items hitems => (listItems_eq_iff.2 hitems).symm⟩
  · intro text items htext hitems
    rw [← listItems_of_lists htext hitems]
    exact hinv.cites text

/-- The theorem for the line in a subproof: it is told to cite the assumption, the premise, the premise again
and the subproof, with a blank item in between.  Of another list the second item is no address. -/
theorem two_scopes_cited : ∃ s st, s = Command.runAll {} twoScopes ∧ s.Reachable ∧
    s.entities.length ≤ Address.maxPosition ∧ Line.statement st ∈ s.lines ∧ st.id = ⟨3⟩ ∧
    Lists " 2.1 ,, 1,1,\t2" ["2.1", "1", "1", "2"] ∧
    s.setCitations ⟨3⟩ " 2.1 ,, 1,1,\t2" = .ok (s.reviseAt ⟨3⟩ (.citations [⟨2⟩, ⟨0⟩, ⟨0⟩, ⟨1⟩])) ∧
    Lists "1, 2.x" ["1", "2.x"] ∧ s.Cites "1, 2.x" ["1", "2.x"] ∧
    s.setCitations ⟨3⟩ "1, 2.x" = .error (.invalidAddress "2.x") := by
  have hreachable : (Command.runAll {} twoScopes).Reachable := ⟨twoScopes, rfl⟩
  have hst : Line.statement { Statement.blank ⟨3⟩ with number := some ⟨[2, 2]⟩ } ∈
      (Command.runAll {} twoScopes).lines := by decide +kernel
  have hsize : (Command.runAll {} twoScopes).entities.length ≤ Address.maxPosition := by decide +kernel
  have hthere : ∀ target ∈ [⟨2⟩, ⟨0⟩, ⟨0⟩, ⟨1⟩],
      target ∈ (Command.runAll {} twoScopes).entities.map Entity.id := by decide +kernel
  have hnumbers : [⟨2⟩, ⟨0⟩, ⟨0⟩, ⟨1⟩].map (Command.runAll {} twoScopes).numberOf? =
      [(⟨[2, 1]⟩ : Address), ⟨[1]⟩, ⟨[1]⟩, ⟨[2]⟩].map some := by decide +kernel
  have hnone : Text.Blanks [] := nofun
  have hspace : Text.Blanks [' '] := List.forall_mem_singleton.2 rfl
  have htab : Text.Blanks ['\t'] := List.forall_mem_singleton.2 rfl
  have htext : Lists " 2.1 ,, 1,1,\t2" ["2.1", "1", "1", "2"] :=
    ⟨[[' '] ++ "2.1".toList ++ [' '], [], [' '] ++ "1".toList ++ [], [] ++ "1".toList ++ [],
        ['\t'] ++ "2".toList ++ []],
      .item "2.1" hspace hspace <| .blank hnone <| .item "1" hspace hnone <| .item "1" hnone hnone <|
        .item "2" htab hnone .nil, by decide +kernel⟩
  have hother : Lists "1, 2.x" ["1", "2.x"] ∧ ∀ x ∈ ["1", "2.x"], IsItem x :=
    listItems_eq_iff.1 (by decide +kernel)
  obtain ⟨hcite, -, hall⟩ := citing_records_things_meant hreachable
  obtain ⟨as, has, hrecord⟩ := hcite hsize _ hst _ hthere
  have hprint : as.map Address.print = ["2.1", "1", "1", "2"] := by
    rw [List.map_injective_iff.2 (Option.some_injective _) (has.symm.trans hnumbers)]
    decide +kernel
  exact ⟨_, _, rfl, hreachable, hsize, hst, rfl, htext, (hrecord _ (hprint ▸ htext)).1, hother.1,
    hall _ _ hother.1 hother.2, by decide +kernel⟩

end Sheet

end ProofSheet
