import EnergyFormula.Proofs.Registry.Run
import Mathlib.Data.List.Perm.Basic
import Mathlib.Data.List.Pairwise

/-!
# Repeated submissions

Receipts are found by the text of a transaction id, while letter case does not count in what it
denotes.  A submission gets an earlier receipt again exactly if one of its ids is spelled like that
of an accepted submission; so it does whenever the id denotes the transaction of an accepted
submission, provided that both are spelled alike.  No two formulas are stored for one transaction
exactly if the ids of the accepted submissions are spelled alike (`Registry.replays_run`).
-/

namespace EnergyFormula

/-- Both texts denote one transaction. -/
def SameTransaction (a b : String) : Prop :=
  ∃ id, TransactionId.parse a = .ok id ∧ TransactionId.parse b = .ok id

theorem SameTransaction.symm {a b : String} (h : SameTransaction a b) : SameTransaction b a := by
  obtain ⟨id, ha, hb⟩ := h
  exact ⟨id, hb, ha⟩

namespace Envelope

/-- The envelope repeats the submission of a call: the transaction that it retries, or its own one
if no call has the one that it retries.  `alike` tells which texts stand for one transaction. -/
def Repeats (alike : String → String → Prop) (calls : List Call) (e : Envelope) (c : Call) : Prop :=
  c ∈ calls ∧
    ((∃ id, e.initialTransactionId = some id ∧ alike id c.text) ∨
      (∀ id, e.initialTransactionId = some id → ∀ c' ∈ calls, ¬ alike id c'.text) ∧
        alike e.transactionId c.text)

/-- Where an id of the envelope denotes the transaction of a call, it is spelled as in the call. -/
def SpelledAsIn (calls : List Call) (e : Envelope) : Prop :=
  ∀ text, (e.initialTransactionId = some text ∨ e.transactionId = text) →
    ∀ c ∈ calls, SameTransaction text c.text → text = c.text

end Envelope

/-- The id of the transaction of a submission that can be stored. -/
theorem Submission.parse_of_stored? {s : Submission} {maxDepth : Nat} {entry : StoredFormula}
    (h : s.stored? maxDepth = some entry) :
    TransactionId.parse s.envelope.transactionId = .ok entry.transactionId := by
  obtain ⟨stamp, hcheck, _, hid, _⟩ := Submission.stored?_eq_some_iff.1 h
  rw [hid]
  exact (Envelope.check_eq_ok_iff.1 hcheck).2.1

namespace Registry

variable {maxDepth : Nat} {r : Registry} {calls : List Call} {e : Envelope} {c : Call}

/-! ### Receipts by text -/

theorem receipt_iff (h : Grows maxDepth empty calls r) {text : String} {p : Receipt} :
    r.receipts.find? text = some p ↔ ∃ c ∈ Call.accepted calls, c.text = text ∧ c.receipt = p := by
  rw [h.receipt]
  exact or_iff_right nofun

theorem receipt_eq_none_iff (h : Grows maxDepth empty calls r) {text : String} :
    r.receipts.find? text = none ↔ ∀ c ∈ Call.accepted calls, text ≠ c.text := by
  rw [Option.eq_none_iff_forall_ne_some]
  constructor
  · rintro hnone c hc rfl
    exact hnone c.receipt ((receipt_iff h).2 ⟨c, hc, rfl, rfl⟩)
  · intro hne p hp
    obtain ⟨c, hc, htext, _⟩ := (receipt_iff h).1 hp
    exact hne c hc htext.symm

/-- A receipt is found exactly for an envelope that repeats a submission letter by letter. -/
theorem cached?_eq_some_iff_repeats (h : Grows maxDepth empty calls r) {p : Receipt} :
    r.cached? e = some p ↔ ∃ c, e.Repeats Eq (Call.accepted calls) c ∧ c.receipt = p := by
  rw [cached?_eq_some_iff]
  constructor
  · rintro (⟨id, hid, hp⟩ | ⟨hnone, hp⟩)
    · obtain ⟨c, hc, htext, hreceipt⟩ := (receipt_iff h).1 hp
      exact ⟨c, ⟨hc, .inl ⟨id, hid, htext.symm⟩⟩, hreceipt⟩
    · obtain ⟨c, hc, htext, hreceipt⟩ := (receipt_iff h).1 hp
      exact ⟨c, ⟨hc, .inr ⟨fun id hid => (receipt_eq_none_iff h).1 (hnone id hid), htext.symm⟩⟩,
        hreceipt⟩
  · rintro ⟨c, ⟨hc, ⟨id, hid, rfl⟩ | ⟨hnone, htext⟩⟩, rfl⟩
    · exact .inl ⟨c.text, hid, (receipt_iff h).2 ⟨c, hc, rfl, rfl⟩⟩
    · exact .inr ⟨fun id hid => (receipt_eq_none_iff h).2 (hnone id hid),
        (receipt_iff h).2 ⟨c, hc, htext.symm, rfl⟩⟩

/-- The id of an accepted submission denotes a transaction. -/
theorem sameTransaction_text (h : Grows maxDepth empty calls r) (hc : c ∈ Call.accepted calls) :
    SameTransaction c.text c.text := by
  obtain ⟨entry, hentry⟩ := h.entry c hc
  exact ⟨entry.transactionId, Submission.parse_of_stored? hentry, Submission.parse_of_stored? hentry⟩

/-- Where spelling agrees, a repeated transaction is a repeated text. -/
theorem repeats_eq_of_repeats (h : Grows maxDepth empty calls r)
    (hspelled : e.SpelledAsIn (Call.accepted calls))
    (hrepeats : e.Repeats SameTransaction (Call.accepted calls) c) :
    e.Repeats Eq (Call.accepted calls) c := by
  obtain ⟨hc, ⟨id, hid, hsame⟩ | ⟨hnone, hsame⟩⟩ := hrepeats
  · exact ⟨hc, .inl ⟨id, hid, hspelled id (.inl hid) c hc hsame⟩⟩
  · refine ⟨hc, .inr ⟨fun id hid c' hc' heq => hnone id hid c' hc' ?_,
      hspelled _ (.inr rfl) c hc hsame⟩⟩
    rw [heq]
    exact sameTransaction_text h hc'

/-! ### Transactions of stored formulas -/

/-- The stored formulas are of distinct transactions exactly if the accepted submissions are. -/
theorem nodup_formulas_iff_pairwise (h : Grows maxDepth empty calls r) :
    (r.formulas.map StoredFormula.transactionId).Nodup ↔
      (Call.accepted calls).Pairwise fun c c' => ¬ SameTransaction c.text c'.text := by
  have hlog : (r.formulas.map StoredFormula.transactionId).Nodup ↔
      (Call.log maxDepth calls).Pairwise fun a b => a.transactionId ≠ b.transactionId := by
    rw [(h.formulas.map _).nodup_iff, List.Nodup, List.pairwise_map]
    exact Iff.rfl
  rw [hlog, Call.log, List.pairwise_filterMap]
  refine List.Pairwise.iff_of_mem fun {c c'} hc hc' => ?_
  obtain ⟨entry, hentry⟩ := h.entry c hc
  obtain ⟨entry', hentry'⟩ := h.entry c' hc'
  have hparse := Submission.parse_of_stored? hentry
  have hparse' := Submission.parse_of_stored? hentry'
  constructor
  · rintro hne ⟨id, hid, hid'⟩
    obtain rfl := Except.ok.inj (hparse.symm.trans hid)
    obtain heq := Except.ok.inj (hid'.symm.trans hparse')
    exact hne entry hentry entry' hentry' heq
  · intro hne a ha b hb heq
    obtain rfl := Option.some.inj (hentry.symm.trans ha)
    obtain rfl := Option.some.inj (hentry'.symm.trans hb)
    exact hne ⟨entry.transactionId, hparse, heq ▸ hparse'⟩

theorem nodup_formulas_iff (h : Grows maxDepth empty calls r) :
    (r.formulas.map StoredFormula.transactionId).Nodup ↔
      ∀ c ∈ Call.accepted calls, ∀ c' ∈ Call.accepted calls,
        SameTransaction c.text c'.text → c.text = c'.text := by
  rw [nodup_formulas_iff_pairwise h]
  constructor
  · intro hpairwise c hc c' hc'
    have hspelled : (Call.accepted calls).Pairwise fun c c' =>
        SameTransaction c.text c'.text → c.text = c'.text :=
      hpairwise.imp fun hne hsame => absurd hsame hne
    exact hspelled.forall_of_forall_of_flip (fun _ _ _ => rfl)
      (hspelled.imp fun h hsame => (h hsame.symm).symm) hc hc'
  · intro hspelled
    exact h.texts.imp_of_mem fun {c c'} hc hc' hne hsame => hne (hspelled c hc c' hc' hsame)

/-! ### Main result -/

/-- How submissions are answered after the given ones have been accepted. -/
structure Replays (maxDepth : Nat) (r : Registry) (accepted : List Call) : Prop where
  /-- A submission that repeats an accepted one letter by letter gets its receipt again, and nothing
  is stored. -/
  again : ∀ s c, s.envelope.Repeats Eq accepted c →
    r.answer maxDepth s = (r, { c.receipt with replayed := true })
  /-- Any other submission is answered anew. -/
  anew : ∀ s, (∀ c, ¬ s.envelope.Repeats Eq accepted c) → (r.answer maxDepth s).2.replayed = false
  /-- The same for the transactions that the ids denote, where they are spelled alike. -/
  transaction : ∀ s c, s.envelope.Repeats SameTransaction accepted c →
    s.envelope.SpelledAsIn accepted →
      r.answer maxDepth s = (r, { c.receipt with replayed := true })
  /-- One formula is stored for a transaction exactly if its id is always spelled alike. -/
  distinct : (r.formulas.map StoredFormula.transactionId).Nodup ↔
    ∀ c ∈ accepted, ∀ c' ∈ accepted, SameTransaction c.text c'.text → c.text = c'.text

theorem Grows.replays (h : Grows maxDepth empty calls r) :
    Replays maxDepth r (Call.accepted calls) := by
  have hagain : ∀ s c, s.envelope.Repeats Eq (Call.accepted calls) c →
      r.answer maxDepth s = (r, { c.receipt with replayed := true }) := fun s c hc =>
    submit_of_cached ((cached?_eq_some_iff_repeats h).2 ⟨c, hc, rfl⟩) maxDepth s.now s.document
  refine ⟨hagain, fun s hnone => ?_, fun s c hc hspelled => ?_, nodup_formulas_iff h⟩
  · rcases answer_cases r maxDepth s with ⟨receipt, hcached, -⟩ | ⟨report, -, -, hanswer⟩ |
      ⟨entry, report, -, -, hanswer⟩
    · obtain ⟨c, hc, _⟩ := (cached?_eq_some_iff_repeats h).1 hcached
      exact absurd hc (hnone c)
    · rw [hanswer]
      rfl
    · rw [hanswer]
      rfl
  · exact hagain s c (repeats_eq_of_repeats h hspelled hc)

/-- After every run, submissions that repeat an accepted one letter by letter, and no others, are
answered with its receipt.  For repeated transactions this holds where their ids are spelled alike,
and the stored formulas are of distinct transactions exactly if the accepted submissions are. -/
theorem replays_run (maxDepth : Nat) (submissions : List Submission) :
    Replays maxDepth (run maxDepth empty submissions).1
      (Call.accepted (Registry.calls maxDepth empty submissions)) :=
  (grows_run maxDepth empty submissions).replays

/-- A submission under a new id that retries an accepted one gets its receipt. -/
theorem replays_run_retry :
    let first := Submission.ofYear "0000000a-7dec-11d0-a765-00a0c91e6bf6" none
    let retry := Submission.ofYear "0000000b-7dec-11d0-a765-00a0c91e6bf6"
      (some "0000000a-7dec-11d0-a765-00a0c91e6bf6")
    (empty.answer 32 first).2.isNew = true ∧
      (run 32 empty [first]).1.answer 32 retry =
        ((run 32 empty [first]).1, { (empty.answer 32 first).2 with replayed := true }) := by
  have hretry : ∀ first retry : Submission, (empty.answer 32 first).2.isNew = true →
      retry.envelope.initialTransactionId = some first.envelope.transactionId →
      TransactionId.parse retry.envelope.transactionId ≠
        TransactionId.parse first.envelope.transactionId →
      (run 32 empty [first]).1.answer 32 retry =
        ((run 32 empty [first]).1, { (empty.answer 32 first).2 with replayed := true }) := by
    intro first retry hnew hinitial hother
    have haccepted : Call.accepted (Registry.calls 32 empty [first]) =
        [⟨first, (empty.answer 32 first).2⟩] := List.filter_cons_of_pos hnew
    have hmem : ⟨first, (empty.answer 32 first).2⟩ ∈
        Call.accepted (Registry.calls 32 empty [first]) := by
      rw [haccepted]
      exact List.mem_singleton.2 rfl
    have hsame := sameTransaction_text (grows_run 32 empty [first]) hmem
    refine (replays_run 32 [first]).transaction retry _ ⟨hmem, .inl ⟨_, hinitial, hsame⟩⟩ ?_
    rintro text (htext | htext) c hc ⟨id, hid, hid'⟩
    · rw [haccepted, List.mem_singleton] at hc
      rw [hc]
      exact Option.some.inj (htext.symm.trans hinitial)
    · -- the id of the retry itself denotes another transaction
      rw [haccepted, List.mem_singleton] at hc
      rw [hc] at hid'
      rw [← htext] at hid
      exact absurd (hid.trans hid'.symm) hother
  have hnew : (empty.answer 32 (Submission.ofYear "0000000a-7dec-11d0-a765-00a0c91e6bf6"
      none)).2.isNew = true := by decide +kernel
  exact ⟨hnew, hretry _ _ hnew rfl (by decide +kernel)⟩

-- one transaction is stored twice if the case of its letters changes
example :
    let upper := Submission.ofYear "0000000A-7DEC-11D0-A765-00A0C91E6BF6" none
    let lower := Submission.ofYear "0000000a-7dec-11d0-a765-00a0c91e6bf6" none
    ¬ ((run 32 empty [upper, lower]).1.formulas.map StoredFormula.transactionId).Nodup := by
  decide +kernel

end Registry

end EnergyFormula
