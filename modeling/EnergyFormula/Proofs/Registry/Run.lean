import EnergyFormula.Registry.Basic
import Mathlib.Data.List.Perm.Basic

/-!
# Runs of a registry

A run makes several submissions one after another (`Registry.run`).  What one submission can come to
is said once, in `Registry.answer_cases`; `Registry.run_induction` leads from one submission to runs.
From any registry on, a run adds the entries of the calls that are accepted for the first time to
the histories, and their receipts to the receipts (`Registry.grows_run`).
-/

namespace EnergyFormula

/-- What is submitted, and when it is accepted if it is. -/
structure Submission where
  envelope : Envelope
  document : LocationDocument
  now : Instant

/-- The formula of one constant as a document. -/
def FormulaDocument.one : FormulaDocument :=
  ⟨none, none, none, none, none, some ⟨none, some (.string "1"), none, none⟩⟩

/-- A location with one formula for a whole year. -/
def LocationDocument.year : LocationDocument where
  marketId := some "57685676748"
  networkId := none
  slices := some [⟨some 1, some "valid", some "2024-01-01T00:00:00Z", some "2025-01-01T00:00:00Z",
    some .one⟩]

/-- The submission of this location under an id, which may retry another one. -/
def Submission.ofYear (id : String) (initial : Option String) : Submission :=
  ⟨⟨id, "2024-01-01T00:00:00Z", initial⟩, .year, ⟨0, 0⟩⟩

/-- What is to be stored of a submission: nothing if the envelope or the document has a fault. -/
def Submission.stored? (s : Submission) (maxDepth : Nat) : Option StoredFormula :=
  match s.envelope.check, (s.document.validate maxDepth).location with
  | .ok stamp, some location => some ⟨location, stamp.id, stamp.createdAt, s.now⟩
  | _, _ => none

theorem Submission.stored?_eq_some_iff {s : Submission} {maxDepth : Nat} {entry : StoredFormula} :
    s.stored? maxDepth = some entry ↔
      ∃ stamp, s.envelope.check = .ok stamp ∧
        (s.document.validate maxDepth).location = some entry.location ∧
          entry.transactionId = stamp.id ∧ entry.createdAt = stamp.createdAt ∧
            entry.acceptedAt = s.now := by
  obtain ⟨location, id, createdAt, acceptedAt⟩ := entry
  unfold Submission.stored?
  cases s.envelope.check with
  | error faults => simp
  | ok stamp =>
    cases (s.document.validate maxDepth).location with
    | none => simp
    | some found => simp [eq_comm]

/-- The validation of a submission finds a fault, or leads to what is to be stored. -/
theorem Submission.assess_cases (s : Submission) (maxDepth : Nat) :
    (∃ report, s.envelope.assess s.document maxDepth = .rejected (.rejected s.envelope report) ∧
      s.stored? maxDepth = none) ∨
    ∃ stamp location report,
      s.envelope.assess s.document maxDepth = .accepted stamp location report ∧
        s.stored? maxDepth = some ⟨location, stamp.id, stamp.createdAt, s.now⟩ := by
  unfold Envelope.assess Submission.stored?
  cases s.envelope.check with
  | error faults => exact .inl ⟨_, rfl, rfl⟩
  | ok stamp =>
    dsimp only
    cases (s.document.validate maxDepth).location with
    | none => exact .inl ⟨_, rfl, rfl⟩
    | some location => exact .inr ⟨stamp, location, _, rfl, rfl⟩

/-- The receipt of a submission that was accepted and is not answered again. -/
def Receipt.isNew (p : Receipt) : Bool :=
  p.status = .accepted && !p.replayed

/-- A submission and the receipt that it was answered with. -/
structure Call where
  submission : Submission
  receipt : Receipt

namespace Call

/-- The id of the transaction as it was written. -/
def text (c : Call) : String :=
  c.submission.envelope.transactionId

/-- The calls whose submissions were accepted, each submission at its first call. -/
def accepted (calls : List Call) : List Call :=
  calls.filter fun c => c.receipt.isNew

/-- What accepted calls have to be stored, in the order of the calls. -/
def log (maxDepth : Nat) (calls : List Call) : List StoredFormula :=
  (accepted calls).filterMap fun c => c.submission.stored? maxDepth

section Append

variable {maxDepth : Nat} {calls : List Call} {c : Call}

theorem accepted_append_of_isNew (h : c.receipt.isNew = true) :
    accepted (calls ++ [c]) = accepted calls ++ [c] := by
  have hc : [c].filter (fun c => c.receipt.isNew) = [c] := List.filter_cons_of_pos h
  rw [accepted, List.filter_append, hc, accepted]

theorem accepted_append_of_not_isNew (h : c.receipt.isNew = false) :
    accepted (calls ++ [c]) = accepted calls := by
  have hc : [c].filter (fun c => c.receipt.isNew) = [] :=
    List.filter_cons_of_neg (Bool.not_eq_true _ ▸ h)
  rw [accepted, List.filter_append, hc, List.append_nil, accepted]

theorem log_append_of_isNew {entry : StoredFormula} (h : c.receipt.isNew = true)
    (hentry : c.submission.stored? maxDepth = some entry) :
    log maxDepth (calls ++ [c]) = log maxDepth calls ++ [entry] := by
  have hc : [c].filterMap (fun c => c.submission.stored? maxDepth) = [entry] :=
    List.filterMap_cons_some hentry
  rw [log, accepted_append_of_isNew h, List.filterMap_append, hc, log]

theorem log_append_of_not_isNew (h : c.receipt.isNew = false) :
    log maxDepth (calls ++ [c]) = log maxDepth calls := by
  rw [log, accepted_append_of_not_isNew h, log]

end Append

end Call

/-- A value added to the row of a key is one more value of the rows. -/
theorem Table.perm_flatMap_setEntry {κ α : Type} [DecidableEq κ] (key : κ) (x : α)
    (entries : List (κ × List α)) :
    ((setEntry key ((entries.lookup key).getD [] ++ [x]) entries).flatMap Prod.snd).Perm
      (entries.flatMap Prod.snd ++ [x]) := by
  induction entries with
  | nil => exact List.Perm.refl _
  | cons e rest ih =>
    unfold setEntry
    split
    · rename_i hkey
      have hrow : ((e :: rest).lookup key).getD [] = e.2 := by
        rw [← hkey, List.lookup_cons_self]
        rfl
      rw [hrow, List.flatMap_cons, List.flatMap_cons, List.append_assoc, List.append_assoc]
      exact List.perm_append_comm.append_left e.2
    · rename_i hkey
      rw [lookup_cons_of_ne (Ne.symm hkey), List.flatMap_cons, List.flatMap_cons,
        List.append_assoc]
      exact ih.append_left e.2

namespace Registry

/-- The answer to a submission. -/
def answer (r : Registry) (maxDepth : Nat) (s : Submission) : Registry × Receipt :=
  r.submit maxDepth s.now s.envelope s.document

/-- Answers submissions one after another: the registry in the end, and the receipts. -/
def run (maxDepth : Nat) (r : Registry) : List Submission → Registry × List Receipt
  | [] => (r, [])
  | s :: rest =>
    let (r, receipt) := r.answer maxDepth s
    let (r, receipts) := run maxDepth r rest
    (r, receipt :: receipts)

/-- The submissions of a run with the receipts that they are answered with. -/
def calls (maxDepth : Nat) (r : Registry) (submissions : List Submission) : List Call :=
  List.zipWith Call.mk submissions (run maxDepth r submissions).2

/-- What holds before a run, and with each submission is kept, holds after the run. -/
theorem run_induction {maxDepth : Nat} {Inv : List Call → Registry → Prop} {r : Registry}
    (hstart : Inv [] r)
    (hstep : ∀ calls r s, Inv calls r →
      Inv (calls ++ [⟨s, (answer r maxDepth s).2⟩]) (answer r maxDepth s).1)
    (submissions : List Submission) :
    Inv (calls maxDepth r submissions) (run maxDepth r submissions).1 := by
  -- the calls that have been made already stay in front
  have hfrom : ∀ (submissions : List Submission) (made : List Call) (r : Registry), Inv made r →
      Inv (made ++ calls maxDepth r submissions) (run maxDepth r submissions).1 := by
    intro submissions
    induction submissions with
    | nil =>
      intro made r h
      rw [calls, List.zipWith_nil_left, List.append_nil]
      exact h
    | cons s rest ih =>
      intro made r h
      have hrest := ih _ _ (hstep made r s h)
      rw [List.append_assoc] at hrest
      exact hrest
  exact hfrom submissions [] r hstart

section Steps

variable {r r₀ : Registry} {maxDepth : Nat} {s : Submission} {e : Envelope} {receipt : Receipt}

theorem cached?_eq_some_iff :
    r.cached? e = some receipt ↔
      (∃ id, e.initialTransactionId = some id ∧ r.receipts.find? id = some receipt) ∨
        (∀ id, e.initialTransactionId = some id → r.receipts.find? id = none) ∧
          r.receipts.find? e.transactionId = some receipt := by
  unfold cached?
  cases hinitial : e.initialTransactionId with
  | none => simp
  | some id =>
    cases hfound : r.receipts.find? id with
    | none => simp [hfound]
    | some p => simp [hfound]

theorem cached?_eq_none_iff :
    r.cached? e = none ↔
      (∀ id, e.initialTransactionId = some id → r.receipts.find? id = none) ∧
        r.receipts.find? e.transactionId = none := by
  unfold cached?
  cases hinitial : e.initialTransactionId with
  | none => simp
  | some id => simp

theorem answer_of_cached (h : r.cached? s.envelope = some receipt) :
    r.answer maxDepth s = (r, { receipt with replayed := true }) :=
  submit_of_cached h maxDepth s.now s.document

theorem answer_of_rejected (hcached : r.cached? s.envelope = none)
    (h : s.envelope.assess s.document maxDepth = .rejected receipt) :
    r.answer maxDepth s = (r, receipt) := by
  rw [answer, submit, hcached, h]
  rfl

/-- What passes the validation is answered at the second look. -/
theorem answer_of_accepted {stamp : TransactionStamp} {location : FormulaLocation}
    {report : SubmissionReport}
    (h : s.envelope.assess s.document maxDepth = .accepted stamp location report) :
    r.answer maxDepth s = r.commit s.envelope s.now (.accepted stamp location report) := by
  rw [answer, submit, h, commit]
  cases r.cached? s.envelope with
  | none => rfl
  | some receipt => rfl

/-- A submission is answered as before, or has a fault, or is stored. -/
theorem answer_cases (r : Registry) (maxDepth : Nat) (s : Submission) :
    (∃ receipt, r.cached? s.envelope = some receipt ∧
      r.answer maxDepth s = (r, { receipt with replayed := true })) ∨
    (∃ report, r.cached? s.envelope = none ∧ s.stored? maxDepth = none ∧
      r.answer maxDepth s = (r, .rejected s.envelope report)) ∨
    ∃ entry report, r.cached? s.envelope = none ∧ s.stored? maxDepth = some entry ∧
      r.answer maxDepth s =
        (r.store entry s.envelope.transactionId (acceptance s.envelope report s.now),
          acceptance s.envelope report s.now) := by
  cases hcached : r.cached? s.envelope with
  | some receipt => exact .inl ⟨receipt, rfl, answer_of_cached hcached⟩
  | none =>
    rcases s.assess_cases maxDepth with ⟨report, hassess, hstored⟩ |
      ⟨stamp, location, report, hassess, hstored⟩
    · exact .inr (.inl ⟨report, rfl, hstored, answer_of_rejected hcached hassess⟩)
    · refine .inr (.inr ⟨_, report, rfl, hstored, ?_⟩)
      rw [answer_of_accepted hassess, commit, hcached]

/-! ### What runs add -/

/-- Every stored formula, location by location. -/
def formulas (r : Registry) : List StoredFormula :=
  r.histories.entries.flatMap Prod.snd

theorem perm_formulas_store (r : Registry) (entry : StoredFormula) (text : String)
    (receipt : Receipt) : (r.store entry text receipt).formulas.Perm (r.formulas ++ [entry]) :=
  Table.perm_flatMap_setEntry _ _ _

open Call in
/-- What a registry has become after some calls. -/
structure Grows (maxDepth : Nat) (r₀ : Registry) (calls : List Call) (r : Registry) : Prop where
  /-- What is accepted can be stored. -/
  entry : ∀ c ∈ accepted calls, ∃ entry, c.submission.stored? maxDepth = some entry
  history : ∀ id, r.history id =
    r₀.history id ++ (log maxDepth calls).filter fun entry => entry.location.location = id
  formulas : r.formulas.Perm (r₀.formulas ++ log maxDepth calls)
  receipt : ∀ text p, r.receipts.find? text = some p ↔
    r₀.receipts.find? text = some p ∨ ∃ c ∈ accepted calls, c.text = text ∧ c.receipt = p
  /-- No id is accepted twice in one spelling. -/
  texts : (accepted calls).Pairwise fun c c' => c.text ≠ c'.text

/-- A call that is not accepted for the first time adds nothing. -/
theorem Grows.append_of_not_isNew {calls : List Call} {c : Call} (h : Grows maxDepth r₀ calls r)
    (hc : c.receipt.isNew = false) : Grows maxDepth r₀ (calls ++ [c]) r := by
  have haccepted : Call.accepted (calls ++ [c]) = Call.accepted calls :=
    Call.accepted_append_of_not_isNew hc
  refine ⟨?_, ?_, ?_, ?_, ?_⟩
  · rw [haccepted]
    exact h.entry
  · rw [Call.log_append_of_not_isNew hc]
    exact h.history
  · rw [Call.log_append_of_not_isNew hc]
    exact h.formulas
  · rw [haccepted]
    exact h.receipt
  · rw [haccepted]
    exact h.texts

/-- An id without a receipt has not been accepted in that spelling. -/
theorem Grows.text_ne {calls : List Call} {text : String} (h : Grows maxDepth r₀ calls r)
    (hnone : r.receipts.find? text = none) : ∀ c ∈ Call.accepted calls, c.text ≠ text := by
  intro c hc htext
  have hfound := (h.receipt text c.receipt).2 (.inr ⟨c, hc, htext, rfl⟩)
  rw [hnone] at hfound
  cases hfound

/-- The receipts behind an accepted call are those before it and its own. -/
theorem Grows.receipt_store {calls : List Call} {entry : StoredFormula} {receipt : Receipt}
    (h : Grows maxDepth r₀ calls r) (hnone : r.receipts.find? s.envelope.transactionId = none)
    (text : String) (p : Receipt) :
    (r.store entry s.envelope.transactionId receipt).receipts.find? text = some p ↔
      r₀.receipts.find? text = some p ∨
        ∃ c ∈ Call.accepted calls ++ [⟨s, receipt⟩], c.text = text ∧ c.receipt = p := by
  have hfind : (r.store entry s.envelope.transactionId receipt).receipts.find? text =
      if text = s.envelope.transactionId then some receipt else r.receipts.find? text :=
    Table.find?_insert _ _ _ _
  have hadded : (∃ c ∈ Call.accepted calls ++ [⟨s, receipt⟩], c.text = text ∧ c.receipt = p) ↔
      (∃ c ∈ Call.accepted calls, c.text = text ∧ c.receipt = p) ∨
        s.envelope.transactionId = text ∧ receipt = p := by
    simp only [List.mem_append, List.mem_singleton, or_and_right, exists_or, exists_eq_left]
    rfl
  rw [hfind, hadded, ← or_assoc, ← h.receipt text p]
  by_cases htext : text = s.envelope.transactionId
  · rw [if_pos htext, htext, hnone]
    simp
  · rw [if_neg htext]
    simp [Ne.symm htext]

/-- A call that is accepted adds its entry and its receipt. -/
theorem Grows.append_of_store {calls : List Call} {entry : StoredFormula} {report : SubmissionReport}
    (h : Grows maxDepth r₀ calls r) (hcached : r.cached? s.envelope = none)
    (hentry : s.stored? maxDepth = some entry) :
    Grows maxDepth r₀ (calls ++ [⟨s, acceptance s.envelope report s.now⟩])
      (r.store entry s.envelope.transactionId (acceptance s.envelope report s.now)) := by
  generalize hreceipt : acceptance s.envelope report s.now = receipt
  have hnew : receipt.isNew = true := by
    rw [← hreceipt]
    rfl
  have haccepted : Call.accepted (calls ++ [⟨s, receipt⟩]) = Call.accepted calls ++ [⟨s, receipt⟩] :=
    Call.accepted_append_of_isNew hnew
  have hlog : Call.log maxDepth (calls ++ [⟨s, receipt⟩]) = Call.log maxDepth calls ++ [entry] :=
    Call.log_append_of_isNew hnew hentry
  have hnone : r.receipts.find? s.envelope.transactionId = none := (cached?_eq_none_iff.1 hcached).2
  refine ⟨?_, fun id => ?_, ?_, fun text p => ?_, ?_⟩
  · rw [haccepted]
    refine List.forall_mem_append.2 ⟨h.entry, List.forall_mem_singleton.2 ⟨entry, hentry⟩⟩
  · rw [history_store, hlog, List.filter_append, ← List.append_assoc, ← h.history]
    by_cases hid : id = entry.location.location
    · rw [if_pos hid, List.filter_eq_self.2 (by simp [hid])]
    · rw [if_neg hid, List.filter_eq_nil_iff.2 (by simp [Ne.symm hid]), List.append_nil]
  · rw [hlog, ← List.append_assoc]
    exact (perm_formulas_store r entry _ _).trans (h.formulas.append_right [entry])
  · rw [haccepted]
    exact h.receipt_store hnone text p
  · -- the id is new in this spelling
    rw [haccepted, List.pairwise_append]
    refine ⟨h.texts, List.pairwise_singleton _ _, fun c hc c' hc' => ?_⟩
    rw [List.mem_singleton.1 hc']
    exact h.text_ne hnone c hc

theorem Grows.refl (maxDepth : Nat) (r : Registry) : Grows maxDepth r [] r where
  entry := List.forall_mem_nil _
  history _ := (List.append_nil _).symm
  formulas := by
    rw [Call.log, Call.accepted, List.filter_nil, List.filterMap_nil, List.append_nil]
  receipt text p := by simp [Call.accepted]
  texts := List.Pairwise.nil

/-- One more call. -/
theorem Grows.append {calls : List Call} (h : Grows maxDepth r₀ calls r) (s : Submission) :
    Grows maxDepth r₀ (calls ++ [⟨s, (answer r maxDepth s).2⟩]) (answer r maxDepth s).1 := by
  rcases answer_cases r maxDepth s with ⟨receipt, -, hanswer⟩ | ⟨report, -, -, hanswer⟩ |
    ⟨entry, report, hcached, hentry, hanswer⟩
  · rw [hanswer]
    exact h.append_of_not_isNew (Bool.and_false _)
  · rw [hanswer]
    exact h.append_of_not_isNew rfl
  · rw [hanswer]
    exact h.append_of_store hcached hentry

/-- A run adds the entries and the receipts of the calls that are accepted. -/
theorem grows_run (maxDepth : Nat) (r : Registry) (submissions : List Submission) :
    Grows maxDepth r (calls maxDepth r submissions) (run maxDepth r submissions).1 :=
  run_induction (.refl maxDepth r) (fun _ _ s h => h.append s) submissions

end Steps

end Registry

end EnergyFormula
