import EnergyFormula.Proofs.Registry.Run
import Mathlib.Data.List.Nodup
import Mathlib.Logic.Function.Basic

/-!
# Concurrent submissions

Calls that submit at the same time take their steps in any order (`Race.step`): a look at the
receipts, the validation, and under the lock a second look and storing.  A call takes effect at one
of its own steps: a submission that is stored at the last one, a submission that is answered as
before where the receipt is found, and one that is rejected already where none is found
(`Race.takesEffect`).  In the order in which the calls take effect they can be made one after another
with the same outcome (`Race.linearizes`).  Without others a call comes to what the registry answers
(`Race.after_alone`).
-/

namespace EnergyFormula

namespace Registry

/-! ### One more submission -/

section Runs

variable {maxDepth : Nat} {r : Registry}

theorem run_append_singleton (submissions : List Submission) (s : Submission) :
    run maxDepth r (submissions ++ [s]) =
      (((run maxDepth r submissions).1.answer maxDepth s).1,
        (run maxDepth r submissions).2 ++ [((run maxDepth r submissions).1.answer maxDepth s).2]) := by
  induction submissions generalizing r with
  | nil => rfl
  | cons first rest ih =>
    rw [List.cons_append, run]
    dsimp only
    rw [ih]
    rfl

theorem length_run (submissions : List Submission) :
    (run maxDepth r submissions).2.length = submissions.length := by
  induction submissions generalizing r with
  | nil => rfl
  | cons first rest ih => exact congrArg (· + 1) ih

theorem isNew_of_assess_eq_rejected {s : Submission} {receipt : Receipt}
    (h : s.envelope.assess s.document maxDepth = .rejected receipt) : receipt.isNew = false := by
  rcases s.assess_cases maxDepth with ⟨report, hassess, _⟩ | ⟨stamp, location, report, hassess, _⟩
  · rw [h] at hassess
    obtain rfl := Assessment.rejected.inj hassess
    rfl
  · rw [h] at hassess
    cases hassess

end Runs

/-! ### Steps of concurrent calls -/

/-- How far a call has come. -/
inductive Phase where
  | waiting
  /-- No receipt was found. -/
  | missed
  | assessed (assessment : Assessment)
  | answered (receipt : Receipt)

/-- How many steps a call still takes at most. -/
def Phase.stepsLeft : Phase → Nat
  | .waiting => 3
  | .missed => 2
  | .assessed _ => 1
  | .answered _ => 0

theorem Phase.stepsLeft_eq_zero_iff {p : Phase} :
    p.stepsLeft = 0 ↔ ∃ receipt, p = .answered receipt := by
  cases p with
  | waiting => exact iff_of_false nofun nofun
  | missed => exact iff_of_false nofun nofun
  | assessed assessment => exact iff_of_false nofun nofun
  | answered receipt => exact iff_of_true rfl ⟨receipt, rfl⟩

/-- The registry between steps, and how far each call has come. -/
structure Race (ι : Type) where
  registry : Registry
  phase : ι → Phase

namespace Race

variable {ι : Type}

/-- No call has begun. -/
def start (r : Registry) : Race ι :=
  ⟨r, fun _ => .waiting⟩

section Schedules

variable [DecidableEq ι]

/-- The call has come to a phase. -/
def put (race : Race ι) (i : ι) (p : Phase) : Race ι :=
  { race with phase := Function.update race.phase i p }

theorem phase_put_self (race : Race ι) (i : ι) (p : Phase) : (race.put i p).phase i = p :=
  Function.update_self (β := fun _ => Phase) i p race.phase

theorem phase_put_of_ne {i j : ι} (h : j ≠ i) (race : Race ι) (p : Phase) :
    (race.put i p).phase j = race.phase j :=
  Function.update_of_ne (β := fun _ => Phase) h p race.phase

/-- The next step of a call. -/
def step (maxDepth : Nat) (submissions : ι → Submission) (race : Race ι) (i : ι) : Race ι :=
  let s := submissions i
  match race.phase i with
  | .waiting =>
    match race.registry.cached? s.envelope with
    | some receipt => race.put i (.answered { receipt with replayed := true })
    | none => race.put i .missed
  | .missed =>
    match s.envelope.assess s.document maxDepth with
    | .rejected receipt => race.put i (.answered receipt)
    | assessment => race.put i (.assessed assessment)
  | .assessed assessment =>
    let (registry, receipt) := race.registry.commit s.envelope s.now assessment
    { race.put i (.answered receipt) with registry }
  | .answered _ => race

/-- The steps of calls one after another, each named by its call. -/
def after (maxDepth : Nat) (submissions : ι → Submission) (race : Race ι) (schedule : List ι) :
    Race ι :=
  schedule.foldl (step maxDepth submissions) race

/-- The next step of a call is the one that decides its answer. -/
def takesEffect (maxDepth : Nat) (submissions : ι → Submission) (race : Race ι) (i : ι) : Bool :=
  let s := submissions i
  match race.phase i with
  | .waiting =>
    match race.registry.cached? s.envelope with
    | some _ => true
    | none =>
      match s.envelope.assess s.document maxDepth with
      | .rejected _ => true
      | .accepted .. => false
  | .missed => false
  | .assessed _ => true
  | .answered _ => false

/-- The calls in the order in which they take effect. -/
def order (maxDepth : Nat) (submissions : ι → Submission) (race : Race ι) : List ι → List ι
  | [] => []
  | i :: rest =>
    let later := order maxDepth submissions (race.step maxDepth submissions i) rest
    bif race.takesEffect maxDepth submissions i then i :: later else later

end Schedules

/-! ### What has taken effect -/

/-- The replies to calls that are made one after another. -/
def replies (maxDepth : Nat) (submissions : ι → Submission) (r : Registry) (order : List ι) :
    List (ι × Receipt) :=
  order.zip (run maxDepth r (order.map submissions)).2

/-- The phase of a call is right where the given calls have taken effect. -/
def PhaseFits (maxDepth : Nat) (submissions : ι → Submission) (r : Registry) (done : List ι)
    (i : ι) : Phase → Prop
  | .waiting => i ∉ done
  | .missed =>
    match (submissions i).envelope.assess (submissions i).document maxDepth with
    | .rejected receipt => (i, receipt) ∈ replies maxDepth submissions r done
    | .accepted .. => i ∉ done
  | .assessed assessment =>
    (submissions i).envelope.assess (submissions i).document maxDepth = assessment ∧
      (∀ receipt, assessment ≠ .rejected receipt) ∧ i ∉ done
  | .answered receipt => (i, receipt) ∈ replies maxDepth submissions r done

/-- The calls that have taken effect could have been made one after another. -/
structure Serial (maxDepth : Nat) (submissions : ι → Submission) (r : Registry) (race : Race ι)
    (done : List ι) : Prop where
  nodup : done.Nodup
  registry : race.registry = (run maxDepth r (done.map submissions)).1
  phase : ∀ i, PhaseFits maxDepth submissions r done i (race.phase i)
  /-- What is accepted is answered in the step that stores it. -/
  answered : ∀ i receipt, (i, receipt) ∈ replies maxDepth submissions r done →
    receipt.isNew = true → race.phase i = .answered receipt

theorem serial_start (maxDepth : Nat) (submissions : ι → Submission) (r : Registry) :
    Serial maxDepth submissions r (start r) [] where
  nodup := List.nodup_nil
  registry := rfl
  phase _ := List.not_mem_nil
  answered _ _ h := absurd h List.not_mem_nil

section Replies

variable {maxDepth : Nat} {submissions : ι → Submission} {r : Registry} {done : List ι} {i j : ι}
  {receipt : Receipt} {p : Phase} {race : Race ι}

theorem replies_append_singleton (done : List ι) (i : ι) :
    replies maxDepth submissions r (done ++ [i]) =
      replies maxDepth submissions r done ++
        [(i, ((run maxDepth r (done.map submissions)).1.answer maxDepth (submissions i)).2)] := by
  have hlength : done.length = (run maxDepth r (done.map submissions)).2.length := by
    rw [length_run, List.length_map]
  rw [replies, List.map_append, List.map_singleton, run_append_singleton, List.zip_append hlength]
  rfl

theorem calls_map_eq (done : List ι) :
    calls maxDepth r (done.map submissions) =
      (replies maxDepth submissions r done).map fun reply => ⟨submissions reply.1, reply.2⟩ := by
  rw [calls, List.zipWith_map_left, replies, ← List.map_uncurry_zip_eq_zipWith]
  rfl

theorem mem_of_mem_replies (h : (i, receipt) ∈ replies maxDepth submissions r done) : i ∈ done :=
  (List.of_mem_zip h).1

theorem mem_replies_append (h : (j, receipt) ∈ replies maxDepth submissions r done) (i : ι) :
    (j, receipt) ∈ replies maxDepth submissions r (done ++ [i]) := by
  rw [replies_append_singleton]
  exact List.mem_append_left _ h

/-- A call that takes effect leaves the others where they are. -/
theorem PhaseFits.append (h : PhaseFits maxDepth submissions r done j p) (hne : j ≠ i) :
    PhaseFits maxDepth submissions r (done ++ [i]) j p := by
  have hnot (hj : j ∉ done) : j ∉ done ++ [i] := by
    rw [List.mem_append, List.mem_singleton, not_or]
    exact ⟨hj, hne⟩
  cases p with
  | waiting => exact hnot h
  | missed =>
    simp only [PhaseFits] at h ⊢
    cases hassess : (submissions j).envelope.assess (submissions j).document maxDepth with
    | rejected receipt =>
      rw [hassess] at h
      exact mem_replies_append h i
    | accepted stamp location report =>
      rw [hassess] at h
      exact hnot h
  | assessed assessment => exact ⟨h.1, h.2.1, hnot h.2.2⟩
  | answered receipt => exact mem_replies_append h i

/-- The calls of a serial run that are accepted and not answered again. -/
theorem Serial.exists_stored (h : Serial maxDepth submissions r race done) :
    ∃ stored : List ι,
      (stored.map fun i => (submissions i).envelope.transactionId).Nodup ∧
      (∀ i, i ∈ stored ↔ ∃ receipt, receipt.isNew = true ∧ race.phase i = .answered receipt) ∧
      race.registry.formulas.Perm
        (r.formulas ++ stored.filterMap fun i => (submissions i).stored? maxDepth) := by
  have hgrows := grows_run maxDepth r (done.map submissions)
  -- the replies of the serial run that have stored something
  generalize hfresh :
    (replies maxDepth submissions r done).filter (fun reply => reply.2.isNew) = fresh
  have haccepted : Call.accepted (calls maxDepth r (done.map submissions)) =
      fresh.map fun reply => ⟨submissions reply.1, reply.2⟩ := by
    rw [Call.accepted, calls_map_eq, List.filter_map, ← hfresh]
    rfl
  refine ⟨fresh.map Prod.fst, ?_, fun i => ?_, ?_⟩
  · have htexts := hgrows.texts
    rw [haccepted, List.pairwise_map] at htexts
    rw [List.map_map, List.Nodup, List.pairwise_map]
    exact htexts
  · rw [List.mem_map]
    constructor
    · rintro ⟨⟨_, receipt⟩, hmem, rfl⟩
      rw [← hfresh, List.mem_filter] at hmem
      exact ⟨receipt, hmem.2, h.answered _ receipt hmem.1 hmem.2⟩
    · rintro ⟨receipt, hnew, hphase⟩
      have hmem := h.phase i
      rw [hphase] at hmem
      refine ⟨(i, receipt), ?_, rfl⟩
      rw [← hfresh, List.mem_filter]
      exact ⟨hmem, hnew⟩
  · have hformulas := hgrows.formulas
    rw [Call.log, haccepted, List.filterMap_map] at hformulas
    rw [h.registry, List.filterMap_map]
    exact hformulas

end Replies

/-! ### One step -/

section Steps

variable [DecidableEq ι] {maxDepth : Nat} {submissions : ι → Submission} {r : Registry} {race : Race ι}
  {done : List ι} {i : ι}

/-- A step without effect moves one call on. -/
theorem Serial.put {p : Phase} (h : Serial maxDepth submissions r race done)
    (hp : PhaseFits maxDepth submissions r done i p)
    (hopen : ∀ receipt, race.phase i ≠ .answered receipt) :
    Serial maxDepth submissions r (race.put i p) done where
  nodup := h.nodup
  registry := h.registry
  phase j := by
    by_cases hj : j = i
    · subst hj
      rw [phase_put_self]
      exact hp
    · rw [phase_put_of_ne hj]
      exact h.phase j
  answered j receipt hmem hnew := by
    have hj : j ≠ i := by
      rintro rfl
      exact hopen receipt (h.answered j receipt hmem hnew)
    rw [phase_put_of_ne hj]
    exact h.answered j receipt hmem hnew

/-- A step with effect changes the registry as one more call of the run. -/
theorem Serial.append {p : Phase} {registry : Registry} {receipt : Receipt}
    (h : Serial maxDepth submissions r race done) (hi : i ∉ done)
    (hanswer : race.registry.answer maxDepth (submissions i) = (registry, receipt))
    (hp : (i, receipt) ∈ replies maxDepth submissions r (done ++ [i]) →
      PhaseFits maxDepth submissions r (done ++ [i]) i p)
    (hnew : receipt.isNew = true → p = .answered receipt) :
    Serial maxDepth submissions r { race.put i p with registry } (done ++ [i]) := by
  have hreplies : replies maxDepth submissions r (done ++ [i]) =
      replies maxDepth submissions r done ++ [(i, receipt)] := by
    rw [replies_append_singleton, ← h.registry, hanswer]
  refine ⟨?_, ?_, fun j => ?_, fun j q hmem hq => ?_⟩
  · rw [← List.concat_eq_append]
    exact h.nodup.concat hi
  · rw [List.map_append, List.map_singleton, run_append_singleton, ← h.registry, hanswer]
  · by_cases hj : j = i
    · subst hj
      rw [phase_put_self]
      refine hp ?_
      rw [hreplies]
      exact List.mem_append_right _ (List.mem_singleton.2 rfl)
    · rw [phase_put_of_ne hj]
      exact (h.phase j).append hj
  · rw [hreplies] at hmem
    rcases List.mem_append.1 hmem with hdone | hmem
    · have hj : j ≠ i := fun hj => hi (hj ▸ mem_of_mem_replies hdone)
      rw [phase_put_of_ne hj]
      exact h.answered j q hdone hq
    · obtain ⟨rfl, rfl⟩ := Prod.mk.inj (List.mem_singleton.1 hmem)
      rw [phase_put_self]
      exact hnew hq

/-- One step, of any call. -/
theorem Serial.step (h : Serial maxDepth submissions r race done) (i : ι) :
    Serial maxDepth submissions r (race.step maxDepth submissions i)
      (bif race.takesEffect maxDepth submissions i then done ++ [i] else done) := by
  have hfits := h.phase i
  unfold Race.step takesEffect
  cases hphase : race.phase i with
  | waiting =>
    rw [hphase] at hfits
    dsimp only
    cases hcached : race.registry.cached? (submissions i).envelope with
    | some receipt =>
      -- the first look finds the receipt
      exact h.append hfits (answer_of_cached hcached) id fun _ => rfl
    | none =>
      cases hassess : (submissions i).envelope.assess (submissions i).document maxDepth with
      | rejected receipt =>
        refine h.append hfits (answer_of_rejected hcached hassess) (fun hmem => ?_) fun hnew => ?_
        · simp only [PhaseFits]
          rw [hassess]
          exact hmem
        · rw [isNew_of_assess_eq_rejected hassess] at hnew
          cases hnew
      | accepted stamp location report =>
        refine h.put ?_ fun receipt hanswered => ?_
        · simp only [PhaseFits]
          rw [hassess]
          exact hfits
        · rw [hphase] at hanswered
          cases hanswered
  | missed =>
    rw [hphase] at hfits
    have hopen : ∀ receipt, race.phase i ≠ .answered receipt := by
      rw [hphase]
      exact nofun
    simp only [PhaseFits] at hfits
    dsimp only
    cases hassess : (submissions i).envelope.assess (submissions i).document maxDepth with
    | rejected receipt =>
      rw [hassess] at hfits
      exact h.put hfits hopen
    | accepted stamp location report =>
      rw [hassess] at hfits
      exact h.put ⟨hassess, nofun, hfits⟩ hopen
  | assessed assessment =>
    rw [hphase] at hfits
    obtain ⟨hassess, haccepted, hi⟩ := hfits
    cases assessment with
    | rejected receipt => exact absurd rfl (haccepted receipt)
    | accepted stamp location report =>
      exact h.append hi (answer_of_accepted hassess) id fun _ => rfl
  | answered receipt => exact h

/-- The other calls are left as they are. -/
theorem phase_step_of_ne {j : ι} (h : j ≠ i) :
    (race.step maxDepth submissions i).phase j = race.phase j := by
  have hput : ∀ p, (race.put i p).phase j = race.phase j := phase_put_of_ne h race
  unfold Race.step
  dsimp only
  split
  · split <;> exact hput _
  · split <;> exact hput _
  · exact hput _
  · rfl

theorem stepsLeft_step (maxDepth : Nat) (submissions : ι → Submission) (race : Race ι) (i : ι) :
    ((race.step maxDepth submissions i).phase i).stepsLeft ≤ (race.phase i).stepsLeft - 1 := by
  have hput (p : Phase) {n : Nat} (hp : p.stepsLeft ≤ n) :
      ((race.put i p).phase i).stepsLeft ≤ n := by
    rw [phase_put_self]
    exact hp
  unfold Race.step
  dsimp only
  cases hphase : race.phase i with
  | waiting =>
    dsimp only
    split
    · exact hput _ (Nat.zero_le 2)
    · exact hput _ (Nat.le_refl 2)
  | missed =>
    dsimp only
    split
    · exact hput _ (Nat.zero_le 1)
    · exact hput _ (Nat.le_refl 1)
  | assessed assessment => exact hput _ (Nat.le_refl 0)
  | answered receipt =>
    rw [hphase]
    exact Nat.le_refl _

/-! ### Whole schedules -/

theorem Serial.after (h : Serial maxDepth submissions r race done) (schedule : List ι) :
    Serial maxDepth submissions r (race.after maxDepth submissions schedule)
      (done ++ race.order maxDepth submissions schedule) := by
  induction schedule generalizing race done with
  | nil =>
    rw [order, List.append_nil]
    exact h
  | cons i rest ih =>
    have hrest := ih (h.step i)
    rw [order]
    cases htakes : race.takesEffect maxDepth submissions i with
    | true =>
      rw [htakes, cond_true, List.append_assoc] at hrest
      exact hrest
    | false =>
      rw [htakes, cond_false] at hrest
      exact hrest

theorem mem_of_mem_order {schedule : List ι} (h : i ∈ race.order maxDepth submissions schedule) :
    i ∈ schedule := by
  induction schedule generalizing race with
  | nil => exact h
  | cons j rest ih =>
    rw [order] at h
    cases htakes : race.takesEffect maxDepth submissions j with
    | true =>
      rw [htakes, cond_true, List.mem_cons] at h
      exact List.mem_cons.2 (h.imp_right ih)
    | false =>
      rw [htakes, cond_false] at h
      exact List.mem_cons_of_mem j (ih h)

theorem order_append (race : Race ι) (before later : List ι) :
    race.order maxDepth submissions (before ++ later) =
      race.order maxDepth submissions before ++
        (race.after maxDepth submissions before).order maxDepth submissions later := by
  induction before generalizing race with
  | nil => rfl
  | cons i rest ih =>
    rw [List.cons_append, order, order, ih]
    cases race.takesEffect maxDepth submissions i with
    | true => rfl
    | false => rfl

theorem stepsLeft_after (maxDepth : Nat) (submissions : ι → Submission) (race : Race ι)
    (schedule : List ι) (i : ι) :
    ((race.after maxDepth submissions schedule).phase i).stepsLeft ≤
      (race.phase i).stepsLeft - schedule.count i := by
  induction schedule generalizing race with
  | nil => exact Nat.le_refl _
  | cons j rest ih =>
    have hrest := ih (race.step maxDepth submissions j)
    by_cases hj : j = i
    · subst hj
      have hstep := stepsLeft_step maxDepth submissions race j
      rw [List.count_cons_self]
      exact Nat.le_trans hrest (by omega)
    · rw [phase_step_of_ne (Ne.symm hj)] at hrest
      rw [List.count_cons_of_ne hj]
      exact hrest

/-- The steps of a call without others come to the answer to its submission. -/
theorem after_alone (maxDepth : Nat) (submissions : ι → Submission) (r : Registry) (i : ι) :
    ((start r).after maxDepth submissions [i, i, i]).registry =
        (r.answer maxDepth (submissions i)).1 ∧
      ((start r).after maxDepth submissions [i, i, i]).phase i =
        .answered (r.answer maxDepth (submissions i)).2 := by
  have hserial := (serial_start maxDepth submissions r).after [i, i, i]
  have hleft := stepsLeft_after maxDepth submissions (start r) [i, i, i] i
  rw [List.count_cons_self, List.count_cons_self, List.count_singleton_self] at hleft
  obtain ⟨receipt, hphase⟩ := Phase.stepsLeft_eq_zero_iff.1 (Nat.le_zero.1 hleft)
  rw [List.nil_append] at hserial
  have hreply := hserial.phase i
  rw [hphase] at hreply
  -- no other call has taken effect, and this one has only once
  have hall : ∀ j ∈ (start r).order maxDepth submissions [i, i, i], j = i := by
    intro j hj
    simpa using mem_of_mem_order hj
  have horder : (start r).order maxDepth submissions [i, i, i] = [i] := by
    have hreplicate := List.eq_replicate_of_mem hall
    have hnodup := hserial.nodup
    have hmem := List.length_pos_of_mem (mem_of_mem_replies hreply)
    rw [hreplicate, List.nodup_replicate] at hnodup
    rw [hreplicate, Nat.le_antisymm hnodup hmem, List.replicate_one]
  rw [horder] at hreply
  have hregistry := hserial.registry
  rw [horder] at hregistry
  obtain ⟨_, rfl⟩ := Prod.mk.inj (List.mem_singleton.1 hreply)
  exact ⟨hregistry, hphase⟩

/-! ### Main result -/

/-- A schedule of the steps of calls has the outcome of the calls one after another. -/
structure Linearizes (maxDepth : Nat) (submissions : ι → Submission) (r : Registry)
    (schedule order : List ι) : Prop where
  nodup : order.Nodup
  begun : ∀ i ∈ order, i ∈ schedule
  registry : ((start r).after maxDepth submissions schedule).registry =
    (run maxDepth r (order.map submissions)).1
  /-- Every call that is answered is in the order and gets the receipt that it gets there. -/
  receipt : ∀ i receipt,
    ((start r).after maxDepth submissions schedule).phase i = .answered receipt →
      (i, receipt) ∈ replies maxDepth submissions r order
  /-- A call is answered after three steps of its own. -/
  complete : ∀ i, 3 ≤ schedule.count i →
    ∃ receipt, ((start r).after maxDepth submissions schedule).phase i = .answered receipt
  /-- A call that is answered before another one begins comes before it. -/
  realTime : ∀ before later, schedule = before ++ later → ∀ i j receipt,
    ((start r).after maxDepth submissions before).phase i = .answered receipt →
      ((start r).after maxDepth submissions before).phase j = .waiting →
        j ∈ order → [i, j].Sublist order
  /-- The calls that are accepted and not answered again are those whose formulas are stored, and no
  two of them have the same id. -/
  stored : ∃ stored : List ι,
    (stored.map fun i => (submissions i).envelope.transactionId).Nodup ∧
    (∀ i, i ∈ stored ↔ ∃ receipt, receipt.isNew = true ∧
      ((start r).after maxDepth submissions schedule).phase i = .answered receipt) ∧
    ((start r).after maxDepth submissions schedule).registry.formulas.Perm
      (r.formulas ++ stored.filterMap fun i => (submissions i).stored? maxDepth)

/-- Whatever the schedule of the steps, the calls have the outcome that they have one after another,
in the order in which they take effect. -/
theorem linearizes (maxDepth : Nat) (submissions : ι → Submission) (r : Registry)
    (schedule : List ι) :
    Linearizes maxDepth submissions r schedule
      ((start r).order maxDepth submissions schedule) := by
  have hserial : ∀ schedule, Serial maxDepth submissions r
      ((start r).after maxDepth submissions schedule)
      ((start r).order maxDepth submissions schedule) := fun schedule =>
    (serial_start maxDepth submissions r).after schedule
  have hanswered : ∀ schedule i receipt,
      ((start r).after maxDepth submissions schedule).phase i = .answered receipt →
        (i, receipt) ∈ replies maxDepth submissions r
          ((start r).order maxDepth submissions schedule) := by
    intro schedule i receipt hphase
    have hfits := (hserial schedule).phase i
    rw [hphase] at hfits
    exact hfits
  refine ⟨(hserial schedule).nodup, fun i => mem_of_mem_order, (hserial schedule).registry,
    hanswered schedule, fun i hcount => ?_, ?_, (hserial schedule).exists_stored⟩
  · have hleft := stepsLeft_after maxDepth submissions (start r) schedule i
    have hstart : ((start r).phase i).stepsLeft = 3 := rfl
    exact Phase.stepsLeft_eq_zero_iff.1 (by omega)
  · rintro before later rfl i j receipt hi hj hmem
    have hbefore := mem_of_mem_replies (hanswered before i receipt hi)
    have hwaiting := (hserial before).phase j
    rw [hj] at hwaiting
    -- what begins later takes effect later
    rw [order_append] at hmem ⊢
    have hlater := (List.mem_append.1 hmem).resolve_left hwaiting
    exact (List.singleton_sublist.2 hbefore).append (List.singleton_sublist.2 hlater)

end Steps

-- of two calls with one id, neither of which finds a receipt at its first look, one is stored
example :
    let calls : Fin 2 → Submission := fun _ =>
      .ofYear "0000000a-7dec-11d0-a765-00a0c91e6bf6" none
    ((start empty).after 32 calls [0, 1, 0, 1, 0, 1]).registry.formulas.length = 1 := by
  decide +kernel

end Race

end Registry

end EnergyFormula
