import EnergyFormula.Calculation.Basic
import EnergyFormula.Proofs.Validation.Acceptance
import Mathlib.Data.List.Nodup

/-!
# Batches

The calculations of a batch have nothing to do with each other: apart from the times at which they
are completed, the results are those of the single calculations (`map_completedOn_batchAt`), each
of them a series or a list of errors (`CalculationResult.IsSettled`).  They are sorted by their ids,
and those with one id stay in the order of their requests (`filter_batch`), so distinct ids alone
decide where a result stands (`batch_of_perm`).
-/

namespace EnergyFormula

/-! ### Single results -/

namespace CalculationResult

/-- The result as if it were completed at the given time. -/
def completedOn (result : CalculationResult) (time : Instant) : CalculationResult :=
  { result with completedAt := time }

/-- The result is a series without errors, or it has no series and at least one error. -/
def IsSettled (result : CalculationResult) : Prop :=
  result.status = .completed ∧ result.output.isSome = true ∧ result.errors = [] ∨
    result.status = .failed ∧ result.output = none ∧ result.errors ≠ []

end CalculationResult

namespace CalculationRequest

variable (r : CalculationRequest) (settings : Settings) (now : Instant)

theorem id_run : (r.run settings now).id = r.id := by
  unfold run
  cases r.outcome settings <;> rfl

/-- The time counts for nothing else in a result. -/
theorem completedOn_run (time : Instant) :
    (r.run settings time).completedOn now = r.run settings now := by
  unfold run
  cases r.outcome settings <;> rfl

theorem isSettled_run : (r.run settings now).IsSettled := by
  have herrors := @errors_run_ne_nil r settings now
  unfold run at herrors ⊢
  cases houtcome : r.outcome settings with
  | ok series => exact .inl ⟨rfl, rfl, rfl⟩
  | error errors =>
    rw [houtcome] at herrors
    exact .inr ⟨rfl, rfl, herrors rfl⟩

end CalculationRequest

/-! ### Sorted results -/

section Batch

variable {settings : Settings} {clock : Nat → Instant} {now : Instant}
  {requests requests' : List CalculationRequest}

/-- The order of the results in a batch. -/
theorem idLe_trans (a b c : CalculationResult) (hab : decide (a.id ≤ b.id) = true)
    (hbc : decide (b.id ≤ c.id) = true) : decide (a.id ≤ c.id) = true :=
  decide_eq_true (String.le_trans (of_decide_eq_true hab) (of_decide_eq_true hbc))

theorem idLe_total (a b : CalculationResult) :
    (decide (a.id ≤ b.id) || decide (b.id ≤ a.id)) = true := by
  rw [Bool.or_eq_true, decide_eq_true_eq, decide_eq_true_eq]
  exact String.le_total _ _

theorem pairwise_batchAt :
    (batchAt settings clock requests).Pairwise fun a b => a.id ≤ b.id :=
  (List.pairwise_mergeSort idLe_trans idLe_total _).imp of_decide_eq_true

/-- The clock of a batch shows in the times of its results only. -/
theorem map_completedOn_batchAt :
    (batchAt settings clock requests).map (·.completedOn now) = batch settings now requests := by
  have hmap : (requests.mapIdx fun i r => r.run settings (clock i)).map (·.completedOn now) =
      requests.map fun r => r.run settings now :=
    List.ext_getElem (by simp) (by simp [CalculationRequest.completedOn_run])
  have hsort : (batchAt settings clock requests).map (·.completedOn now) = _ :=
    List.map_mergeSort (s := fun a b => decide (a.id ≤ b.id)) fun _ _ _ _ => rfl
  rw [batch_eq, hsort, hmap]

/-- The results with one id are in the order of their requests. -/
theorem filter_batch (id : String) : (batch settings now requests).filter (·.id = id) =
    (requests.filter (·.id = id)).map fun r => r.run settings now := by
  have hfilter : (requests.filter (·.id = id)).map (fun r => r.run settings now) =
      (requests.map fun r => r.run settings now).filter (·.id = id) := by
    rw [List.filter_map]
    exact congrArg _ (List.filter_congr fun r _ => by simp [r.id_run])
  rw [hfilter, batch_eq]
  generalize requests.map (fun r => r.run settings now) = results
  -- equal ids are in order already, so they are a part of the sorted row
  have hequal : (results.filter (·.id = id)).Pairwise fun a b => decide (a.id ≤ b.id) = true := by
    refine List.pairwise_of_forall_mem_list fun a ha b hb => decide_eq_true ?_
    have ha := of_decide_eq_true (List.mem_filter.1 ha).2
    have hb := of_decide_eq_true (List.mem_filter.1 hb).2
    simp only [ha, hb, String.le_refl]
  have hpart := (List.sublist_mergeSort idLe_trans idLe_total hequal List.filter_sublist).filter
    fun result => decide (result.id = id)
  rw [List.filter_filter] at hpart
  simp only [Bool.and_self] at hpart
  refine (hpart.eq_of_length ?_).symm
  exact ((List.mergeSort_perm results _).filter _).length_eq.symm

theorem batch_of_perm (hperm : requests.Perm requests')
    (hdistinct : (requests.map (·.id)).Nodup) :
    batch settings now requests = batch settings now requests' := by
  have hresults : (batch settings now requests).Perm (batch settings now requests') := by
    rw [batch_eq, batch_eq]
    exact (List.mergeSort_perm _ _).trans ((hperm.map _).trans (List.mergeSort_perm _ _).symm)
  refine List.Perm.eq_of_pairwise (fun a b ha hb hab hba => ?_) pairwise_batchAt pairwise_batchAt
    hresults
  obtain ⟨r, hr, rfl⟩ := mem_batch.1 ha
  obtain ⟨r', hr', rfl⟩ := mem_batch.1 (hresults.mem_iff.2 hb)
  have hid := String.le_antisymm hab hba
  rw [r.id_run, r'.id_run] at hid
  rw [List.inj_on_of_nodup_map hdistinct hr hr' hid]

/-! ### Main result -/

/-- A batch has one result for each request, sorted by the ids and in the order of the requests
where the ids are equal.  Each of them is what the request comes to alone, apart from the time at
which it is completed: a series and no error, or no series and at least one error.  The order of
requests with distinct ids does not count. -/
theorem batchAt_isolated (settings : Settings) (clock : Nat → Instant)
    (requests : List CalculationRequest) :
    (batchAt settings clock requests).length = requests.length ∧
      (batchAt settings clock requests).Pairwise (fun a b => a.id ≤ b.id) ∧
      (∀ id now, ((batchAt settings clock requests).filter (·.id = id)).map (·.completedOn now) =
        (requests.filter (·.id = id)).map fun r => r.run settings now) ∧
      (∀ result ∈ batchAt settings clock requests, result.IsSettled) ∧
      ∀ requests' clock' now, requests.Perm requests' → (requests.map (·.id)).Nodup →
        (batchAt settings clock' requests').map (·.completedOn now) =
          (batchAt settings clock requests).map (·.completedOn now) := by
  refine ⟨?_, pairwise_batchAt, fun id now => ?_, fun result hresult => ?_,
    fun requests' clock' now hperm hdistinct => ?_⟩
  · rw [batchAt, List.length_mergeSort, List.length_mapIdx]
  · have hbatch : (batchAt settings clock requests).map (·.completedOn now) = _ :=
      map_completedOn_batchAt
    rw [← filter_batch, ← hbatch, List.filter_map]
    rfl
  · rw [batchAt, List.mem_mergeSort, List.mem_mapIdx] at hresult
    obtain ⟨i, hi, rfl⟩ := hresult
    exact CalculationRequest.isSettled_run _ _ _
  · rw [map_completedOn_batchAt, map_completedOn_batchAt, batch_of_perm hperm hdistinct]

end Batch

end EnergyFormula
