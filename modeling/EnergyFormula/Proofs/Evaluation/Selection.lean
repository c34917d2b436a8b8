import EnergyFormula.Proofs.Evaluation.Plain

/-!
# Branches and reductions

A selection has in every interval the sample of the branch that its condition picks there
(`Signal.select_eq_ok`), and a reduction goes through the samples of all intervals
(`Signal.reduced?_samplesIn`).
-/

namespace EnergyFormula

/-! ### Conditional branches -/

namespace Signal

variable {n i : Nat} {s x y condition : Signal} {thenBranch otherwise : Except EvalError Signal}

theorem indicator_ne_zero (b : Bool) : (indicator b != 0) = b := by
  cases b <;> decide +kernel

/-- The comparison of two signals picks as the comparison of their values does. -/
theorem picks_compare (hx : x.Fits n) (hy : y.Fits n) (hi : i < n) (comparison : Comparison) :
    (x.compare comparison y).picks i =
      comparison.holds (x.sampleAt i).value (y.sampleAt i).value := by
  unfold picks compare
  rw [sampleAt_combine hx hy hi]
  exact indicator_ne_zero _

/-- What a condition picks in an interval it picks somewhere. -/
theorem picksSomewhere_picks (hcondition : condition.Fits n) (hi : i < n) :
    condition.picksSomewhere (condition.picks i) = true := by
  cases condition with
  | scalar c => exact beq_self_eq_true _
  | series samples =>
    have hsize := fits_series_iff.1 hcondition
    refine List.any_eq_true.2 ⟨i, List.mem_range.2 (hsize ▸ hi), ?_⟩
    exact beq_self_eq_true _

theorem neededBranch_eq_ok {branch : Except EvalError Signal} {needed : Bool} {a : Option Signal}
    (h : neededBranch needed branch = .ok a) :
    (∀ t, a = some t → branch = .ok t) ∧ (needed = true → ∃ t, a = some t) := by
  unfold neededBranch at h
  cases needed with
  | false =>
    cases h
    exact ⟨nofun, nofun⟩
  | true =>
    cases hbranch : branch with
    | error e =>
      rw [hbranch] at h
      cases h
    | ok t =>
      rw [hbranch] at h
      cases h
      exact ⟨fun u hu => congrArg Except.ok (Option.some.inj hu), fun _ => ⟨t, rfl⟩⟩

/-- The sample that is chosen in an interval is that of the branch that is picked there. -/
theorem choose_eq {a b : Option Signal} {t : Signal}
    (h : (if condition.picks i then a else b) = some t) :
    choose condition a b i =
      ⟨(t.sampleAt i).value, (t.sampleAt i).quality.worst (condition.sampleAt i).quality⟩ := by
  unfold choose
  rw [h]

/-- Of scalars the same sample is chosen in all intervals. -/
theorem choose_eq_of_isScalar {a b : Option Signal} (hcondition : condition.isScalar = true)
    (ha : a.all isScalar = true) (hb : b.all isScalar = true) (i j : Nat) :
    choose condition a b i = choose condition a b j := by
  have hpicks : condition.picks i = condition.picks j := by
    unfold picks
    rw [sampleAt_eq_of_isScalar hcondition i j]
  have hbranch : (if condition.picks j then a else b).all isScalar = true := by
    split
    · exact ha
    · exact hb
  unfold choose
  rw [hpicks, sampleAt_eq_of_isScalar hcondition i j]
  cases hchosen : if condition.picks j then a else b with
  | none => rfl
  | some t =>
    rw [hchosen] at hbranch
    dsimp only
    rw [sampleAt_eq_of_isScalar hbranch i j]

/-- The branch that is picked in an interval has been evaluated. -/
theorem exists_branch_of_neededBranch {a b : Option Signal} (hcondition : condition.Fits n)
    (ha : neededBranch (condition.picksSomewhere true) thenBranch = .ok a)
    (hb : neededBranch (condition.picksSomewhere false) otherwise = .ok b) (hi : i < n) :
    ∃ t, (if condition.picks i then a else b) = some t ∧
      (if condition.picks i then thenBranch else otherwise) = .ok t := by
  obtain ⟨hthen, hthenNeeded⟩ := neededBranch_eq_ok ha
  obtain ⟨helse, helseNeeded⟩ := neededBranch_eq_ok hb
  have hsomewhere := picksSomewhere_picks hcondition hi
  cases hpicks : condition.picks i with
  | true =>
    rw [hpicks] at hsomewhere
    obtain ⟨t, ht⟩ := hthenNeeded hsomewhere
    exact ⟨t, ht, hthen t ht⟩
  | false =>
    rw [hpicks] at hsomewhere
    obtain ⟨t, ht⟩ := helseNeeded hsomewhere
    exact ⟨t, ht, helse t ht⟩

/-- A selection fits, and has in each interval the sample of the branch that is picked there; that
branch has been evaluated. -/
theorem select_eq_ok (hcondition : condition.Fits n)
    (h : select condition thenBranch otherwise n = .ok s) :
    s.Fits n ∧ ∀ i < n, ∃ t, (if condition.picks i then thenBranch else otherwise) = .ok t ∧
      s.sampleAt i =
        ⟨(t.sampleAt i).value, (t.sampleAt i).quality.worst (condition.sampleAt i).quality⟩ := by
  unfold select at h
  obtain ⟨a, ha, h⟩ := bind_eq_ok.1 h
  obtain ⟨b, hb, h⟩ := bind_eq_ok.1 h
  -- scalars give a scalar, and anything else one sample for each interval
  have hchosen : s.Fits n ∧ ∀ i < n, s.sampleAt i = choose condition a b i := by
    split at h
    · rename_i hscalar
      cases h
      rw [Bool.and_eq_true, Bool.and_eq_true] at hscalar
      obtain ⟨⟨hc, hascalar⟩, hbscalar⟩ := hscalar
      exact ⟨fits_scalar _, fun i _ => choose_eq_of_isScalar hc hascalar hbscalar 0 i⟩
    · cases h
      exact ⟨fits_series_iff.2 Array.size_ofFn, fun i hi => by simp [sampleAt, hi]⟩
  obtain ⟨hfits, hsample⟩ := hchosen
  refine ⟨hfits, fun i hi => ?_⟩
  obtain ⟨t, ht, hbranch⟩ := exists_branch_of_neededBranch hcondition ha hb hi
  exact ⟨t, hbranch, (hsample i hi).trans (choose_eq ht)⟩

end Signal

/-! ### Reductions -/

theorem worstQuality_eq_worstOf {qualities : List IntervalQuality} (h : qualities ≠ []) :
    worstQuality qualities = .worstOf qualities := by
  have hfold : ∀ (qs : List IntervalQuality) (q : IntervalQuality),
      qs.foldl IntervalQuality.worst q = q.worst (.worstOf qs) := by
    intro qs
    induction qs with
    | nil => exact fun q => (IntervalQuality.worst_validated q).symm
    | cons r rest ih =>
      intro q
      rw [List.foldl_cons, ih]
      exact IntervalQuality.worst_assoc _ _ _
  cases qualities with
  | nil => exact absurd rfl h
  | cons q rest => exact hfold rest q

/-- The samples of all intervals reduced to one, as good as the worst of them. -/
def Sample.reduced? (pick : Float → Float → Float) (xs : List Sample) : Option Sample :=
  (Number.fold? pick (xs.map Sample.value)).map fun v => ⟨v, .worstOf (xs.map Sample.quality)⟩

namespace Signal

variable {n : Nat} {s : Signal}

/-- The samples of a signal in all of `n` intervals. -/
def samplesIn (s : Signal) (n : Nat) : List Sample :=
  (List.range n).map s.sampleAt

theorem samplesIn_series {samples : Array Sample} :
    (series samples).samplesIn samples.size = samples.toList := by
  refine List.ext_getElem (by simp [samplesIn]) fun i hi hi' => ?_
  have hi : i < samples.size := by simpa using hi'
  simp [samplesIn, sampleAt, hi]

theorem foldl_replicate {pick : Float → Float → Float} (hpick : ∀ v, pick v v = v) (v : Float)
    (m : Nat) : (List.replicate m v).foldl pick v = v := by
  induction m with
  | zero => rfl
  | succ m ih =>
    rw [List.replicate_succ, List.foldl_cons, hpick, ih]

theorem worstOf_replicate (q : IntervalQuality) (m : Nat) :
    IntervalQuality.worstOf (List.replicate (m + 1) q) = q := by
  have hidem : q.worst q = q := by cases q <;> rfl
  induction m with
  | zero => exact IntervalQuality.worst_validated q
  | succ m ih =>
    show q.worst (IntervalQuality.worstOf (List.replicate (m + 1) q)) = q
    rw [ih, hidem]

/-- Reducing a signal reduces its samples in all intervals. -/
theorem reduced?_samplesIn {pick : Float → Float → Float} (hpick : ∀ v, pick v v = v)
    (hs : s.Fits n) (hn : 0 < n) (i : Nat) :
    Sample.reduced? pick (s.samplesIn n) = some ((s.reduce pick).sampleAt i) := by
  obtain ⟨m, rfl⟩ := Nat.exists_eq_add_of_le' hn
  cases s with
  | scalar x =>
    have hsamples : (scalar x).samplesIn (m + 1) = List.replicate (m + 1) x := by
      rw [samplesIn]
      show (List.range (m + 1)).map (fun _ => x) = _
      rw [List.map_const', List.length_range]
    rw [hsamples, Sample.reduced?, List.map_replicate, List.map_replicate, worstOf_replicate,
      List.replicate_succ, Number.fold?, foldl_replicate hpick]
    rfl
  | series samples =>
    have hsize := fits_series_iff.1 hs
    rw [← hsize, samplesIn_series]
    unfold reduce
    cases hlist : samples.toList with
    | nil =>
      -- the grid has an interval
      have hlength := congrArg List.length hlist
      rw [Array.length_toList, hsize] at hlength
      cases hlength
    | cons x rest =>
      have hqualities : (x :: rest).map Sample.quality ≠ [] := List.cons_ne_nil _ _
      dsimp only
      rw [hlist, worstQuality_eq_worstOf hqualities]
      rfl

theorem greater_self (v : Float) : greater v v = v := by
  unfold greater
  split <;> try rfl
  split <;> rfl

theorem lesser_self (v : Float) : lesser v v = v := by
  unfold lesser
  split <;> try rfl
  split <;> rfl

end Signal

end EnergyFormula
