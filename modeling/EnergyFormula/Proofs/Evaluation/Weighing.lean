import EnergyFormula.Proofs.Evaluation.Reference
import EnergyFormula.Proofs.Evaluation.Zeros

/-!
# What the quality of an expression weighs

A rounding is as good as the number that is rounded, whatever its decimal places come from.  Read
with all parameters weighed, an expression has the same values, and no better qualities
(`Expression.noBetter_reference`); where every rounding is to a constant number of places, both
readings are the same (`Expression.reference_weighed`).
-/

namespace EnergyFormula

/-! ### Related outcomes -/

section Related

variable {α β γ δ : Type} {R : α → β → Prop} {S : γ → δ → Prop}

theorem exists_of_rel {x : Option α} {y : Option β} {a : α} (h : Option.Rel R x y)
    (hx : x = some a) : ∃ b, y = some b ∧ R a b := by
  cases h with
  | none => cases hx
  | @some _ b hab =>
    cases hx
    exact ⟨b, rfl, hab⟩

theorem rel_bind {x : Option α} {y : Option β} {f : α → Option γ} {g : β → Option δ}
    (h : Option.Rel R x y) (hnext : ∀ a b, R a b → Option.Rel S (f a) (g b)) :
    Option.Rel S (x.bind f) (y.bind g) := by
  cases h with
  | none => exact .none
  | some hab => exact hnext _ _ hab

theorem rel_map {x : Option α} {y : Option β} {f : α → γ} {g : β → δ} (h : Option.Rel R x y)
    (hmap : ∀ a b, R a b → S (f a) (g b)) : Option.Rel S (x.map f) (y.map g) := by
  cases h with
  | none => exact .none
  | some hab => exact .some (hmap _ _ hab)

theorem rel_mapM_id {xs : List (Option α)} {ys : List (Option β)}
    (h : List.Forall₂ (Option.Rel R) xs ys) :
    Option.Rel (List.Forall₂ R) (xs.mapM id) (ys.mapM id) := by
  induction h with
  | nil => exact .some .nil
  | cons hxy _ ih =>
    rw [List.mapM_cons, List.mapM_cons]
    refine rel_bind hxy fun a b hab => ?_
    exact rel_bind ih fun as bs hrest => .some (.cons hab hrest)

end Related

/-! ### Samples -/

/-- The second sample has the same value, and is no better than the first one. -/
def Sample.NoBetter (x y : Sample) : Prop :=
  y.value = x.value ∧ x.quality.rank ≤ y.quality.rank

namespace Sample

variable {xs ys : List Sample}

theorem map_value_eq (h : List.Forall₂ NoBetter xs ys) :
    ys.map Sample.value = xs.map Sample.value := by
  induction h with
  | nil => rfl
  | cons hxy _ ih => rw [List.map_cons, List.map_cons, hxy.1, ih]

/-- The worst of some samples is no worse than the worst of as many that are no better. -/
theorem rank_worstOf_le {part : List Sample} (hpart : ∀ x ∈ part, x ∈ xs)
    (h : List.Forall₂ NoBetter xs ys) :
    (IntervalQuality.worstOf (part.map Sample.quality)).rank ≤
      (IntervalQuality.worstOf (ys.map Sample.quality)).rank := by
  have hworst := IntervalQuality.rank_worstOf_le_iff.1
    (le_refl (IntervalQuality.worstOf (ys.map Sample.quality)).rank)
  refine IntervalQuality.rank_worstOf_le_iff.2 fun q hq => ?_
  obtain ⟨x, hx, rfl⟩ := List.mem_map.1 hq
  obtain ⟨y, hy, hxy⟩ := exists_right_of_forall₂ h x (hpart x hx)
  exact Nat.le_trans hxy.2 (hworst y.quality (List.mem_map_of_mem hy))

theorem rel_map_mk {v? : Option Float} {q q' : IntervalQuality} (h : q.rank ≤ q'.rank) :
    Option.Rel NoBetter (v?.map fun v => ⟨v, q⟩) (v?.map fun v => ⟨v, q'⟩) := by
  cases v? with
  | none => exact .none
  | some v => exact .some ⟨rfl, h⟩

theorem rel_reduced? (pick : Float → Float → Float) (h : List.Forall₂ NoBetter xs ys) :
    Option.Rel NoBetter (reduced? pick xs) (reduced? pick ys) := by
  unfold reduced?
  rw [map_value_eq h]
  exact rel_map_mk (rank_worstOf_le (fun _ hx => hx) h)

theorem rel_chosen? (comparison : Comparison) {x x' y y' : Sample} {t t' o o' : Option Sample}
    (hx : NoBetter x x') (hy : NoBetter y y') (ht : Option.Rel NoBetter t t')
    (ho : Option.Rel NoBetter o o') :
    Option.Rel NoBetter (chosen? comparison x y t o) (chosen? comparison x' y' t' o') := by
  have hbranch : Option.Rel NoBetter
      (if comparison.holds x.value y.value then t else o)
      (if comparison.holds x'.value y'.value then t' else o') := by
    rw [hx.1, hy.1]
    split
    · exact ht
    · exact ho
  refine rel_map hbranch fun z z' hz => ⟨hz.1, ?_⟩
  have hrow : List.Forall₂ NoBetter [z, x, y] [z', x', y'] := .cons hz (.cons hx (.cons hy .nil))
  exact rank_worstOf_le (fun _ hmem => hmem) hrow

end Sample

namespace DomainFunction

theorem mem_of_mem_weighed {function : DomainFunction} {xs : List Sample} {x : Sample}
    (h : x ∈ function.weighed xs) : x ∈ xs := by
  unfold weighed at h
  split at h
  · exact List.mem_cons.2 (.inl (List.mem_singleton.1 h))
  · exact h

theorem rel_joined? (function : DomainFunction) {xs ys : List Sample}
    (h : List.Forall₂ Sample.NoBetter xs ys) :
    Option.Rel Sample.NoBetter (function.joined? weighed xs) (function.joined? allWeighed ys) := by
  unfold joined?
  rw [Sample.map_value_eq h]
  exact Sample.rel_map_mk (Sample.rank_worstOf_le (fun _ => mem_of_mem_weighed) h)

/-- The number of places of a rounding is given as a constant. -/
def placesConstant : DomainFunction → List Parameter → Bool
  | round, [_, .constant _] => true
  | round, _ => false
  | _, _ => true

end DomainFunction

mutual

/-- Every rounding in the expression is to a constant number of decimal places. -/
def Expression.roundsByConstants : Expression → Bool
  | .apply function ps => function.placesConstant ps && Parameter.allRoundByConstants ps

/-- The same for a parameter. -/
def Parameter.roundsByConstants : Parameter → Bool
  | .expression e => e.roundsByConstants
  | .constant _ => true
  | .series _ _ => true
  | .literal _ => true

/-- The same for several parameters. -/
def Parameter.allRoundByConstants : List Parameter → Bool
  | [] => true
  | p :: rest => p.roundsByConstants && Parameter.allRoundByConstants rest

end

/-! ### Expressions -/

section Readings

open DomainFunction

variable {n : Nat} {input : Nat → String → Option Sample} {ps : List Parameter}

theorem Parameter.noBetter_reference {p : Parameter}
    (hnested : ∀ e, p = .expression e → ∀ i,
      Option.Rel Sample.NoBetter (e.reference weighed n input i) (e.reference allWeighed n input i))
    (i : Nat) :
    Option.Rel Sample.NoBetter (p.reference weighed n input i)
      (p.reference allWeighed n input i) := by
  cases p with
  | constant v => exact .some ⟨rfl, Nat.le_refl _⟩
  | series name factor =>
    rw [Parameter.reference, Parameter.reference]
    cases input i name with
    | none => exact .none
    | some x => exact .some ⟨rfl, Nat.le_refl _⟩
  | literal v => exact .none
  | expression e => exact hnested e rfl i

theorem Parameter.noBetter_references
    (hnested : ∀ e, Parameter.expression e ∈ ps → ∀ i,
      Option.Rel Sample.NoBetter (e.reference weighed n input i) (e.reference allWeighed n input i))
    (i : Nat) :
    Option.Rel (List.Forall₂ Sample.NoBetter) (references weighed n input ps i)
      (references allWeighed n input ps i) := by
  induction ps with
  | nil => exact .some .nil
  | cons p rest ih =>
    have hp : ∀ e, p = .expression e → ∀ i, Option.Rel Sample.NoBetter
        (e.reference weighed n input i) (e.reference allWeighed n input i) := by
      rintro e rfl
      exact hnested e List.mem_cons_self
    have hrest := ih fun e he => hnested e (List.mem_cons_of_mem p he)
    refine rel_bind (noBetter_reference hp i) fun x x' hx => ?_
    exact rel_bind hrest fun xs xs' hxs => .some (.cons hx hxs)

/-- A reduction of a parameter has the same value, and is no better. -/
theorem Parameter.noBetter_reduced {p : Parameter}
    (hp : ∀ j, Option.Rel Sample.NoBetter (p.reference weighed n input j)
      (p.reference allWeighed n input j)) (pick : Float → Float → Float) :
    Option.Rel Sample.NoBetter
      ((((List.range n).map fun j => p.reference weighed n input j).mapM id).bind
        (Sample.reduced? pick))
      ((((List.range n).map fun j => p.reference allWeighed n input j).mapM id).bind
        (Sample.reduced? pick)) := by
  have hrow : List.Forall₂ (Option.Rel Sample.NoBetter)
      ((List.range n).map fun j => p.reference weighed n input j)
      ((List.range n).map fun j => p.reference allWeighed n input j) := by
    rw [List.forall₂_map_left_iff, List.forall₂_map_right_iff, List.forall₂_same]
    exact fun j _ => hp j
  exact rel_bind (rel_mapM_id hrow) fun xs ys h => Sample.rel_reduced? pick h

/-- With all parameters weighed an expression has the same values, and is no better. -/
theorem Expression.noBetter_reference (e : Expression) (i : Nat) :
    Option.Rel Sample.NoBetter (e.reference weighed n input i)
      (e.reference allWeighed n input i) := by
  induction e using Expression.induction generalizing i with
  | step function ps hnested =>
    have hparameter : ∀ p ∈ ps, ∀ j, Option.Rel Sample.NoBetter (p.reference weighed n input j)
        (p.reference allWeighed n input j) := by
      intro p hp
      refine Parameter.noBetter_reference ?_
      rintro e rfl
      exact hnested e hp
    unfold Expression.reference
    split
    · rename_i a operator b thenBranch otherwise heq
      cases heq
      cases Comparison.parse? operator with
      | none => exact .none
      | some comparison =>
        -- the values that are compared agree, so the same branch is picked
        rw [Option.bind_some, Option.bind_some]
        refine rel_bind (hparameter a (by simp) _) fun x x' hx => ?_
        refine rel_bind (hparameter b (by simp) _) fun y y' hy => ?_
        exact Sample.rel_chosen? comparison hx hy (hparameter thenBranch (by simp) _)
          (hparameter otherwise (by simp) _)
    · rename_i p heq
      cases heq
      exact Parameter.noBetter_reduced (hparameter p List.mem_cons_self) Signal.greater
    · rename_i p heq
      cases heq
      exact Parameter.noBetter_reduced (hparameter p List.mem_cons_self) Signal.lesser
    · rename_i heq
      cases heq
      refine rel_bind (Parameter.noBetter_references hnested _) fun xs ys h => ?_
      exact rel_joined? function h

/-! ### Constant decimal places -/

theorem Parameter.reference_weighed {p : Parameter}
    (hnested : ∀ e, p = .expression e → e.roundsByConstants = true →
      e.reference weighed n input = e.reference allWeighed n input)
    (h : p.roundsByConstants = true) :
    p.reference weighed n input = p.reference allWeighed n input := by
  cases p with
  | constant v => rfl
  | series name factor => rfl
  | literal v => rfl
  | expression e =>
    have he := hnested e rfl h
    funext i
    exact congrFun he i

theorem Parameter.references_weighed
    (hnested : ∀ e, Parameter.expression e ∈ ps → e.roundsByConstants = true →
      e.reference weighed n input = e.reference allWeighed n input)
    (h : allRoundByConstants ps = true) (i : Nat) :
    references weighed n input ps i = references allWeighed n input ps i := by
  induction ps with
  | nil => rfl
  | cons p rest ih =>
    obtain ⟨hp, hrest⟩ := Bool.and_eq_true_iff.1 h
    have hfirst : p.reference weighed n input = p.reference allWeighed n input := by
      refine reference_weighed ?_ hp
      rintro e rfl
      exact hnested e List.mem_cons_self
    rw [references, references, hfirst, ih (fun e he => hnested e (List.mem_cons_of_mem p he)) hrest]

theorem Parameter.roundsByConstants_of_mem {p : Parameter} :
    ∀ {ps : List Parameter}, allRoundByConstants ps = true → p ∈ ps → p.roundsByConstants = true
  | first :: rest, h, hp => by
    obtain ⟨hfirst, hrest⟩ := Bool.and_eq_true_iff.1 h
    rcases List.mem_cons.1 hp with rfl | hp
    · exact hfirst
    · exact roundsByConstants_of_mem hrest hp

/-- A constant number of decimal places does not change the quality. -/
theorem joined?_references {function : DomainFunction} (h : function.placesConstant ps = true)
    (i : Nat) :
    (Parameter.references allWeighed n input ps i).bind (function.joined? weighed) =
      (Parameter.references allWeighed n input ps i).bind (function.joined? allWeighed) := by
  cases function with
  | round =>
    unfold placesConstant at h
    split at h
    · rename_i p v _
      simp only [Parameter.references, Parameter.reference, Option.bind_some]
      cases p.reference allWeighed n input i with
      | none => rfl
      | some x =>
        have hworst : IntervalQuality.worstOf [x.quality, .validated] =
            IntervalQuality.worstOf [x.quality] := by
          cases x.quality <;> rfl
        simp only [Option.bind_some, joined?, weighed, allWeighed, List.map_cons, List.map_nil,
          Sample.validated, hworst]
    · cases h
    · contradiction
  | _ => rfl

/-- Where all roundings are to constant numbers of decimal places, the quality is the worst one of
all parameters. -/
theorem Expression.reference_weighed (e : Expression) (h : e.roundsByConstants = true) :
    e.reference weighed n input = e.reference allWeighed n input := by
  induction e using Expression.induction with
  | step function ps hnested =>
    obtain ⟨hplaces, hps⟩ := Bool.and_eq_true_iff.1 h
    have hparameter : ∀ p ∈ ps, p.reference weighed n input = p.reference allWeighed n input := by
      intro p hp
      refine Parameter.reference_weighed ?_ (Parameter.roundsByConstants_of_mem hps hp)
      rintro e rfl
      exact hnested e hp
    funext i
    -- by the form of the node, as the reading goes
    unfold Expression.reference
    split
    · rename_i a operator b thenBranch otherwise heq
      cases heq
      rw [hparameter a (by simp), hparameter b (by simp), hparameter thenBranch (by simp),
        hparameter otherwise (by simp)]
    · rename_i p heq
      cases heq
      rw [hparameter p List.mem_cons_self]
    · rename_i p heq
      cases heq
      rw [hparameter p List.mem_cons_self]
    · rename_i heq
      cases heq
      rw [Parameter.references_weighed hnested hps]
      exact joined?_references hplaces _

end Readings

/-! ### Main result -/

/-- The samples of the inputs in the intervals of the grid. -/
def Grid.readings (grid : Grid) (inputs : Inputs) (i : Nat) (name : String) : Option Sample :=
  Inputs.sampleAt? inputs grid.resolution (grid.startOf i) name

/-- An expression that evaluates has in every interval the sample that is read there; a rounding is
as good as the number that is rounded.  With the decimal places weighed as well, as all other
parameters are, the values are the same and the qualities no better, and nothing changes if all
roundings are to constant numbers of places. -/
theorem Expression.eval_eq_reference {e : Expression} {inputs : Inputs} {grid : Grid}
    {w : Workspace} {s : Signal} (hw : Workspace.prepare grid inputs e.seriesNames = .ok w)
    (hs : e.eval w = .ok s) :
    (s.isScalar = true ∨ s.length? = some grid.length) ∧ ∀ i < grid.length,
      e.reference DomainFunction.weighed grid.length (grid.readings inputs) i =
          some (s.sampleAt i) ∧
        (∃ x, e.reference DomainFunction.allWeighed grid.length (grid.readings inputs) i = some x ∧
          x.value = (s.sampleAt i).value ∧ (s.sampleAt i).quality.rank ≤ x.quality.rank) ∧
          (e.roundsByConstants = true →
            e.reference DomainFunction.allWeighed grid.length (grid.readings inputs) i =
              some (s.sampleAt i)) := by
  obtain ⟨rfl, hfits⟩ := Workspace.fits_prepare hw
  have hgives : w.Gives (w.grid.readings inputs) e.allNames := by
    intro name hname i hi
    exact (Workspace.sampleAt?_prepare hw (mem_seriesNames.2 hname) hi).symm
  obtain ⟨hshape, hread⟩ := e.shows_eval hfits hgives s hs
  have hshape : s.isScalar = true ∨ s.length? = some w.grid.length := by
    cases s with
    | scalar x => exact .inl rfl
    | series samples => exact .inr (congrArg some (Signal.fits_series_iff.1 hshape))
  refine ⟨hshape, fun i hi => ⟨hread i hi, ?_, fun hconstant => ?_⟩⟩
  · obtain ⟨x, hx, hsame⟩ := exists_of_rel (e.noBetter_reference i) (hread i hi)
    exact ⟨x, hx, hsame⟩
  · rw [← e.reference_weighed hconstant]
    exact hread i hi

/-- A number, rounded to as many decimal places as the maximum of a series. -/
def Expression.roundedByMaximum : Expression :=
  .apply .round [.constant 1.234, .expression (.apply .intervalMax [.series "d" 1])]

/-- Two hours, the second of them without data. -/
def Inputs.interrupted : Inputs :=
  let series : TimeSeries := .ofValues "d" "KWH" .hour ⟨0, 0⟩ [2, 1]
  [("d", { series with intervals := series.intervals.modify 1 fun x =>
    { x with quality := .missing } })]

/-- The rounded number counts as validated, although its decimal places come from missing data. -/
theorem Expression.eval_eq_reference_roundedByMaximum :
    ∃ w s x, Workspace.prepare .twoHours .interrupted roundedByMaximum.seriesNames = .ok w ∧
      roundedByMaximum.eval w = .ok s ∧
        roundedByMaximum.reference DomainFunction.allWeighed 2
          (Grid.twoHours.readings .interrupted) 0 = some x ∧
          x.value = (s.sampleAt 0).value ∧ (s.sampleAt 0).quality = .validated ∧
            x.quality = .missing := by
  have hnames : roundedByMaximum.seriesNames = ["d"] := by decide +kernel
  have heval : ∃ w s, Workspace.prepare .twoHours .interrupted roundedByMaximum.seriesNames = .ok w ∧
      roundedByMaximum.eval w = .ok s ∧ (s.sampleAt 0).quality = .validated := by
    rw [hnames]
    exact ⟨_, _, rfl, rfl, rfl⟩
  obtain ⟨w, s, hw, hs, hquality⟩ := heval
  obtain ⟨_, hread⟩ := eval_eq_reference hw hs
  obtain ⟨_, ⟨x, hx, hvalue, _⟩, _⟩ := hread 0 (by decide)
  have hmissing : (roundedByMaximum.reference DomainFunction.allWeighed 2
      (Grid.twoHours.readings .interrupted) 0).map Sample.quality = some .missing := by
    decide +kernel
  refine ⟨w, s, x, hw, hs, hx, hvalue, hquality, ?_⟩
  have hx : roundedByMaximum.reference DomainFunction.allWeighed 2
      (Grid.twoHours.readings .interrupted) 0 = some x := hx
  rw [hx] at hmissing
  exact Option.some.inj hmissing

end EnergyFormula
