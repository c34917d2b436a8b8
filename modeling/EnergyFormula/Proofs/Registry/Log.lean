import EnergyFormula.Proofs.Location.Order
import EnergyFormula.Proofs.Registry.Run

/-!
# The registry as a log

After every run the registry shows the log of the submissions that were accepted, location by
location (`Registry.Shows`): its histories are the log in the order of the calls, the newest entry
with a slice at an instant decides about that instant, and each location is listed once, in the
order of the ids (`Registry.mem_summaries_iff`, `Registry.pairwise_summaries`).  A submission that is
rejected or was answered before changes nothing, one that is stored changes nothing about other
locations (`Registry.Agrees`), and no history loses anything (`Registry.shows_log_run`).
-/

namespace EnergyFormula

/-! ### Ids -/

/-- A market location and a network location never have the same id. -/
theorem LocationId.text_ne (m : MarketLocationId) (n : NetworkLocationId) : m.text ≠ n.text := by
  intro h
  have hm : IdentifierKind.isMarketLocation m.text.toList = true := m.admitted
  have hn : IdentifierKind.isNetworkLocation n.text.toList = true := n.admitted
  rw [h] at hm
  -- the id of a network location begins with a letter
  unfold IdentifierKind.isNetworkLocation at hn
  split at hn
  · rename_i rest hrest
    rw [hrest, IdentifierKind.isMarketLocation, Bool.and_eq_true, List.all_cons] at hm
    exact absurd hm.2 (by simp [Text.isDigit])
  · cases hn

theorem LocationId.text_injective : Function.Injective LocationId.text := by
  intro a b h
  cases a with
  | market m =>
    cases b with
    | market m' =>
      have hm : m = m' := by
        obtain ⟨text, _⟩ := m
        cases h
        rfl
      rw [hm]
    | network n => exact absurd h (text_ne m n)
  | network n =>
    cases b with
    | market m => exact absurd h.symm (text_ne m n)
    | network n' =>
      have hn : n = n' := by
        obtain ⟨text, _⟩ := n
        cases h
        rfl
      rw [hn]

namespace Registry

variable {r r' : Registry} {id : LocationId} {t : Instant}

/-! ### Slices in force -/

/-- The slice of the newest submission that has one at the instant. -/
theorem resolve?_eq_some_iff {s : TimeSlice} :
    r.resolve? id t = some s ↔
      ∃ older newest newer, r.history id = older ++ newest :: newer ∧
        (s ∈ newest.location.timeSlices ∧ s.covers t = true) ∧
          ∀ entry ∈ newer, ∀ s' ∈ entry.location.timeSlices, s'.covers t = false := by
  have hnone (entry : StoredFormula) : entry.location.sliceAt? t = none ↔
      ∀ s' ∈ entry.location.timeSlices, s'.covers t = false := by
    rw [FormulaLocation.sliceAt?, List.find?_eq_none]
    exact forall₂_congr fun s' _ => Bool.not_eq_true _ ▸ Iff.rfl
  rw [resolve?, List.findSome?_eq_some_iff]
  simp only [FormulaLocation.sliceAt?_eq_some_iff, hnone]
  constructor
  · rintro ⟨newer, newest, older, hrow, hslice, hnewer⟩
    refine ⟨older.reverse, newest, newer.reverse, ?_, hslice, ?_⟩
    · rw [← List.reverse_reverse (r.history id), hrow]
      simp
    · exact fun entry hentry => hnewer entry (List.mem_reverse.1 hentry)
  · rintro ⟨older, newest, newer, hrow, hslice, hnewer⟩
    refine ⟨newer.reverse, newest, older.reverse, ?_, hslice, ?_⟩
    · rw [hrow]
      simp
    · exact fun entry hentry => hnewer entry (List.mem_reverse.1 hentry)

theorem resolve?_eq_none_iff :
    r.resolve? id t = none ↔
      ∀ entry ∈ r.history id, ∀ s ∈ entry.location.timeSlices, s.covers t = false := by
  rw [resolve?, List.findSome?_eq_none_iff]
  simp only [List.mem_reverse, FormulaLocation.sliceAt?, List.find?_eq_none, Bool.not_eq_true]

/-! ### Summaries -/

/-- There is a summary for every location with a submission, and it is that of the latest one. -/
theorem mem_summaries_iff {summary : FormulaSummary} :
    summary ∈ r.summaries ↔
      ∃ id latest, r.latest? id = some latest ∧ summary = .of id latest := by
  unfold summaries
  rw [List.mem_mergeSort, List.mem_filterMap]
  constructor
  · rintro ⟨⟨id, history⟩, hentry, hsummary⟩
    obtain ⟨latest, hlatest, hof⟩ := Option.map_eq_some_iff.1 hsummary
    refine ⟨id, latest, ?_, hof.symm⟩
    rw [latest?, Registry.history, Table.mem_entries_iff.1 hentry]
    exact hlatest
  · rintro ⟨id, latest, hlatest, rfl⟩
    unfold latest? Registry.history at hlatest
    cases hfound : r.histories.find? id with
    | none =>
      rw [hfound] at hlatest
      cases hlatest
    | some history =>
      rw [hfound] at hlatest
      exact ⟨(id, history), Table.mem_entries_iff.2 hfound,
        Option.map_eq_some_iff.2 ⟨latest, hlatest, rfl⟩⟩

/-- The summaries come in the order of the ids of their locations, and each of them once. -/
theorem pairwise_summaries (r : Registry) :
    r.summaries.Pairwise fun a b => a.locationId < b.locationId := by
  unfold summaries
  generalize hlatest : r.histories.entries.filterMap _ = latest
  -- the ids are distinct in the table and stay so in order
  have hdistinct : latest.Pairwise fun a b => a.locationId ≠ b.locationId := by
    rw [← hlatest, List.pairwise_filterMap]
    refine (List.pairwise_map.1 r.histories.distinctKeys).imp fun {a b} hab summary hsummary
      summary' hsummary' hid => ?_
    obtain ⟨_, _, rfl⟩ := Option.map_eq_some_iff.1 hsummary
    obtain ⟨_, _, rfl⟩ := Option.map_eq_some_iff.1 hsummary'
    exact hab (LocationId.text_injective hid)
  have hne := (List.mergeSort_perm latest fun a b => a.locationId ≤ b.locationId).symm.pairwise
    hdistinct fun h => h.symm
  have hle : (latest.mergeSort fun a b => a.locationId ≤ b.locationId).Pairwise fun a b =>
      a.locationId ≤ b.locationId := by
    refine (List.pairwise_mergeSort ?_ ?_ latest).imp of_decide_eq_true
    · intro a b c hab hbc
      exact decide_eq_true (String.le_trans (of_decide_eq_true hab) (of_decide_eq_true hbc))
    · intro a b
      rw [Bool.or_eq_true, decide_eq_true_eq, decide_eq_true_eq]
      exact String.le_total _ _
  refine (hle.and hne).imp fun {a b} hab => ?_
  rcases Decidable.em (a.locationId < b.locationId) with hlt | hlt
  · exact hlt
  · exact absurd (String.le_antisymm hab.1 (String.not_lt.1 hlt)) hab.2

/-! ### Registries and logs -/

/-- What is asked of the registry is answered from a log. -/
structure Shows (r : Registry) (log : List StoredFormula) : Prop where
  /-- The history of a location is its part of the log. -/
  history : ∀ id, r.history id = log.filter fun entry => entry.location.location = id
  latest : ∀ id, r.latest? id = (log.filter fun entry => entry.location.location = id).getLast?
  /-- The newest entry of the location with a slice at the instant decides. -/
  resolved : ∀ id t s, r.resolve? id t = some s ↔
    ∃ older newest newer,
      (log.filter fun entry => entry.location.location = id) = older ++ newest :: newer ∧
        (s ∈ newest.location.timeSlices ∧ s.covers t = true) ∧
          ∀ entry ∈ newer, ∀ s' ∈ entry.location.timeSlices, s'.covers t = false
  unresolved : ∀ id t, r.resolve? id t = none ↔
    ∀ entry ∈ log, entry.location.location = id →
      ∀ s ∈ entry.location.timeSlices, s.covers t = false
  /-- Each location with an entry is listed with its latest one. -/
  listed : ∀ summary, summary ∈ r.summaries ↔ ∃ id latest,
    (log.filter fun entry => entry.location.location = id).getLast? = some latest ∧
      summary = .of id latest
  ascending : r.summaries.Pairwise fun a b => a.locationId < b.locationId

theorem shows_of_history {log : List StoredFormula}
    (h : ∀ id, r.history id = log.filter fun entry => entry.location.location = id) :
    r.Shows log where
  history := h
  latest id := by rw [latest?, h]
  resolved id t s := by rw [resolve?_eq_some_iff, h]
  unresolved id t := by
    rw [resolve?_eq_none_iff, h]
    simp only [List.mem_filter, decide_eq_true_eq, and_imp]
  listed summary := by simp only [mem_summaries_iff, latest?, h]
  ascending := r.pairwise_summaries

/-- Two registries give the same answers about a location. -/
structure Agrees (r r' : Registry) (id : LocationId) : Prop where
  history : r'.history id = r.history id
  latest : r'.latest? id = r.latest? id
  resolved : ∀ t, r'.resolve? id t = r.resolve? id t
  listed : ∀ summary : FormulaSummary, summary.locationId = id.text →
    (summary ∈ r'.summaries ↔ summary ∈ r.summaries)

theorem agrees_of_history (h : r'.history id = r.history id) : r.Agrees r' id where
  history := h
  latest := by rw [latest?, latest?, h]
  resolved t := by rw [resolve?, resolve?, h]
  listed summary hid := by
    rw [mem_summaries_iff, mem_summaries_iff]
    refine exists_congr fun other => exists_congr fun latest => and_congr_left ?_
    rintro rfl
    rw [LocationId.text_injective hid, latest?, latest?, h]

/-- What a submission leaves as it is. -/
structure Keeps (maxDepth : Nat) (r : Registry) (s : Submission) : Prop where
  /-- A submission that is rejected, or was answered before, changes nothing. -/
  unchanged : (r.answer maxDepth s).2.status = .rejected ∨ (r.answer maxDepth s).2.replayed = true →
    (r.answer maxDepth s).1 = r
  /-- A submission for one location changes nothing about the others. -/
  others : ∀ id, (∀ location, (s.document.validate maxDepth).location = some location →
    location.location ≠ id) → r.Agrees (r.answer maxDepth s).1 id
  /-- Histories are added to at their end. -/
  appended : ∀ id, r.history id <+: (r.answer maxDepth s).1.history id

theorem keeps_of_eq {maxDepth : Nat} {s : Submission} (h : (r.answer maxDepth s).1 = r) :
    r.Keeps maxDepth s where
  unchanged _ := h
  others _ _ := by
    rw [h]
    exact agrees_of_history rfl
  appended _ := ⟨[], by rw [h, List.append_nil]⟩

theorem keeps_answer (maxDepth : Nat) (r : Registry) (s : Submission) : r.Keeps maxDepth s := by
  rcases answer_cases r maxDepth s with ⟨receipt, -, hanswer⟩ | ⟨report, -, -, hanswer⟩ |
    ⟨entry, report, -, hentry, hanswer⟩
  · exact keeps_of_eq (congrArg Prod.fst hanswer)
  · exact keeps_of_eq (congrArg Prod.fst hanswer)
  · -- the submission is new, and stored for its location
    obtain ⟨_, _, hlocation, _⟩ := Submission.stored?_eq_some_iff.1 hentry
    refine ⟨?_, fun id hid => ?_, fun id => ?_⟩
    · rw [hanswer]
      rintro (h | h) <;> cases h
    · have hne : id ≠ entry.location.location := fun h => hid _ hlocation h.symm
      refine agrees_of_history ?_
      rw [hanswer, history_store, if_neg hne]
    · rw [hanswer, history_store]
      split
      · exact List.prefix_append _ _
      · exact List.prefix_refl _

/-! ### Main result -/

/-- After every run the registry shows the log of the calls that were accepted, each of which has an
entry in it.  A submission that is rejected or was answered before changes nothing, one for another
location nothing about a location, and histories are only added to at their end. -/
theorem shows_log_run (maxDepth : Nat) (submissions : List Submission) :
    (∀ c ∈ Call.accepted (calls maxDepth empty submissions),
      ∃ entry, c.submission.stored? maxDepth = some entry) ∧
    (run maxDepth empty submissions).1.Shows
      (Call.log maxDepth (calls maxDepth empty submissions)) ∧
    ∀ r s, Keeps maxDepth r s := by
  have hgrows := grows_run maxDepth empty submissions
  refine ⟨hgrows.entry, shows_of_history fun id => ?_, keeps_answer maxDepth⟩
  rw [hgrows.history]
  exact List.nil_append _

end Registry

end EnergyFormula
