import EnergyFormula.Json.Basic

/-!
# Sorted members

Members that are put in one after the other are sorted strictly by key
(`Json.sorted_sortMembers`), and sorted members stay as they are (`Json.sortMembers_of_sorted`).  So a
value that is canonical already has itself as its canonical form (`Json.canonical_canonical`).
-/

namespace EnergyFormula.Json

variable {α : Type} {key : String} {value : α} {members : List (String × α)}

/-! ### Members in order -/

/-- The keys ascend strictly. -/
def Sorted (members : List (String × α)) : Prop :=
  members.Pairwise fun m n => m.1 < n.1

/-- A member that is put in is the only new one. -/
theorem mem_of_mem_insertMember {m : String × α} (h : m ∈ insertMember key value members) :
    m = (key, value) ∨ m ∈ members := by
  induction members with
  | nil => exact .inl (List.mem_singleton.1 h)
  | cons first rest ih =>
    obtain ⟨k, v⟩ := first
    simp only [insertMember] at h
    split at h
    · exact List.mem_cons.1 h
    · split at h
      · rcases List.mem_cons.1 h with rfl | h
        · exact .inl rfl
        · exact .inr (List.mem_cons_of_mem _ h)
      · rcases List.mem_cons.1 h with rfl | h
        · exact .inr List.mem_cons_self
        · exact (ih h).imp_right (List.mem_cons_of_mem _)

theorem Sorted.insertMember (h : Sorted members) : Sorted (insertMember key value members) := by
  induction members with
  | nil => exact List.pairwise_singleton _ _
  | cons first rest ih =>
    obtain ⟨k, v⟩ := first
    obtain ⟨hfirst, hrest⟩ := List.pairwise_cons.1 h
    simp only [Json.insertMember]
    split
    · rename_i hlt
      refine List.pairwise_cons.2 ⟨List.forall_mem_cons.2 ⟨hlt, fun m hm => ?_⟩, h⟩
      exact String.lt_trans hlt (hfirst m hm)
    · rename_i hnot
      split
      · rename_i heq
        subst heq
        exact List.pairwise_cons.2 ⟨hfirst, hrest⟩
      · rename_i hne
        have hlt : k < key := Std.lt_of_le_of_ne (String.not_lt.1 hnot) hne
        refine List.pairwise_cons.2 ⟨fun m hm => ?_, ih hrest⟩
        rcases mem_of_mem_insertMember hm with rfl | hm
        · exact hlt
        · exact hfirst m hm

/-- A member behind all others is put at their end. -/
theorem insertMember_of_forall_lt (h : ∀ m ∈ members, m.1 < key) :
    insertMember key value members = members ++ [(key, value)] := by
  induction members with
  | nil => rfl
  | cons first rest ih =>
    obtain ⟨k, v⟩ := first
    obtain ⟨hfirst, hrest⟩ := List.forall_mem_cons.1 h
    have hne : ¬ k = key := by
      rintro rfl
      exact String.lt_irrefl _ hfirst
    simp only [insertMember]
    rw [if_neg (String.lt_asymm hfirst), if_neg hne, ih hrest, List.cons_append]

/-! ### Members one after the other -/

theorem sorted_sortMembers (members : List (String × α)) : Sorted (sortMembers members) :=
  List.foldlRecOn members _ .nil fun _ h _ _ => h.insertMember

theorem mem_of_mem_sortMembers {m : String × α} (h : m ∈ sortMembers members) : m ∈ members := by
  have hstep : ∀ sorted : List (String × α), (∀ n ∈ sorted, n ∈ members) → ∀ n ∈ members,
      ∀ k ∈ insertMember n.1 n.2 sorted, k ∈ members := by
    intro sorted hsorted n hn k hk
    rcases mem_of_mem_insertMember hk with rfl | hk
    · exact hn
    · exact hsorted k hk
  exact List.foldlRecOn (motive := fun sorted => ∀ n ∈ sorted, n ∈ members) members _
    (List.forall_mem_nil _) hstep m h

/-- Sorted members stay as they are. -/
theorem sortMembers_of_sorted (h : Sorted members) : sortMembers members = members := by
  -- by induction on the members that are still to come, behind those that are sorted already
  have hfold : ∀ (rest sorted : List (String × α)), Sorted (sorted ++ rest) →
      rest.foldl (fun sorted m => insertMember m.1 m.2 sorted) sorted = sorted ++ rest := by
    intro rest
    induction rest with
    | nil => exact fun sorted _ => (List.append_nil sorted).symm
    | cons m rest ih =>
      intro sorted hsorted
      have hlast : ∀ n ∈ sorted, n.1 < m.1 := fun n hn =>
        (List.pairwise_append.1 hsorted).2.2 n hn m List.mem_cons_self
      have hmoved : sorted ++ m :: rest = sorted ++ [m] ++ rest := by
        rw [List.append_assoc, List.singleton_append]
      rw [hmoved] at hsorted ⊢
      rw [List.foldl_cons, insertMember_of_forall_lt hlast]
      exact ih _ hsorted
  exact hfold members [] h

theorem sortMembers_sortMembers (members : List (String × α)) :
    sortMembers (sortMembers members) = sortMembers members :=
  sortMembers_of_sorted (sorted_sortMembers members)

/-! ### Canonical values -/

theorem canonicalItems_eq (items : List Json) : canonicalItems items = items.map canonical := by
  induction items with
  | nil => rfl
  | cons v rest ih => rw [canonicalItems, ih, List.map_cons]

theorem canonicalMembers_eq (members : List (String × Json)) :
    canonicalMembers members = members.map fun m => (m.1, m.2.canonical) := by
  induction members with
  | nil => rfl
  | cons m rest ih =>
    obtain ⟨k, v⟩ := m
    rw [canonicalMembers, ih, List.map_cons]

theorem canonical_ne_null {v : Json} (h : v ≠ .null) : v.canonical ≠ .null := by
  cases v with
  | null => exact absurd rfl h
  | _ => simp [canonical]

mutual

/-- A canonical value has itself as its canonical form. -/
theorem canonical_canonical : ∀ v : Json, v.canonical.canonical = v.canonical
  | .null => rfl
  | .boolean _ => rfl
  | .integer _ => rfl
  | .float _ => rfl
  | .string _ => rfl
  | .array items => by
    have hitems := List.map_congr_left (canonical_of_mem_canonicalItems items)
    rw [canonical, canonical, canonicalItems_eq (canonicalItems items), hitems, List.map_id']
  | .object members => by
    have hmembers : ∀ m ∈ sortMembers (canonicalMembers members), (m.1, m.2.canonical) = m := by
      intro m hm
      rw [canonical_of_mem_canonicalMembers members m (mem_of_mem_sortMembers hm)]
    rw [canonical, canonical, canonicalMembers_eq (sortMembers _), List.map_congr_left hmembers,
      List.map_id', sortMembers_sortMembers]

theorem canonical_of_mem_canonicalItems : ∀ items : List Json,
    ∀ v ∈ canonicalItems items, v.canonical = v
  | [] => List.forall_mem_nil _
  | v :: rest => List.forall_mem_cons.2 ⟨canonical_canonical v, canonical_of_mem_canonicalItems rest⟩

theorem canonical_of_mem_canonicalMembers : ∀ members : List (String × Json),
    ∀ m ∈ canonicalMembers members, m.2.canonical = m.2
  | [] => List.forall_mem_nil _
  | (_, v) :: rest =>
    List.forall_mem_cons.2 ⟨canonical_canonical v, canonical_of_mem_canonicalMembers rest⟩

end

end EnergyFormula.Json
