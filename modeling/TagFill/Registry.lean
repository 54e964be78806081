/-! # Registries

Values under names, in the order of the names. A name has one value, the last one put there.
-/

namespace TagFill

@[ext]
structure Registry (α : Type) where
  entries : List (String × α)
  ordered : entries.Pairwise fun a b => a.1 < b.1

namespace Registry

variable {α : Type} {entries : List (String × α)} {entry : String × α} {name : String} {value : α}

def empty : Registry α := ⟨[], .nil⟩

def find? (r : Registry α) (name : String) : Option α := r.entries.lookup name

def names (r : Registry α) : List String := r.entries.map (·.1)

/-! ## Insertion -/

def insertEntry (name : String) (value : α) : List (String × α) → List (String × α)
  | [] => [(name, value)]
  | (other, old) :: rest =>
    if name = other then (name, value) :: rest
    else if name < other then (name, value) :: (other, old) :: rest
    else (other, old) :: insertEntry name value rest

theorem mem_insertEntry (h : entry ∈ insertEntry name value entries) :
    entry = (name, value) ∨ entry ∈ entries := by
  induction entries with
  | nil => simpa [insertEntry] using h
  | cons other entries ih =>
    obtain ⟨k, v⟩ := other
    unfold insertEntry at h
    split at h
    · exact (List.mem_cons.mp h).imp_right (List.mem_cons_of_mem _)
    · split at h
      · exact List.mem_cons.mp h
      · obtain rfl | hmem := List.mem_cons.mp h
        · exact .inr List.mem_cons_self
        · exact (ih hmem).imp_right (List.mem_cons_of_mem _)

theorem pairwise_insertEntry (h : entries.Pairwise fun a b => a.1 < b.1) (name : String)
    (value : α) : (insertEntry name value entries).Pairwise fun a b => a.1 < b.1 := by
  induction entries with
  | nil => simp [insertEntry]
  | cons other rest ih =>
    obtain ⟨k, v⟩ := other
    obtain ⟨hfirst, hrest⟩ := List.pairwise_cons.mp h
    unfold insertEntry
    split
    · rename_i heq
      exact List.pairwise_cons.mpr ⟨by simpa [heq] using hfirst, hrest⟩
    · rename_i hne
      split
      · rename_i hlt
        refine List.pairwise_cons.mpr ⟨?_, h⟩
        rw [List.forall_mem_cons]
        exact ⟨hlt, fun behind hbehind => String.lt_trans hlt (hfirst behind hbehind)⟩
      · -- The entry goes in further behind, so nothing else can be new there.
        rename_i hnot
        have hlt : k < name := Std.lt_of_le_of_ne (String.not_lt.mp hnot) (Ne.symm hne)
        refine List.pairwise_cons.mpr ⟨?_, ih hrest⟩
        intro behind hbehind
        obtain rfl | hmem := mem_insertEntry hbehind
        · exact hlt
        · exact hfirst behind hmem

def insert (r : Registry α) (name : String) (value : α) : Registry α :=
  ⟨insertEntry name value r.entries, pairwise_insertEntry r.ordered name value⟩

def ofList (entries : List (String × α)) : Registry α :=
  entries.foldl (fun r (name, value) => r.insert name value) empty

theorem mem_of_mem_ofList (h : entry ∈ (ofList entries).entries) : entry ∈ entries := by
  revert h
  unfold ofList
  refine List.foldlRecOn (motive := fun r : Registry α => entry ∈ r.entries → entry ∈ entries)
    entries _ ?_ ?_
  · exact fun h => absurd h List.not_mem_nil
  · intro r ih added hadded h
    obtain rfl | h := mem_insertEntry h
    · exact hadded
    · exact ih h

/-! ## Search -/

theorem mem_of_find? {r : Registry α} (h : r.find? name = some value) :
    (name, value) ∈ r.entries := by
  obtain ⟨before, rest, hentries, -⟩ := List.lookup_eq_some_iff.mp h
  simp [hentries]

@[simp] theorem find?_empty (name : String) : (empty : Registry α).find? name = none := rfl

theorem lookup_cons (name other : String) (value : α) (rest : List (String × α)) :
    ((name, value) :: rest).lookup other =
      if other = name then some value else rest.lookup other := by
  by_cases h : other = name
  · simp [h]
  · simp [List.lookup_cons, h, beq_eq_false_iff_ne.2 h]

theorem find?_insert (r : Registry α) (name other : String) (value : α) :
    (r.insert name value).find? other = if other = name then some value else r.find? other := by
  obtain ⟨entries, hordered⟩ := r
  simp only [find?, insert]
  clear hordered
  induction entries with
  | nil => simp [insertEntry, lookup_cons]
  | cons entry rest ih =>
    obtain ⟨k, v⟩ := entry
    unfold insertEntry
    split
    · subst k
      simp only [lookup_cons]
      split <;> rfl
    · split
      · simp [lookup_cons]
      · simp only [lookup_cons, ih]
        grind

end Registry

end TagFill
