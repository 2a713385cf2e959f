import Mathlib.Data.List.AList

/-!
# Reference counts

A table of objects that several owners share. Each object has a count, and the owners are a
list with one entry for each reference. `retain` and `release` of an object that is not in
the table fault.
-/
namespace Base

variable {β : Type}

structure Shared (β : Type) where
  value : β
  references : Nat
  deriving DecidableEq, Repr

abbrev SharedTable (β : Type) : Type := AList fun _ : Nat => Shared β

namespace SharedTable

/-- A new object with one reference. -/
def create (table : SharedTable β) (id : Nat) (value : β) : SharedTable β :=
  table.insert id ⟨value, 1⟩

def retain (table : SharedTable β) (id : Nat) : Option (SharedTable β) :=
  match table.lookup id with
  | some ⟨value, n⟩ => some (table.insert id ⟨value, n + 1⟩)
  | none => none

/-- The last reference takes the object away. -/
def release (table : SharedTable β) (id : Nat) : Option (SharedTable β) :=
  match table.lookup id with
  | some ⟨_, 1⟩ => some (table.erase id)
  | some ⟨value, n + 2⟩ => some (table.insert id ⟨value, n + 1⟩)
  | _ => none

def value (table : SharedTable β) (id : Nat) : Option β := (table.lookup id).map Shared.value

/-- Every count is the number of the owners' references, and what nobody refers to is not
in the table. -/
structure Counted (table : SharedTable β) (owners : List Nat) : Prop where
  references : ∀ id s, table.lookup id = some s → s.references = owners.count id
  owned : ∀ id s, table.lookup id = some s → id ∈ owners
  present : ∀ id ∈ owners, ∃ s, table.lookup id = some s

variable {table : SharedTable β} {owners : List Nat} {id : Nat}

theorem Counted.perm {others : List Nat} (counted : table.Counted owners)
    (same : owners.Perm others) : table.Counted others := by
  constructor
  · intro id s found
    rw [counted.references id s found, same.count_eq]
  · intro id s found
    exact same.mem_iff.mp (counted.owned id s found)
  · intro id member
    exact counted.present id (same.mem_iff.mpr member)

theorem counted_empty : (∅ : SharedTable β).Counted [] := by
  constructor
  · intro id s found
    simp at found
  · intro id s found
    simp at found
  · intro id member
    cases member

/-- An object whose count is set to the number of its references, where the references to
others stay as they are. -/
theorem Counted.insert {others : List Nat} (counted : table.Counted owners)
    (elsewhere : ∀ k, k ≠ id → others.count k = owners.count k) (owned : id ∈ others) (v : β) :
    SharedTable.Counted (table.insert id ⟨v, others.count id⟩) others := by
  have same_members : ∀ k, k ≠ id → (k ∈ others ↔ k ∈ owners) := by
    intro k other
    rw [← List.count_pos_iff, elsewhere k other, List.count_pos_iff]
  constructor
  · intro k s found
    by_cases same : k = id
    · subst same
      rw [AList.lookup_insert, Option.some.injEq] at found
      rw [← found]
    · rw [AList.lookup_insert_ne same] at found
      rw [counted.references k s found, elsewhere k same]
  · intro k s found
    by_cases same : k = id
    · exact same ▸ owned
    · rw [AList.lookup_insert_ne same] at found
      exact (same_members k same).mpr (counted.owned k s found)
  · intro k member
    by_cases same : k = id
    · subst same
      exact ⟨_, AList.lookup_insert _⟩
    · rw [AList.lookup_insert_ne same]
      exact counted.present k ((same_members k same).mp member)

theorem Counted.create (counted : table.Counted owners) (fresh : table.lookup id = none) (v : β) :
    (table.create id v).Counted (id :: owners) := by
  have unowned : id ∉ owners := by
    intro member
    obtain ⟨s, found⟩ := counted.present id member
    rw [fresh] at found
    cases found
  have one : (id :: owners).count id = 1 := by
    rw [List.count_cons_self, List.count_eq_zero_of_not_mem unowned]
  rw [SharedTable.create, ← one]
  exact counted.insert (fun k other => List.count_cons_of_ne (Ne.symm other)) (by simp) v

theorem value_insert {v : β} {n m : Nat} (found : table.lookup id = some ⟨v, n⟩) (k : Nat) :
    value (table.insert id ⟨v, m⟩) k = table.value k := by
  unfold value
  by_cases same : k = id
  · subst same
    rw [AList.lookup_insert, found]
    rfl
  · rw [AList.lookup_insert_ne same]

theorem Counted.retain (counted : table.Counted owners) (member : id ∈ owners) :
    ∃ table', table.retain id = some table' ∧ table'.Counted (id :: owners) ∧
      ∀ k, table'.value k = table.value k := by
  obtain ⟨⟨v, n⟩, found⟩ := counted.present id member
  have count : (id :: owners).count id = n + 1 := by
    rw [List.count_cons_self, ← counted.references id _ found]
  refine ⟨table.insert id ⟨v, n + 1⟩, by simp [SharedTable.retain, found], ?_, value_insert found⟩
  rw [← count]
  exact counted.insert (fun k other => List.count_cons_of_ne (Ne.symm other)) (by simp) v

/-- A release by an owner does not fault. The object stays while there are other owners. -/
theorem Counted.release (counted : table.Counted (id :: owners)) :
    ∃ table', table.release id = some table' ∧ table'.Counted owners ∧
      (∀ k ∈ owners, table'.value k = table.value k) ∧
      ∀ k v, table'.value k = some v → table.value k = some v := by
  obtain ⟨⟨v, n⟩, found⟩ := counted.present id (by simp)
  have count : n = owners.count id + 1 := by
    simpa using counted.references id _ found
  by_cases last : id ∈ owners
  · -- The count is at least two, so that one reference is left.
    obtain ⟨rest, positive⟩ : ∃ rest, owners.count id = rest + 1 :=
      Nat.exists_eq_add_one.mpr (List.count_pos_iff.mpr last)
    have two : n = rest + 2 := by omega
    rw [two] at found
    refine ⟨table.insert id ⟨v, rest + 1⟩, by simp [SharedTable.release, found], ?_,
      fun k _ => value_insert found k, fun k w here => by rw [← here, value_insert found]⟩
    rw [← positive]
    exact counted.insert (fun k other => (List.count_cons_of_ne (Ne.symm other)).symm) last v
  · have one : n = 1 := by rw [count, List.count_eq_zero_of_not_mem last]
    rw [one] at found
    refine ⟨table.erase id, by simp [SharedTable.release, found], ?_, ?_, ?_⟩
    · constructor
      · intro k s here
        by_cases same : k = id
        · subst same
          simp at here
        · rw [AList.lookup_erase_ne same] at here
          rw [counted.references k s here, List.count_cons_of_ne (Ne.symm same)]
      · intro k s here
        by_cases same : k = id
        · subst same
          simp at here
        · rw [AList.lookup_erase_ne same] at here
          simpa [same] using counted.owned k s here
      · intro k owned
        have other : k ≠ id := fun same => last (same ▸ owned)
        rw [AList.lookup_erase_ne other]
        exact counted.present k (List.mem_cons_of_mem _ owned)
    · intro k owned
      have other : k ≠ id := fun same => last (same ▸ owned)
      simp only [value, AList.lookup_erase_ne other]
    · intro k w here
      by_cases same : k = id
      · subst same
        simp [value] at here
      · simpa only [value, AList.lookup_erase_ne same] using here

end SharedTable

end Base
