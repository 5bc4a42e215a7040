import Mathlib.Data.List.Perm.Basic

/-!
# Handles

An operating system names what a program has open by numbers, and may give a number out again
once it is closed. `Handles α` is what the open numbers stand for.
-/

namespace NetScanner.Infra

open scoped List

variable {α : Type*}

/-- The open handles, each with what it stands for. -/
abbrev Handles (α : Type*) := List (Nat × α)

namespace Handles

/-- The numbers in use. -/
def names (t : Handles α) : List Nat := t.map Prod.fst

/-- What an open handle stands for. -/
def find (t : Handles α) (name : Nat) : Option α := t.lookup name

/-- The table once a handle is closed. -/
def close (t : Handles α) (name : Nat) : Handles α := t.filter fun p => p.1 ≠ name

theorem find_cons (p : Nat × α) (t : Handles α) (name : Nat) :
    find (p :: t) name = if name = p.1 then some p.2 else find t name := by
  unfold find
  rw [List.lookup_cons]
  by_cases h : name = p.1
  · rw [if_pos h, beq_iff_eq.mpr h]
  · rw [if_neg h, beq_eq_false_iff_ne.mpr h]

theorem find_of_mem {t : Handles α} (ht : t.names.Nodup) {name : Nat} {a : α}
    (h : (name, a) ∈ t) : t.find name = some a := by
  induction t with
  | nil => cases h
  | cons p t ih =>
    obtain ⟨hp, ht⟩ := List.nodup_cons.mp ht
    rw [find_cons]
    rcases List.mem_cons.mp h with rfl | h
    · rw [if_pos rfl]
    · have hne : name ≠ p.1 := by
        rintro rfl
        exact hp (List.mem_map.mpr ⟨_, h, rfl⟩)
      rw [if_neg hne]
      exact ih ht h

theorem close_eq_self {t : Handles α} {name : Nat} (h : name ∉ t.names) : t.close name = t := by
  refine List.filter_eq_self.mpr fun p hp => ?_
  have hne : p.1 ≠ name := by
    rintro rfl
    exact h (List.mem_map.mpr ⟨_, hp, rfl⟩)
  simpa using hne

theorem nodup_close {t : Handles α} (ht : t.names.Nodup) (name : Nat) :
    (t.close name).names.Nodup :=
  ht.sublist (List.filter_sublist.map Prod.fst)

/-- **Closing a handle takes it from the table and nothing else.** -/
theorem cons_close_perm {t : Handles α} (ht : t.names.Nodup) {name : Nat} {a : α}
    (h : (name, a) ∈ t) : (name, a) :: t.close name ~ t := by
  induction t with
  | nil => cases h
  | cons p t ih =>
    obtain ⟨hp, ht⟩ := List.nodup_cons.mp ht
    rcases List.mem_cons.mp h with rfl | h
    · have hclose : Handles.close ((name, a) :: t) name = t := by
        calc Handles.close ((name, a) :: t) name
            = Handles.close t name := List.filter_cons_of_neg (by simp)
          _ = t := close_eq_self hp
      rw [hclose]
    · have hne : p.1 ≠ name := by
        rintro rfl
        exact hp (List.mem_map.mpr ⟨_, h, rfl⟩)
      have hclose : Handles.close (p :: t) name = p :: Handles.close t name :=
        List.filter_cons_of_pos (by simpa using hne)
      rw [hclose]
      exact (List.Perm.swap _ _ _).trans ((ih ht h).cons p)

end Handles

end NetScanner.Infra
