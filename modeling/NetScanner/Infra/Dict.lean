import Mathlib.Data.List.Nodup

/-!
# Dictionaries in the order of insertion

A list of items with distinct keys: a key that is assigned again keeps its place.
-/

namespace NetScanner.Infra

/-- A computation that succeeds goes through its first part. -/
theorem bind_eq_ok {ε β γ : Type} {x : Except ε β} {f : β → Except ε γ} {c : γ}
    (h : (x >>= f) = .ok c) : ∃ b, x = .ok b ∧ f b = .ok c := by
  cases x with
  | error failure => cases h
  | ok b => exact ⟨b, rfl, h⟩

structure Dict (κ α : Type) where
  items : List (κ × α) := []
  nodup : (items.map Prod.fst).Nodup := by exact List.nodup_nil

namespace Dict

variable {κ α : Type} [DecidableEq κ]

def keys (d : Dict κ α) : List κ := d.items.map Prod.fst

def get (d : Dict κ α) (k : κ) : Option α := d.items.lookup k

/-- The items, with a new value for one key. -/
def replaced (k : κ) (v : α) (items : List (κ × α)) : List (κ × α) :=
  items.map fun item => if item.1 = k then (k, v) else item

theorem map_fst_replaced (k : κ) (v : α) (items : List (κ × α)) :
    (replaced k v items).map Prod.fst = items.map Prod.fst := by
  induction items with
  | nil => rfl
  | cons item rest ih =>
    rw [replaced, List.map_cons, List.map_cons, List.map_cons]
    refine List.cons_eq_cons.mpr ⟨?_, ih⟩
    split
    · next h => exact h.symm
    · rfl

/-- `d[k] = v`. -/
def insert (d : Dict κ α) (k : κ) (v : α) : Dict κ α :=
  if h : k ∈ d.items.map Prod.fst then
    { items := replaced k v d.items
      nodup := by
        rw [map_fst_replaced]
        exact d.nodup }
  else
    { items := d.items ++ [(k, v)]
      nodup := by
        rw [List.map_append]
        refine d.nodup.append (List.nodup_singleton k) fun k' hk' hnew => h ?_
        rw [show k' = k from List.mem_singleton.mp hnew] at hk'
        exact hk' }

theorem lookup_eq_none_iff {items : List (κ × α)} {k : κ} :
    items.lookup k = none ↔ k ∉ items.map Prod.fst := by
  rw [List.lookup_eq_none_iff, List.mem_map, not_exists]
  constructor
  · rintro h item ⟨hitem, rfl⟩
    simpa using h item hitem
  · intro h item hitem
    rw [bne_iff_ne]
    rintro rfl
    exact h item ⟨hitem, rfl⟩

theorem mem_of_lookup {items : List (κ × α)} {k : κ} {v : α} (h : items.lookup k = some v) :
    (k, v) ∈ items := by
  obtain ⟨before, behind, rfl, _⟩ := List.lookup_eq_some_iff.mp h
  exact List.mem_append_right before List.mem_cons_self

theorem get_eq_none_iff {d : Dict κ α} {k : κ} : d.get k = none ↔ k ∉ d.keys :=
  lookup_eq_none_iff

theorem replaced_of_not_mem {items : List (κ × α)} {k : κ} {v : α} (h : k ∉ items.map Prod.fst) :
    replaced k v items = items := by
  refine (List.map_congr_left fun item hitem => if_neg ?_).trans (List.map_id items)
  rintro rfl
  exact h (List.mem_map_of_mem hitem)

theorem lookup_replaced {items : List (κ × α)} {k : κ} {v : α} (k' : κ)
    (h : k ∈ items.map Prod.fst) :
    (replaced k v items).lookup k' = if k' = k then some v else items.lookup k' := by
  induction items with
  | nil => cases h
  | cons item rest ih =>
    rw [replaced, List.map_cons, List.lookup_cons, List.lookup_cons]
    by_cases hitem : item.1 = k
    · rw [if_pos hitem]
      by_cases hk : k' = k
      · simp [hk]
      · have hne : (k' == k) = false := beq_eq_false_iff_ne.mpr hk
        have hrest : (replaced k v rest).lookup k' = rest.lookup k' := by
          by_cases hmem : k ∈ rest.map Prod.fst
          · rw [ih hmem, if_neg hk]
          · exact congrArg _ (replaced_of_not_mem hmem)
        rw [hitem, if_neg hk]
        simp only [hne]
        exact hrest
    · have hmem : k ∈ rest.map Prod.fst := by
        rcases List.mem_cons.mp h with heq | hmem
        · exact absurd heq.symm hitem
        · exact hmem
      rw [if_neg hitem]
      by_cases hk : k' = item.1
      · have hne : k' ≠ k := fun heq => hitem (hk.symm.trans heq)
        simp [hk, hitem]
      · have hne : (k' == item.1) = false := beq_eq_false_iff_ne.mpr hk
        simp only [hne]
        exact ih hmem

theorem get_insert (d : Dict κ α) (k k' : κ) (v : α) :
    (d.insert k v).get k' = if k' = k then some v else d.get k' := by
  unfold insert
  split
  · next h => exact lookup_replaced k' h
  · next h =>
    show (d.items ++ [(k, v)]).lookup k' = _
    rw [List.lookup_append]
    split
    · next heq =>
      rw [heq, lookup_eq_none_iff.mpr h, Option.none_or, List.lookup_cons, beq_self_eq_true]
    · next hne =>
      rw [List.lookup_cons, beq_eq_false_iff_ne.mpr hne]
      exact Option.or_none

/-! ## Reading a list into a dictionary -/

section Reading

variable {β ε : Type} {step : Dict κ α → β → Except ε (Dict κ α)} {told : β → Option (κ × α)}
  {P : κ → α → Prop}

/-- A step writes what it is told under a new key, or is told nothing and changes nothing. -/
def Writes (step : Dict κ α → β → Except ε (Dict κ α)) (told : β → Option (κ × α))
    (P : κ → α → Prop) : Prop :=
  ∀ d b d', step d b = .ok d' → (told b = none ∧ d' = d) ∨
    ∃ k v, told b = some (k, v) ∧ d.get k = none ∧ P k v ∧ d' = d.insert k v

/-- **A dictionary that was read has what the list tells.** -/
theorem get_foldlM (hstep : Writes step told P) {bs : List β} {d d' : Dict κ α}
    (h : bs.foldlM step d = .ok d') :
    (∀ k, d'.get k = (d.get k).or ((bs.filterMap told).lookup k)) ∧
      ∀ item ∈ bs.filterMap told, P item.1 item.2 := by
  induction bs generalizing d with
  | nil =>
    cases h
    exact ⟨fun k => Option.or_none.symm, fun item hitem => absurd hitem List.not_mem_nil⟩
  | cons b rest ih =>
    rw [List.foldlM_cons] at h
    obtain ⟨next, hb, h⟩ := bind_eq_ok h
    obtain ⟨hget, hall⟩ := ih h
    rcases hstep d b next hb with ⟨htold, rfl⟩ | ⟨k, v, htold, hnew, hv, rfl⟩
    · rw [List.filterMap_cons_none htold]
      exact ⟨hget, hall⟩
    · rw [List.filterMap_cons_some htold]
      refine ⟨fun k' => ?_, List.forall_mem_cons.mpr ⟨hv, hall⟩⟩
      rw [hget, get_insert, List.lookup_cons]
      by_cases hk : k' = k
      · subst hk
        rw [if_pos rfl, hnew, beq_self_eq_true]
        rfl
      · rw [if_neg hk, beq_eq_false_iff_ne.mpr hk]

end Reading

end Dict

end NetScanner.Infra
