import NetScanner.Infra.Bytes

/-!
# String pools

A pool of byte strings that stores each distinct string once. `store` is how a string is
written into the pool (as it is, or behind its length, say).

The invariant is `Sound`: the pool holds every string it gave an offset for, at that offset.
`Holds.append` is what makes it last: the pool only grows at its end. `foldlM_records` is the rule
of a loop that writes a table of records that point into the pool.
-/

namespace NetScanner.Infra

/-- The bytes of the pool, and the offset of each string in it. -/
structure Pool where
  strings : Bytes := []
  offsets : List (Bytes × Nat) := []
deriving DecidableEq, Repr

/-- `data` stands at `offset`. -/
structure Holds (strings : Bytes) (offset : Nat) (data : Bytes) : Prop where
  fits : offset + data.length ≤ strings.length
  stands : slice strings offset (offset + data.length) = data

theorem Holds.append {strings data : Bytes} {offset : Nat} (h : Holds strings offset data)
    (more : Bytes) : Holds (strings ++ more) offset data := by
  constructor
  · rw [List.length_append]
    have := h.fits
    omega
  · rw [slice_append_left _ _ h.fits]
    exact h.stands

theorem holds_end (strings data : Bytes) : Holds (strings ++ data) strings.length data := by
  constructor
  · exact Nat.le_of_eq List.length_append.symm
  · have := slice_append_middle strings data []
    rwa [List.append_nil] at this

/-- A byte and what follows it. -/
theorem Holds.cons {strings data : Bytes} {offset : Nat} {b : UInt8}
    (h : Holds strings offset (b :: data)) :
    strings[offset]? = some b ∧ Holds strings (offset + 1) data := by
  have hfits := h.fits
  rw [List.length_cons] at hfits
  have hstands := h.stands
  rw [slice, List.length_cons, Nat.add_sub_cancel_left,
    List.drop_eq_getElem_cons (by omega : offset < strings.length), List.take_succ_cons,
    List.cons.injEq] at hstands
  refine ⟨?_, by omega, ?_⟩
  · rw [List.getElem?_eq_getElem (by omega), hstands.1]
  · rw [slice, Nat.add_sub_cancel_left]
    exact hstands.2

namespace Pool

variable (store : Bytes → Bytes)

/-- The offset of a string, which is added when the pool does not have it. -/
def intern (pool : Pool) (name : Bytes) : Pool × Nat :=
  match pool.offsets.lookup name with
  | some offset => (pool, offset)
  | none =>
    let offset := pool.strings.length
    ({ strings := pool.strings ++ store name, offsets := (name, offset) :: pool.offsets }, offset)

/-- The pool holds every string it has an offset for. -/
def Sound (pool : Pool) : Prop :=
  ∀ name offset, pool.offsets.lookup name = some offset → Holds pool.strings offset (store name)

theorem sound_empty : Sound store {} := by
  intro name offset h
  simp at h

/-- **What one `intern` does**: the string is in the pool at the offset, the pool has only grown
at its end, and by no more than the string. -/
theorem intern_spec {pool : Pool} (hsound : Sound store pool) (name : Bytes) :
    Sound store (pool.intern store name).1 ∧
      Holds (pool.intern store name).1.strings (pool.intern store name).2 (store name) ∧
      ∃ more, (pool.intern store name).1.strings = pool.strings ++ more ∧
        more.length ≤ (store name).length := by
  unfold intern
  cases hlookup : pool.offsets.lookup name with
  | some offset => exact ⟨hsound, hsound name offset hlookup, [], by simp, by simp⟩
  | none =>
    refine ⟨?_, holds_end _ _, store name, rfl, Nat.le_refl _⟩
    intro other offset h
    simp only [List.lookup_cons] at h
    split at h
    · next heq =>
      rw [beq_iff_eq] at heq
      rw [Option.some.injEq] at h
      rw [heq, ← h]
      exact holds_end _ _
    · exact (hsound other offset h).append _

/-- **The rule of a loop that writes a table beside a pool.** A turn adds one record, right for
its item in the pool as it is then; a record stays right as the pool grows, so in the end each
is. -/
theorem foldlM_records {σ α : Type} {store : Bytes → Bytes} (pool : σ → Pool) (table : σ → Bytes)
    {Record : Bytes → α → Bytes → Prop} {step : σ → α → Option σ} {P : α → Prop}
    {most limit : Nat}
    (happend : ∀ strings a bytes more, Record strings a bytes → Record (strings ++ more) a bytes)
    (hstep : ∀ s a, (pool s).Sound store → P a → (pool s).strings.length + most < limit →
      ∃ s' bytes more, step s a = some s' ∧ (pool s').Sound store ∧
        (pool s').strings = (pool s).strings ++ more ∧ more.length ≤ most ∧
        table s' = table s ++ bytes ∧ Record (pool s').strings a bytes)
    (items : List α) {s : σ} (hsound : (pool s).Sound store) (hitems : ∀ a ∈ items, P a)
    (hsize : (pool s).strings.length + most * items.length < limit) :
    ∃ s' records more, items.foldlM step s = some s' ∧
      (pool s').strings = (pool s).strings ++ more ∧ more.length ≤ most * items.length ∧
      table s' = table s ++ records.flatten ∧
      List.Forall₂ (Record (pool s').strings) items records := by
  induction items generalizing s with
  | nil =>
    refine ⟨s, [], [], rfl, ?_, Nat.zero_le _, ?_, .nil⟩
    · rw [List.append_nil]
    · rw [List.flatten_nil, List.append_nil]
  | cons item rest ih =>
    rw [List.length_cons, Nat.mul_add_one] at hsize
    have hfirst : (pool s).strings.length + most < limit := Nat.lt_of_le_of_lt (by omega) hsize
    obtain ⟨s₁, bytes, more, hrun₁, hsound₁, hmore, hlen, hbytes, hrecord⟩ :=
      hstep s item hsound (hitems item List.mem_cons_self) hfirst
    have hsize₁ : (pool s₁).strings.length + most * rest.length < limit := by
      rw [hmore, List.length_append]
      omega
    obtain ⟨s', records, more', hrun, hmore', hlen', hrecords, hall⟩ :=
      ih hsound₁ (fun a ha => hitems a (List.mem_cons_of_mem _ ha)) hsize₁
    refine ⟨s', bytes :: records, more ++ more', ?_, ?_, ?_, ?_, ?_⟩
    · rw [List.foldlM_cons, hrun₁]
      exact hrun
    · rw [hmore', hmore, List.append_assoc]
    · rw [List.length_append, List.length_cons, Nat.mul_add_one]
      omega
    · rw [hrecords, hbytes, List.flatten_cons, List.append_assoc]
    · refine .cons ?_ hall
      rw [hmore']
      exact happend _ _ _ more' hrecord

end Pool

end NetScanner.Infra
