import NetScanner.Infra.Bytes

/-!
# Records at aligned offsets

Records one after the other, each padded to a multiple of four bytes; the last one may end with
less padding than that, or none (`Laid`).
-/

namespace NetScanner.Infra

/-- What is missing of a multiple of four. -/
def padding (n : Nat) : Nat := (4 - n % 4) % 4

/-- The bytes of the records, in order. -/
inductive Laid {α : Type} (bytes : α → Bytes) : List α → Bytes → Prop
  | nil : Laid bytes [] []
  | last (a : α) (pad : Bytes) : pad.length ≤ padding (bytes a).length →
      Laid bytes [a] (bytes a ++ pad)
  | more {a : α} {as : List α} {pad rest : Bytes} : pad.length = padding (bytes a).length →
      as ≠ [] → Laid bytes as rest → Laid bytes (a :: as) (bytes a ++ (pad ++ rest))

variable {α : Type} {bytes : α → Bytes} {as : List α} {buf : Bytes}

/-- There are no more records than bytes. -/
theorem Laid.length_le (h : Laid bytes as buf) (hpos : ∀ a, 0 < (bytes a).length) :
    as.length ≤ buf.length := by
  induction h with
  | nil => exact Nat.le_refl 0
  | last a pad hpad =>
    have ha := hpos a
    rw [List.length_append, List.length_singleton]
    omega
  | @more a as pad rest hpad hne hrest ih =>
    have ha := hpos a
    rw [List.length_append, List.length_append, List.length_cons]
    omega

end NetScanner.Infra
