import NetScanner.Infra.Bytes

/-!
# Arithmetic and memory that trap

A `Checked` computation is none where the program would trap: a number that does not fit its
width, or an index outside of its array. The lemma of an operation says when it does not.
-/

namespace NetScanner.Infra

/-- A computation that may trap. -/
abbrev Checked (α : Type) := Option α

namespace Checked

variable {α : Type} {bits a b : Nat} {xs : List α} {i j : Nat}

/-- `a + b` in `bits` bits. -/
def add (bits a b : Nat) : Checked Nat := if a + b < 2 ^ bits then some (a + b) else none

/-- `a - b`, unsigned. -/
def sub (a b : Nat) : Checked Nat := if b ≤ a then some (a - b) else none

/-- `a * b` in `bits` bits. -/
def mul (bits a b : Nat) : Checked Nat := if a * b < 2 ^ bits then some (a * b) else none

/-- `a / b`, rounded down. -/
def div (a b : Nat) : Checked Nat := if b = 0 then none else some (a / b)

/-- `a` as a number of `bits` bits. -/
def cast (bits a : Nat) : Checked Nat := if a < 2 ^ bits then some a else none

/-- `xs[i]`. -/
def get (xs : List α) (i : Nat) : Checked α := xs[i]?

/-- `xs[i] = x`. -/
def set (xs : List α) (i : Nat) (x : α) : Checked (List α) :=
  if i < xs.length then some (xs.set i x) else none

/-- `xs[i .. j]`. -/
def window (xs : List α) (i j : Nat) : Checked (List α) :=
  if i ≤ j ∧ j ≤ xs.length then some (slice xs i j) else none

theorem add_eq (h : a + b < 2 ^ bits) : add bits a b = some (a + b) := if_pos h

theorem sub_eq (h : b ≤ a) : sub a b = some (a - b) := if_pos h

theorem mul_eq (h : a * b < 2 ^ bits) : mul bits a b = some (a * b) := if_pos h

theorem div_eq (h : b ≠ 0) : div a b = some (a / b) := if_neg h

theorem cast_eq (h : a < 2 ^ bits) : cast bits a = some a := if_pos h

theorem get_eq (h : i < xs.length) : get xs i = some xs[i] := List.getElem?_eq_getElem h

theorem get_byteAt {bytes : Bytes} (h : i < bytes.length) :
    get bytes i = some (byteAt bytes i) := getElem?_of_lt h

theorem set_eq {x : α} (h : i < xs.length) : set xs i x = some (xs.set i x) := if_pos h

theorem window_eq (h : i ≤ j) (hj : j ≤ xs.length) : window xs i j = some (slice xs i j) :=
  if_pos ⟨h, hj⟩

/-- The part in the middle. -/
theorem window_append (before part after : List α) (hi : before.length = i)
    (hj : before.length + part.length = j) :
    window (before ++ (part ++ after)) i j = some part := by
  subst hi hj
  rw [window_eq (Nat.le_add_right _ _) (by simp), slice_append_middle]

theorem window_eq_none (h : xs.length < j) : window xs i j = none :=
  if_neg fun hin => absurd hin.2 (Nat.not_le.mpr h)

/-! ## Loops -/

/-- What one round of a loop does: another one follows, or the loop is left. -/
inductive Round (σ α : Type)
  | again (s : σ)
  | stop (a : α)

/-- A loop of at most `n` rounds: none also when it is not left by then. -/
def rounds {σ : Type} (step : σ → Checked (Round σ α)) : Nat → σ → Checked α
  | 0, _ => none
  | n + 1, s =>
    match step s with
    | none => none
    | some (.again s') => rounds step n s'
    | some (.stop a) => some a

section Rounds

variable {σ : Type} {step : σ → Checked (Round σ α)} {s s' : σ} {result : α}

theorem rounds_again (h : step s = some (.again s')) (n : Nat) :
    rounds step (n + 1) s = rounds step n s' := by
  rw [rounds, h]

theorem rounds_stop (h : step s = some (.stop result)) (n : Nat) :
    rounds step (n + 1) s = some result := by
  rw [rounds, h]

theorem rounds_trap (h : step s = none) (n : Nat) : rounds step n s = none := by
  cases n with
  | zero => rfl
  | succ n => rw [rounds, h]

end Rounds

/-- A round does what `result` says: it leaves the loop with the result, or the result stays the
same and the variant goes down. -/
def Round.Follows {σ : Type} (Inv : σ → Prop) (variant : σ → Nat) (result : σ → α) (s : σ) :
    Round σ α → Prop
  | .again s' => Inv s' ∧ variant s' < variant s ∧ result s' = result s
  | .stop a => a = result s

/-- **The rule of a loop with a variant.** The loop is left, without a trap, in no more rounds
than the variant allows. -/
theorem rounds_eq {σ : Type} {step : σ → Checked (Round σ α)} (Inv : σ → Prop)
    (variant : σ → Nat) (result : σ → α)
    (hstep : ∀ s, Inv s → ∃ r, step s = some r ∧ r.Follows Inv variant result s) {n : Nat} {s : σ}
    (hs : Inv s) (hn : variant s < n) : rounds step n s = some (result s) := by
  induction n generalizing s with
  | zero => omega
  | succ n ih =>
    obtain ⟨r, hr, hfollows⟩ := hstep s hs
    cases r with
    | again s' =>
      obtain ⟨hinv, hvariant, hresult⟩ := hfollows
      rw [rounds, hr, ← hresult]
      exact ih hinv (by omega)
    | stop a =>
      obtain rfl : a = result s := hfollows
      rw [rounds, hr]

/-- **The rule of a loop over a list.** Where the invariant holds no step traps, and the loop
computes what the step without traps does. -/
theorem foldlM_eq {σ : Type} {f : σ → α → Checked σ} {g : σ → α → σ} (Inv : σ → Prop)
    {P : α → Prop} (hrun : ∀ s a, Inv s → P a → f s a = some (g s a))
    (hinv : ∀ s a, Inv s → P a → Inv (g s a)) (l : List α) {s : σ} (hs : Inv s)
    (hl : ∀ a ∈ l, P a) : l.foldlM f s = some (l.foldl g s) ∧ Inv (l.foldl g s) := by
  induction l generalizing s with
  | nil => exact ⟨rfl, hs⟩
  | cons a l ih =>
    have ha := hl a List.mem_cons_self
    rw [List.foldlM_cons, hrun s a hs ha, Option.bind_eq_bind, Option.bind_some, List.foldl_cons]
    exact ih (hinv s a hs ha) fun b hb => hl b (List.mem_cons_of_mem _ hb)

end Checked

end NetScanner.Infra
