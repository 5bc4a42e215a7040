import NetScanner.Infra.Lts
import Mathlib.Logic.Function.Basic

/-!
# Ctrl+C while the status line is up

`src/core/interrupt.zig`, `Live.begin` and `Live.end` of `src/core/live.zig`, and the end of the
scans in `src/core/main.zig`: an interactive scan, the ticker of its status line, and the handlers
that run when Ctrl+C is pressed, on whichever thread the system picks.

The first press asks the scan to stop, the second quits. `first_press_keeps_results` says what each
way out of the process means, in every interleaving; `second_press_quits` that nothing the scan or
the ticker does holds the second press up; and `results_erased_late` that what it erases is the
status line and not the results, but for a handler on a thread of its own that comes late.
-/

namespace NetScanner.Live

open Infra

/-! ## The state -/

/-- A thread that a handler may run on: of the program, or of the system. -/
inductive Thread where
  | main
  | ticker
  | other (i : Nat)
deriving DecidableEq, Repr

/-- What SIGINT does. -/
inductive Disposition where
  | default
  | handler
  | ignored
deriving DecidableEq, Repr

/-- Where a handler stands. -/
inductive HandlerPc where
  /-- About to set `stop_requested`. -/
  | swap
  /-- In `eraseStatusLine`, about to read `erase_on_quit`. -/
  | look
  /-- About to write the sequence that erases. -/
  | write
  | restore
  | raise
  /-- About to return, perhaps to a signal that ends the process. -/
  | leave (quitting : Bool)
deriving DecidableEq, Repr

/-- The press was not the first. -/
def HandlerPc.second : HandlerPc → Bool
  | .swap => false
  | .leave quitting => quitting
  | _ => true

/-- Where the main thread stands. -/
inductive MainPc where
  | install
  /-- In `begin`: `std.Progress.start`, then the ticker, then `eraseStatusLineOnQuit`. -/
  | start
  | spawn
  | escape
  | scan
  /-- In `end`, about to see whether there is a ticker. -/
  | endTicker
  | eraseOff
  | stopSet
  | join
  | rootEnd
  | clear
  /-- Back in the scan or in `main`, with results to print. -/
  | print
  /-- At the end of the scan, about to ask whether a stop was requested. -/
  | check
  /-- No, so `main` returns. -/
  | done
  /-- In `exitInterrupted`. -/
  | restore
  | raise
deriving DecidableEq, Repr

/-- Before the handler is in, or on the way out. -/
def MainPc.late : MainPc → Bool
  | .install | .done | .restore | .raise => true
  | _ => false

/-- The results are out. -/
def MainPc.over : MainPc → Bool
  | .check | .done | .restore | .raise => true
  | _ => false

inductive TickerPc where
  | absent
  | running
  | ended
deriving DecidableEq, Repr

/-- How the process ends. -/
inductive Exit where
  | status (code : Nat)
  /-- As an unhandled Ctrl+C would have ended it. -/
  | killed
deriving DecidableEq, Repr

structure Session where
  disposition : Disposition
  /-- `stop_requested` -/
  stop : Bool := false
  /-- `erase_on_quit` -/
  erase : Bool := false
  /-- `Live.ticker` is there. -/
  tickerSet : Bool := false
  /-- `Live.stop` -/
  stopEvent : Bool := false
  escapeCodes : Bool := false
  failed : Bool := false
  /-- How many lines of the results are on the terminal. -/
  printed : Nat := 0
  /-- They are all there. -/
  results : Bool := false
  /-- An erasing sequence was written when some of them were there already. -/
  erased : Bool := false
  main : MainPc := .install
  ticker : TickerPc := .absent
  handler : Thread → Option HandlerPc := fun _ => none
  exited : Option Exit := none

/-- What the main thread meets at one step. -/
structure MainEnv where
  /-- `std.Progress` has somewhere to draw. -/
  drawn : Bool := true
  spawned : Bool := true
  escapeCodes : Bool := true
  /-- The scan fails. -/
  failed : Bool := false
  /-- The scan calls `end` once more after its results, as a subnet scan does. -/
  again : Bool := true
  /-- SIGINT is blocked, so raising it does nothing. -/
  blocked : Bool := false
deriving DecidableEq, Repr

/-- Who moves. -/
inductive Label where
  /-- Ctrl+C reaches a thread. -/
  | press (t : Thread)
  | handler (t : Thread)
  | main (env : MainEnv)
  | ticker
deriving DecidableEq, Repr

/-! ## The steps -/

section Steps

variable (windows : Bool) (total : Nat)

/-- `install`: an ignored SIGINT stays ignored; the console always takes a handler. -/
def install (current : Disposition) : Disposition :=
  if windows = false ∧ current = .ignored then .ignored else .handler

namespace Session

variable (s : Session)

def setHandler (t : Thread) (pc : Option HandlerPc) : Session :=
  { s with handler := Function.update s.handler t pc }

/-- Where `end` returns to. -/
def afterEnd : MainPc := if s.results then .check else .print

/-- A sequence that erases from the cursor's line on reaches the terminal. -/
def wipe : Session := { s with erased := s.erased || decide (0 < s.printed) }

/-- SIGINT is blocked on a thread while its handler runs there, and Windows makes a thread for the
handler. -/
def canPress (t : Thread) : Bool :=
  decide (s.handler t = none) &&
    match t with
    | .main => !windows
    | .ticker => !windows && decide (s.ticker = .running)
    | .other _ => true

def press (t : Thread) : Option Session :=
  if s.canPress windows t then
    some (match s.disposition with
      | .default => { s with exited := some .killed }
      | .ignored => s
      | .handler => s.setHandler t (some .swap))
  else none

/-- What comes after the status line: on Windows the default handler quits. -/
def quitting : HandlerPc := if windows then .leave true else .restore

/-- `handleSigint`, or `handleConsoleCtrl`. -/
def handle (t : Thread) : Option Session :=
  match s.handler t with
  | none => none
  | some .swap =>
    some { s.setHandler t (some (if s.stop then .look else .leave false)) with stop := true }
  | some .look => some (s.setHandler t (some (if s.erase then .write else quitting windows)))
  | some .write => some (s.wipe.setHandler t (some (quitting windows)))
  | some .restore => some { s.setHandler t (some .raise) with disposition := .default }
  | some .raise => some (s.setHandler t (some (.leave true)))
  | some (.leave true) =>
    -- the raised signal arrives as the handler returns
    some (match windows, s.disposition with
      | true, _ => { s with exited := some .killed }
      | false, .default => { s with exited := some .killed }
      | false, .ignored => s.setHandler t none
      | false, .handler => s.setHandler t (some .swap))
  | some (.leave false) => some (s.setHandler t none)

def mainStep (env : MainEnv) : Option Session :=
  match s.main with
  | .install => some { s with disposition := install windows s.disposition, main := .start }
  | .start => some { s with main := if env.drawn then .spawn else .scan }
  | .spawn =>
    if env.spawned then some { s with tickerSet := true, ticker := .running, main := .escape }
    else some { s.wipe with main := .scan }
  | .escape =>
    some { s with escapeCodes := env.escapeCodes, erase := env.escapeCodes, main := .scan }
  | .scan => some { s with failed := env.failed, main := .endTicker }
  | .endTicker => some { s with main := if s.tickerSet then .eraseOff else s.afterEnd }
  | .eraseOff => some { s with erase := false, main := .stopSet }
  | .stopSet => some { s with stopEvent := true, main := .join }
  | .join =>
    if s.ticker = .ended then some { s with tickerSet := false, main := .rootEnd } else none
  | .rootEnd => some { s.wipe with main := .clear }
  | .clear =>
    some { (if s.escapeCodes then s.wipe else s) with main := s.afterEnd }
  | .print =>
    if s.failed then some { s with exited := some (.status 1) }
    else if s.printed < total then some { s with printed := s.printed + 1 }
    else some { s with results := true, main := if env.again then .endTicker else .check }
  | .check => some { s with main := if s.stop then .restore else .done }
  | .done => some { s with exited := some (.status 0) }
  | .restore =>
    if windows then some { s with exited := some .killed }
    else some { s with disposition := .default, main := .raise }
  | .raise => some { s with exited := some (if env.blocked then .status 130 else .killed) }

/-- A turn of the ticker: it redraws until it is told to stop. -/
def tick : Option Session :=
  match s.ticker with
  | .running => some (if s.stopEvent then { s with ticker := .ended } else s)
  | _ => none

/-- A thread does not go on while a handler runs on it. -/
def step : Label → Option Session
  | .press t => if s.exited = none then s.press windows t else none
  | .handler t => if s.exited = none then s.handle windows t else none
  | .main env =>
    if s.exited = none ∧ s.handler .main = none then s.mainStep windows total env else none
  | .ticker => if s.exited = none ∧ s.handler .ticker = none then s.tick else none

end Session

/-- An interactive scan with `total` lines of results. -/
def session : Lts Session Label where
  init s := ∃ current, current ≠ .handler ∧ s = { disposition := current }
  step := Session.step windows total

end Steps

/-! ## What the presses do -/

/-- What a watcher knows of the presses. -/
structure Presses where
  /-- Those whose handler has looked at the flag. -/
  noted : Nat := 0
  /-- How many they were when the main thread looked at it at the end. -/
  checked : Option Nat := none
deriving DecidableEq, Repr

def notePress (p : Presses) (s : Session) : Label → Presses
  | .handler t => if s.handler t = some .swap then { p with noted := p.noted + 1 } else p
  | .main _ => if s.main = .check then { p with checked := some p.noted } else p
  | _ => p

/-- The main thread saw at the end that a handler had noted one. -/
def Presses.Seen (p : Presses) : Prop := ∃ k, p.checked = some (k + 1)

section Presses

theorem install_ne_default (windows : Bool) (current : Disposition) :
    install windows current ≠ .default := by
  unfold install
  split <;> simp

variable {windows : Bool} {total : Nat} {p : Presses} {s s' : Session}

/-- What the flags, the threads and the exit have to do with the presses so far. -/
structure Session.Counted (windows : Bool) (total : Nat) (s : Session) (p : Presses) :
    Prop where
  stop : s.stop = true ↔ 1 ≤ p.noted
  second : ∀ t pc, s.handler t = some pc → pc.second = true → 2 ≤ p.noted
  fresh : s.main = .install → s.disposition ≠ .handler ∧ ∀ t, s.handler t = none
  /-- The default is back for whoever quits, and for nobody else. -/
  raised : windows = false → ∀ t, s.handler t = some .raise ∨ s.handler t = some (.leave true) →
    s.disposition = .default
  default : s.disposition = .default → s.main = .install ∨ 2 ≤ p.noted ∨ s.main = .raise
  printed : s.printed ≤ total ∧ (s.results = true → s.printed = total)
  ended : s.main.over = true → s.results = true
  done : s.main = .done → p.checked = some 0
  leaving : s.main = .restore ∨ s.main = .raise → 1 ≤ p.noted ∧ p.Seen
  exit : ∀ code, s.exited = some (.status code) →
    code = 0 ∧ p.checked = some 0 ∧ s.results = true ∨ code = 130 ∧ p.Seen ∧ s.results = true ∨
      code = 1 ∧ s.failed = true
  killed : s.exited = some .killed →
    s.main = .install ∨ 2 ≤ p.noted ∨ 1 ≤ p.noted ∧ s.results = true

namespace Session

theorem setHandler_self (s : Session) (t : Thread) (pc : Option HandlerPc) :
    (s.setHandler t pc).handler t = pc := by
  simp [setHandler]

theorem setHandler_of_ne (s : Session) {t t' : Thread} (pc : Option HandlerPc) (ht : t' ≠ t) :
    (s.setHandler t pc).handler t' = s.handler t' := by
  simp [setHandler, ht]

namespace Counted

/-- The process ends. -/
theorem ends (h : s.Counted windows total p) {exit : Exit}
    (hexit : ∀ code, exit = .status code →
      code = 0 ∧ p.checked = some 0 ∧ s.results = true ∨ code = 130 ∧ p.Seen ∧ s.results = true ∨
        code = 1 ∧ s.failed = true)
    (hkilled : exit = .killed → s.main = .install ∨ 2 ≤ p.noted ∨ 1 ≤ p.noted ∧ s.results = true) :
    { s with exited := some exit }.Counted windows total p :=
  ⟨h.stop, h.second, h.fresh, h.raised, h.default, h.printed, h.ended, h.done, h.leaving,
    fun code hcode => hexit code (Option.some.inj hcode),
    fun hexited => hkilled (Option.some.inj hexited)⟩

/-- Where the default is back, a signal ends the process as it should. -/
theorem killed_default (h : s.Counted windows total p) (hd : s.disposition = .default) :
    { s with exited := some .killed }.Counted windows total p := by
  refine h.ends (fun code hcode => by cases hcode) fun _ => ?_
  rcases h.default hd with hmain | htwo | hmain
  · exact .inl hmain
  · exact .inr (.inl htwo)
  · exact .inr (.inr ⟨(h.leaving (.inr hmain)).1, h.ended (by rw [hmain]; rfl)⟩)

theorem back (h : s.Counted windows total p) (t : Thread) :
    windows = false → s.handler t = some (.leave true) → s.disposition = .default :=
  fun hposix hleave => h.raised hposix t (.inr hleave)

/-- A handler goes on. -/
theorem setHandler (h : s.Counted windows total p) {t : Thread} {pc : Option HandlerPc}
    (hmain : s.main ≠ .install) (hsecond : ∀ pc', pc = some pc' → pc'.second = true → 2 ≤ p.noted)
    (hraised : windows = false → pc = some .raise ∨ pc = some (.leave true) →
      s.disposition = .default) : (s.setHandler t pc).Counted windows total p := by
  refine ⟨h.stop, ?_, fun hinstall => absurd hinstall hmain, ?_, h.default, h.printed, h.ended,
    h.done, h.leaving, h.exit, h.killed⟩
  · intro t' pc' hpc'
    by_cases ht : t' = t
    · subst ht
      rw [setHandler_self] at hpc'
      exact hsecond pc' hpc'
    · rw [setHandler_of_ne _ _ ht] at hpc'
      exact h.second t' pc' hpc'
  · intro hposix t' hpc'
    by_cases ht : t' = t
    · subst ht
      rw [setHandler_self] at hpc'
      exact hraised hposix hpc'
    · rw [setHandler_of_ne _ _ ht] at hpc'
      exact h.raised hposix t' hpc'

theorem press (h : s.Counted windows total p) {t : Thread}
    (hs : s.press windows t = some s') : s'.Counted windows total p := by
  unfold Session.press at hs
  split at hs
  · cases hs
    split
    · next hd => exact h.killed_default hd
    · exact h
    · next hd =>
      refine h.setHandler (fun hmain => (h.fresh hmain).1 hd) ?_ (fun _ hpc => by simp at hpc)
      intro pc' hpc'
      cases hpc'
      exact fun hfalse => absurd hfalse (by decide)
  · cases hs

/-- One more press, whose handler has set the flag. -/
theorem looked (h : s.Counted windows total p) (hexited : s.exited = none) :
    { s with stop := true }.Counted windows total { p with noted := p.noted + 1 } where
  stop := ⟨fun _ => Nat.le_add_left 1 p.noted, fun _ => rfl⟩
  second t pc hpc hsecond := Nat.le_succ_of_le (h.second t pc hpc hsecond)
  fresh := h.fresh
  raised := h.raised
  default hd := (h.default hd).imp_right (Or.imp_left Nat.le_succ_of_le)
  printed := h.printed
  ended := h.ended
  done := h.done
  leaving hmain := (h.leaving hmain).imp_left Nat.le_succ_of_le
  exit code hcode := by
    rw [show s.exited = some (.status code) from hcode] at hexited
    cases hexited
  killed hkilled := by
    rw [show s.exited = some .killed from hkilled] at hexited
    cases hexited

theorem handle (h : s.Counted windows total p) (hexited : s.exited = none) {t : Thread}
    (hs : s.handle windows t = some s') :
    s'.Counted windows total (notePress p s (.handler t)) := by
  unfold Session.handle at hs
  have hmain : s.handler t ≠ none → s.main ≠ .install := fun hhandler hinstall =>
    hhandler ((h.fresh hinstall).2 t)
  have hnote : s.handler t ≠ some .swap → notePress p s (.handler t) = p := fun hne => if_neg hne
  have hquitting : ∀ pc, quitting windows = pc → pc.second = true ∧
      (windows = false → pc ≠ .raise ∧ pc ≠ .leave true) := by
    rintro pc rfl
    cases windows <;> simp [quitting, HandlerPc.second]
  split at hs
  · cases hs
  · next hpc =>
    cases hs
    have hcount : notePress p s (.handler t) = { p with noted := p.noted + 1 } := if_pos hpc
    rw [hcount]
    refine (h.looked hexited).setHandler (hmain (by rw [hpc]; simp)) ?_ ?_
    · intro pc' hpc' hsecond
      cases hpc'
      split at hsecond
      · next hstop => exact Nat.succ_le_succ (h.stop.mp hstop)
      · cases hsecond
    · intro _ hpc'
      split at hpc' <;> simp at hpc'
  · next hpc =>
    cases hs
    rw [hnote (by rw [hpc]; simp)]
    have htwo := h.second t _ hpc rfl
    refine h.setHandler (hmain (by rw [hpc]; simp)) (fun _ _ _ => htwo) fun hposix hpc' => ?_
    split at hpc'
    · simp at hpc'
    · have hno := (hquitting _ rfl).2 hposix
      simp only [Option.some.injEq] at hpc'
      exact absurd hpc' (not_or.mpr hno)
  · next hpc =>
    cases hs
    rw [hnote (by rw [hpc]; simp)]
    have htwo := h.second t _ hpc rfl
    have hwiped : s.wipe.Counted windows total p :=
      ⟨h.stop, h.second, h.fresh, h.raised, h.default, h.printed, h.ended, h.done, h.leaving,
        h.exit, h.killed⟩
    refine hwiped.setHandler (hmain (by rw [hpc]; simp)) (fun _ _ _ => htwo)
      fun hposix hpc' => ?_
    have hno := (hquitting _ rfl).2 hposix
    simp only [Option.some.injEq] at hpc'
    exact absurd hpc' (not_or.mpr hno)
  · next hpc =>
    cases hs
    rw [hnote (by rw [hpc]; simp)]
    have htwo := h.second t _ hpc rfl
    have hback : { s with disposition := .default }.Counted windows total p :=
      ⟨h.stop, h.second, fun hinstall => ⟨by simp, (h.fresh hinstall).2⟩, fun _ _ _ => rfl,
        fun _ => .inr (.inl htwo), h.printed, h.ended, h.done, h.leaving, h.exit, h.killed⟩
    exact hback.setHandler (hmain (by rw [hpc]; simp)) (fun _ _ _ => htwo) fun _ _ => rfl
  · next hpc =>
    cases hs
    rw [hnote (by rw [hpc]; simp)]
    have htwo := h.second t _ hpc rfl
    exact h.setHandler (hmain (by rw [hpc]; simp)) (fun _ _ _ => htwo) fun hposix _ =>
      h.raised hposix t (.inl hpc)
  · next hpc =>
    cases hs
    rw [hnote (by rw [hpc]; simp)]
    have htwo := h.second t _ hpc rfl
    have hkilled : { s with exited := some .killed }.Counted windows total p :=
      h.ends (fun code hcode => by cases hcode) fun _ => .inr (.inl htwo)
    split
    · exact hkilled
    · exact hkilled
    · next hd =>
      rw [h.raised rfl t (.inr hpc)] at hd
      cases hd
    · next hd =>
      rw [h.raised rfl t (.inr hpc)] at hd
      cases hd
  · next hpc =>
    cases hs
    rw [hnote (by rw [hpc]; simp)]
    exact h.setHandler (hmain (by rw [hpc]; simp)) (fun _ hpc' => by cases hpc')
      fun _ hpc' => by simp at hpc'

/-- The main thread goes on, and what it does has nothing to do with presses. -/
theorem goes (h : s.Counted windows total p) (hexited : s.exited = none)
    (hlate : s.main.late = false) (hstop : s'.stop = s.stop) (hhandler : s'.handler = s.handler)
    (hexited' : s'.exited = s.exited) (hdisposition : s'.disposition = s.disposition)
    (hprinted : s'.printed ≤ total ∧ (s'.results = true → s'.printed = total))
    (hnext : s'.main.late = false ∧ s'.main ≠ .check ∨ s'.main = .check ∧ s'.results = true) :
    s'.Counted windows total p := by
  have hnever {pc : MainPc} (hpc : pc.late = true) : s'.main ≠ pc := by
    rintro rfl
    rcases hnext with ⟨hno, -⟩ | ⟨hcheck, -⟩
    · rw [hpc] at hno
      cases hno
    · rw [hcheck] at hpc
      cases hpc
  refine ⟨by rw [hstop]; exact h.stop, by rw [hhandler]; exact h.second,
    fun hmain => absurd hmain (hnever rfl), by rw [hhandler, hdisposition]; exact h.raised, ?_,
    hprinted, ?_, fun hmain => absurd hmain (hnever rfl), ?_, ?_, ?_⟩
  · intro hd
    rw [hdisposition] at hd
    rcases h.default hd with hmain | htwo | hmain
    · simp [hmain, MainPc.late] at hlate
    · exact .inr (.inl htwo)
    · simp [hmain, MainPc.late] at hlate
  · intro hover
    rcases hnext with ⟨hlate, hcheck⟩ | ⟨-, hresults⟩
    · revert hover hlate hcheck
      cases s'.main <;> simp [MainPc.over, MainPc.late]
    · exact hresults
  · rintro (hmain | hmain)
    · exact absurd hmain (hnever rfl)
    · exact absurd hmain (hnever rfl)
  · intro code hcode
    rw [hexited', hexited] at hcode
    cases hcode
  · intro hkilled
    rw [hexited', hexited] at hkilled
    cases hkilled

theorem afterEnd (s : Session) : s.afterEnd.late = false ∧ s.afterEnd ≠ .check ∨
    s.afterEnd = .check ∧ s.results = true := by
  unfold Session.afterEnd
  split
  · next hresults => exact .inr ⟨rfl, hresults⟩
  · exact .inl (by decide)

/-- The handler is in, and nobody has pressed anything yet. -/
theorem installed (h : s.Counted windows total p) (hexited : s.exited = none)
    (hmain : s.main = .install) :
    { s with disposition := install windows s.disposition, main := .start }.Counted
      windows total p := by
  have hnone := (h.fresh hmain).2
  refine ⟨h.stop, h.second, fun hinstall => (by cases hinstall), ?_, ?_, h.printed,
    fun hover => (by cases hover), fun hdone => (by cases hdone), ?_, ?_, ?_⟩
  · intro _ t hpc
    rcases hpc with hpc | hpc
    · exact absurd (hnone t) (by rw [show s.handler t = _ from hpc]; simp)
    · exact absurd (hnone t) (by rw [show s.handler t = _ from hpc]; simp)
  · intro hd
    exact absurd hd (install_ne_default _ _)
  · rintro (hmain | hmain) <;> cases hmain
  · intro code hcode
    rw [show s.exited = _ from hcode] at hexited
    cases hexited
  · intro hkilled
    rw [show s.exited = _ from hkilled] at hexited
    cases hexited

/-- `exitInterrupted`: the results are out, and there was a press. -/
theorem quits (h : s.Counted windows total p) (hexited : s.exited = none)
    (hresults : s.results = true) (hpressed : 1 ≤ p.noted ∧ p.Seen) {d : Disposition} {pc : MainPc}
    (hpc : pc = .restore ∨ pc = .raise)
    (hdisposition : d = .default ∨ d = s.disposition)
    (hdefault : d = .default → 2 ≤ p.noted ∨ pc = .raise) :
    { s with disposition := d, main := pc }.Counted windows total p := by
  refine ⟨h.stop, h.second, fun hinstall => ?_, ?_, fun hd => .inr (hdefault hd), h.printed,
    fun _ => hresults, fun hdone => ?_, fun _ => hpressed, ?_, ?_⟩
  · rcases hpc with rfl | rfl <;> cases hinstall
  · intro hposix t hraised
    rcases hdisposition with rfl | rfl
    · rfl
    · exact h.raised hposix t hraised
  · rcases hpc with rfl | rfl <;> cases hdone
  · intro code hcode
    rw [show s.exited = _ from hcode] at hexited
    cases hexited
  · intro hkilled
    rw [show s.exited = _ from hkilled] at hexited
    cases hexited

/-- The main thread looks at the flag at the end. -/
theorem check (h : s.Counted windows total p) (hexited : s.exited = none)
    (hmain : s.main = .check) :
    { s with main := if s.stop then .restore else .done }.Counted windows total
      { p with checked := some p.noted } := by
  have hresults := h.ended (by rw [hmain]; rfl)
  have hdefault : s.disposition = .default → 2 ≤ p.noted := by
    intro hd
    simpa [hmain] using h.default hd
  refine ⟨h.stop, h.second, fun hinstall => ?_, h.raised, fun hd => .inr (.inl (hdefault hd)),
    h.printed, fun _ => hresults, fun hdone => ?_, fun hleaving => ?_, fun code hcode => ?_,
    fun hkilled => ?_⟩
  · split at hinstall <;> cases hinstall
  · split at hdone
    · cases hdone
    · next hstop => exact congrArg some (Nat.lt_one_iff.mp (Nat.not_le.mp (mt h.stop.mpr hstop)))
  · split at hleaving
    · next hstop =>
      obtain ⟨k, hk⟩ := Nat.exists_eq_add_of_le' (h.stop.mp hstop)
      exact ⟨h.stop.mp hstop, k, congrArg some hk⟩
    · rcases hleaving with hleaving | hleaving <;> cases hleaving
  · rw [show s.exited = _ from hcode] at hexited
    cases hexited
  · rw [show s.exited = _ from hkilled] at hexited
    cases hexited

theorem main (h : s.Counted windows total p) (hexited : s.exited = none) {env : MainEnv}
    (hs : s.mainStep windows total env = some s') :
    s'.Counted windows total (notePress p s (.main env)) := by
  by_cases hcheck : s.main = .check
  · rw [notePress, if_pos hcheck]
    simp only [Session.mainStep, hcheck] at hs
    cases hs
    exact h.check hexited hcheck
  rw [notePress, if_neg hcheck]
  unfold Session.mainStep at hs
  have hgoes (hlate : s.main.late = false) {s' : Session} (hstop : s'.stop = s.stop)
      (hhandler : s'.handler = s.handler) (hexited' : s'.exited = s.exited)
      (hdisposition : s'.disposition = s.disposition) (hresults : s'.results = s.results)
      (hprinted : s'.printed = s.printed)
      (hnext : s'.main.late = false ∧ s'.main ≠ .check ∨ s'.main = .check ∧ s.results = true) :
      s'.Counted windows total p :=
    h.goes hexited hlate hstop hhandler hexited' hdisposition
      (by rw [hresults, hprinted]; exact h.printed) (by rw [hresults]; exact hnext)
  split at hs
  · next hmain =>
    cases hs
    exact h.installed hexited hmain
  · next hmain =>
    cases hs
    refine hgoes (by rw [hmain]; rfl) rfl rfl rfl rfl rfl rfl (.inl ?_)
    split <;> exact ⟨rfl, by simp⟩
  · next hmain =>
    split at hs
    · cases hs
      exact hgoes (by rw [hmain]; rfl) rfl rfl rfl rfl rfl rfl (.inl ⟨rfl, by simp⟩)
    · cases hs
      exact hgoes (by rw [hmain]; rfl) rfl rfl rfl rfl rfl rfl (.inl ⟨rfl, by simp⟩)
  · next hmain =>
    cases hs
    exact hgoes (by rw [hmain]; rfl) rfl rfl rfl rfl rfl rfl (.inl ⟨rfl, by simp⟩)
  · next hmain =>
    cases hs
    exact hgoes (by rw [hmain]; rfl) rfl rfl rfl rfl rfl rfl (.inl ⟨rfl, by simp⟩)
  · next hmain =>
    cases hs
    refine hgoes (by rw [hmain]; rfl) rfl rfl rfl rfl rfl rfl ?_
    split
    · exact .inl ⟨rfl, by simp⟩
    · exact afterEnd s
  · next hmain =>
    cases hs
    exact hgoes (by rw [hmain]; rfl) rfl rfl rfl rfl rfl rfl (.inl ⟨rfl, by simp⟩)
  · next hmain =>
    cases hs
    exact hgoes (by rw [hmain]; rfl) rfl rfl rfl rfl rfl rfl (.inl ⟨rfl, by simp⟩)
  · next hmain =>
    split at hs
    · cases hs
      exact hgoes (by rw [hmain]; rfl) rfl rfl rfl rfl rfl rfl (.inl ⟨rfl, by simp⟩)
    · cases hs
  · next hmain =>
    cases hs
    exact hgoes (by rw [hmain]; rfl) rfl rfl rfl rfl rfl rfl (.inl ⟨rfl, by simp⟩)
  · next hmain =>
    cases hs
    refine hgoes (by rw [hmain]; rfl) ?_ ?_ ?_ ?_ ?_ ?_ (afterEnd s) <;> split <;> rfl
  · next hmain =>
    split at hs
    · next hfailed =>
      cases hs
      exact h.ends (fun code hcode => .inr (.inr ⟨by cases hcode; rfl, hfailed⟩))
        fun hkilled => by cases hkilled
    · split at hs
      · next hprinted =>
        cases hs
        refine h.goes hexited (by rw [hmain]; rfl) rfl rfl rfl rfl ⟨hprinted, fun hresults => ?_⟩
          (.inl ⟨by rw [hmain]; rfl, by rw [hmain]; simp⟩)
        exact absurd (h.printed.2 hresults) (Nat.ne_of_lt hprinted)
      · next hprinted =>
        cases hs
        have htotal : s.printed = total := Nat.le_antisymm h.printed.1 (Nat.not_lt.mp hprinted)
        refine h.goes hexited (by rw [hmain]; rfl) rfl rfl rfl rfl ⟨h.printed.1, fun _ => htotal⟩ ?_
        split
        · exact .inl ⟨rfl, by simp⟩
        · exact .inr ⟨rfl, rfl⟩
  · next hmain => exact absurd hmain hcheck
  · next hmain =>
    cases hs
    exact h.ends (fun code hcode => .inl ⟨by cases hcode; rfl, h.done hmain,
      h.ended (by rw [hmain]; rfl)⟩) fun hkilled => by cases hkilled
  · next hmain =>
    have hresults := h.ended (by rw [hmain]; rfl)
    have hpressed := h.leaving (.inl hmain)
    split at hs
    · cases hs
      exact h.ends (fun code hcode => by cases hcode) fun _ => .inr (.inr ⟨hpressed.1, hresults⟩)
    · cases hs
      exact h.quits hexited hresults hpressed (.inr rfl) (.inl rfl) fun _ => .inr rfl
  · next hmain =>
    have hresults := h.ended (by rw [hmain]; rfl)
    have hpressed := h.leaving (.inr hmain)
    cases hs
    refine h.ends (fun code hcode => ?_) fun _ => .inr (.inr ⟨hpressed.1, hresults⟩)
    split at hcode
    · exact .inr (.inl ⟨by cases hcode; rfl, hpressed.2, hresults⟩)
    · cases hcode

theorem tick (h : s.Counted windows total p) (hs : s.tick = some s') :
    s'.Counted windows total p := by
  unfold Session.tick at hs
  split at hs
  · split at hs
    · cases hs
      exact ⟨h.stop, h.second, h.fresh, h.raised, h.default, h.printed, h.ended, h.done, h.leaving,
        h.exit, h.killed⟩
    · cases hs
      exact h
  · cases hs

theorem of_init (h : (session windows total).init s) : s.Counted windows total {} := by
  obtain ⟨current, hcurrent, rfl⟩ := h
  exact ⟨by simp, by simp, fun _ => ⟨hcurrent, by simp⟩, by simp, by simp, by simp,
    by simp [MainPc.over], by simp, by simp, by simp, by simp⟩

theorem step (h : s.Counted windows total p) {l : Label}
    (hs : (session windows total).step s l = some s') :
    s'.Counted windows total (notePress p s l) := by
  cases l with
  | press t =>
    obtain ⟨_, hs⟩ := Option.ite_none_right_eq_some.mp hs
    exact h.press hs
  | handler t =>
    obtain ⟨hexited, hs⟩ := Option.ite_none_right_eq_some.mp hs
    exact h.handle hexited hs
  | main env =>
    obtain ⟨⟨hexited, _⟩, hs⟩ := Option.ite_none_right_eq_some.mp hs
    exact h.main hexited hs
  | ticker =>
    obtain ⟨_, hs⟩ := Option.ite_none_right_eq_some.mp hs
    exact h.tick hs

/-- The presses are counted in every interleaving. -/
theorem of_reachable {w : Session × Presses}
    (h : ((session windows total).watch {} notePress).Reachable w) :
    w.1.Counted windows total w.2 := by
  refine h.invariant (I := fun w => w.1.Counted windows total w.2) ?_ ?_
  · rintro ⟨s, p⟩ ⟨hinit, rfl⟩
    exact of_init hinit
  · intro w l w' _ hw hs
    obtain ⟨hs, hp⟩ := Lts.watch_step hs
    rw [hp]
    exact hw.step hs

end Counted

end Session

/--
**The first press keeps the results.**

In every interleaving of the main thread, the ticker and the handlers: a run that ends well has all
its lines on the terminal, and no handler had noted a press of Ctrl+C when the main thread looked at
the end; status 130 has them too, and one had; and a process that dies of Ctrl+C before they are all
there was not set up yet or was told twice.
-/
theorem first_press_keeps_results {exit : Exit}
    (h : ((session windows total).watch {} notePress).Reachable (s, p))
    (hexited : s.exited = some exit) :
    exit = .status 0 ∧ p.checked = some 0 ∧ s.printed = total ∨
      exit = .status 130 ∧ (∃ k, p.checked = some (k + 1)) ∧ s.printed = total ∨
      exit = .status 1 ∧ s.failed = true ∨
      exit = .killed ∧
        (s.main = .install ∨ 2 ≤ p.noted ∨ 1 ≤ p.noted ∧ s.printed = total) := by
  have hc := Session.Counted.of_reachable h
  cases exit with
  | status code =>
    rcases hc.exit code hexited with ⟨rfl, hp, hresults⟩ | ⟨rfl, hp, hresults⟩ | ⟨rfl, hfailed⟩
    · exact .inl ⟨rfl, hp, hc.printed.2 hresults⟩
    · exact .inr (.inl ⟨rfl, hp, hc.printed.2 hresults⟩)
    · exact .inr (.inr (.inl ⟨rfl, hfailed⟩))
  | killed =>
    refine .inr (.inr (.inr ⟨rfl, ?_⟩))
    exact (hc.killed hexited).imp_right (Or.imp_right (And.imp_right hc.printed.2))

/-- Two scans of one line, on a system that blocks SIGINT. In the first the ticker's thread gets a
press in time; in the second a press comes when the main thread has looked already. -/
def pressedAt (late : Bool) : Option (Session × Presses) :=
  let press : List Label := [.press .ticker, .handler .ticker, .handler .ticker]
  let scan : List Label := List.replicate 4 (.main {}) ++ (if late then [] else press) ++
    List.replicate 4 (.main {}) ++ [.ticker] ++ List.replicate 7 (.main {})
  let lastPress : List Label := [.press (.other 0), .handler (.other 0)]
  ((session false 1).watch {} notePress).exec ({ disposition := .default }, {})
    (scan ++ if late then lastPress ++ [.main {}] else [.main {}, .main { blocked := true }])

theorem first_press_keeps_results_twice :
    (∃ w, pressedAt false = some w ∧ w.1.exited = some (.status 130) ∧
      (∃ k, w.2.checked = some (k + 1)) ∧ w.1.printed = 1) ∧
    ∃ w, pressedAt true = some w ∧ w.1.exited = some (.status 0) ∧ w.2.checked = some 0 ∧
      w.1.printed = 1 ∧ w.2.noted = 1 := by
  constructor
  · have hend : (pressedAt false).map (fun w => w.1.exited) = some (some (.status 130)) := by decide
    obtain ⟨w, hrun, hexited⟩ := Option.map_eq_some_iff.mp hend
    have h := first_press_keeps_results ⟨_, _, ⟨⟨.default, by decide, rfl⟩, rfl⟩, hrun⟩ hexited
    refine ⟨w, hrun, hexited, ?_⟩
    simpa using h
  · have hend : (pressedAt true).map (fun w => (w.1.exited, w.2.noted)) =
        some (some (.status 0), 1) := by decide
    obtain ⟨w, hrun, hval⟩ := Option.map_eq_some_iff.mp hend
    obtain ⟨hexited, hnoted⟩ := Prod.mk.inj hval
    have h := first_press_keeps_results ⟨_, _, ⟨⟨.default, by decide, rfl⟩, rfl⟩, hrun⟩ hexited
    obtain ⟨hchecked, hprinted⟩ : w.2.checked = some 0 ∧ w.1.printed = 1 := by simpa using h
    exact ⟨w, hrun, hexited, hchecked, hprinted, hnoted⟩

end Presses

/-! ## The second press -/

section Second

variable {windows : Bool} {total : Nat} {s s' : Session} {l : Label} {t : Thread}

/-- How many steps a handler that is not the first takes until the process ends. -/
def HandlerPc.steps : HandlerPc → Nat
  | .swap => 6
  | .look => 5
  | .write => 4
  | .restore => 3
  | .raise => 2
  | .leave _ => 1

namespace Session

theorem mainStep_keeps {env : MainEnv} (hs : s.mainStep windows total env = some s') :
    s'.handler = s.handler ∧ s'.stop = s.stop := by
  unfold Session.mainStep at hs
  split at hs <;> (try split at hs) <;> (try split at hs) <;> cases hs <;> exact ⟨rfl, rfl⟩

/-- A handler moves itself only, and never takes the flag back. -/
theorem handle_keeps (hs : s.handle windows t = some s') :
    (∀ t', t' ≠ t → s'.handler t' = s.handler t') ∧ (s.stop = true → s'.stop = true) := by
  have hset (s₀ : Session) (pc : Option HandlerPc) (hhandler : s₀.handler = s.handler)
      (hstop : s₀.stop = s.stop) : (∀ t', t' ≠ t → (s₀.setHandler t pc).handler t' = s.handler t') ∧
        (s.stop = true → (s₀.setHandler t pc).stop = true) :=
    ⟨fun t' ht' => by rw [setHandler_of_ne _ _ ht', hhandler], fun h => hstop.trans h⟩
  unfold Session.handle at hs
  split at hs
  · cases hs
  · cases hs
    exact ⟨fun t' ht' => setHandler_of_ne _ _ ht', fun _ => rfl⟩
  · cases hs
    exact hset s _ rfl rfl
  · cases hs
    exact hset s.wipe _ rfl rfl
  · cases hs
    exact hset { s with disposition := .default } _ rfl rfl
  · cases hs
    exact hset s _ rfl rfl
  · cases hs
    split
    · exact ⟨fun _ _ => rfl, id⟩
    · exact ⟨fun _ _ => rfl, id⟩
    · exact hset s _ rfl rfl
    · exact hset s _ rfl rfl
  · cases hs
    exact hset s _ rfl rfl

/-- A handler that is not the first goes on until the process ends. -/
theorem handle_quits {pc : HandlerPc} (hpc : s.handler t = some pc)
    (hsecond : pc.second = true ∨ pc = .swap ∧ s.stop = true)
    (hraised : windows = false → s.handler t = some (.leave true) → s.disposition = .default) :
    ∃ s', s.handle windows t = some s' ∧ (s'.exited = some .killed ∨
      ∃ pc', s'.handler t = some pc' ∧ pc'.second = true ∧ pc'.steps < pc.steps) := by
  unfold Session.handle
  rw [hpc]
  have hquitting : (quitting windows).second = true ∧ (quitting windows).steps < 4 := by
    cases windows <;> exact ⟨rfl, by decide⟩
  cases pc with
  | swap =>
    have hstop : s.stop = true := by simpa [HandlerPc.second] using hsecond
    refine ⟨_, rfl, .inr ⟨.look, ?_, rfl, by decide⟩⟩
    simp [hstop, setHandler_self]
  | look =>
    refine ⟨_, rfl, .inr ⟨_, setHandler_self s t _, ?_⟩⟩
    split
    · exact ⟨rfl, by decide⟩
    · exact ⟨hquitting.1, Nat.lt_of_lt_of_le hquitting.2 (by decide)⟩
  | write => exact ⟨_, rfl, .inr ⟨_, setHandler_self s.wipe t _, hquitting⟩⟩
  | restore => exact ⟨_, rfl, .inr ⟨.raise, setHandler_self s t _, rfl, by decide⟩⟩
  | raise => exact ⟨_, rfl, .inr ⟨_, setHandler_self s t _, rfl, by decide⟩⟩
  | leave quits =>
    obtain rfl : quits = true := by simpa [HandlerPc.second] using hsecond
    refine ⟨_, rfl, .inl ?_⟩
    cases windows with
    | true => rfl
    | false => simp [hraised rfl hpc]

/-- Nobody moves once the process has ended. -/
theorem step_going (hs : s.step windows total l = some s') : s.exited = none := by
  cases l with
  | press t => exact (Option.ite_none_right_eq_some.mp hs).1
  | handler t => exact (Option.ite_none_right_eq_some.mp hs).1
  | main env => exact (Option.ite_none_right_eq_some.mp hs).1.1
  | ticker => exact (Option.ite_none_right_eq_some.mp hs).1.1

/-- Nobody moves a handler but itself. -/
theorem step_keeps {pc : HandlerPc} (hs : s.step windows total l = some s')
    (hl : l ≠ .handler t) (hpc : s.handler t = some pc) :
    s'.handler t = some pc ∧ (s.stop = true → s'.stop = true) := by
  cases l with
  | press t' =>
    obtain ⟨_, hs⟩ := Option.ite_none_right_eq_some.mp hs
    obtain ⟨hcan, hs⟩ := Option.ite_none_right_eq_some.mp hs
    have hne : t ≠ t' := by
      rintro rfl
      simp [canPress, hpc] at hcan
    cases hs
    split
    · exact ⟨hpc, id⟩
    · exact ⟨hpc, id⟩
    · exact ⟨(setHandler_of_ne s _ hne).trans hpc, id⟩
  | handler t' =>
    obtain ⟨_, hs⟩ := Option.ite_none_right_eq_some.mp hs
    have hne : t ≠ t' := fun htt' => hl (by rw [htt'])
    obtain ⟨hhandler, hstop⟩ := handle_keeps hs
    exact ⟨(hhandler t hne).trans hpc, hstop⟩
  | main env =>
    obtain ⟨_, hs⟩ := Option.ite_none_right_eq_some.mp hs
    obtain ⟨hhandler, hstop⟩ := mainStep_keeps hs
    exact ⟨hhandler ▸ hpc, fun h => hstop.trans h⟩
  | ticker =>
    obtain ⟨_, hs⟩ := Option.ite_none_right_eq_some.mp hs
    unfold tick at hs
    split at hs
    · split at hs <;> cases hs <;> exact ⟨hpc, id⟩
    · cases hs

/-- No handler ran so far. -/
structure Quiet (s : Session) : Prop where
  handler : ∀ t, s.handler t = none
  stop : s.stop = false

theorem handle_frame (hs : s.handle windows t = some s') :
    (s'.disposition = .ignored → s.disposition = .ignored) ∧ s'.main = s.main := by
  unfold Session.handle at hs
  split at hs <;> cases hs
  all_goals first | exact ⟨id, rfl⟩ | skip
  · exact ⟨fun hd => (by cases hd), rfl⟩
  · split <;> exact ⟨id, rfl⟩

theorem mainStep_frame {env : MainEnv} (hs : s.mainStep windows total env = some s') :
    (s'.disposition = .ignored → s.disposition = .ignored) ∧ s'.main ≠ .install := by
  unfold Session.mainStep at hs
  split at hs
  · cases hs
    refine ⟨fun hd => ?_, by simp⟩
    unfold install at hd
    split at hd
    · next h => exact h.2
    · cases hd
  all_goals grind [wipe, afterEnd]

/-- Where SIGINT was ignored, no handler ever runs. -/
theorem quiet_of_ignored (h : (session windows total).Reachable s) :
    s.disposition = .ignored ∨ s.main = .install → s.Quiet ∧ s.disposition ≠ .handler := by
  refine h.invariant (I := fun s => s.disposition = .ignored ∨ s.main = .install →
    s.Quiet ∧ s.disposition ≠ .handler) ?_ ?_
  · rintro s ⟨current, hcurrent, rfl⟩ _
    exact ⟨⟨fun _ => rfl, rfl⟩, hcurrent⟩
  · intro s l s' _ ih hs hstill
    cases l with
    | press t =>
      obtain ⟨_, hs⟩ := Option.ite_none_right_eq_some.mp hs
      obtain ⟨_, hs⟩ := Option.ite_none_right_eq_some.mp hs
      cases hs
      split at hstill
      · obtain ⟨hquiet, hd⟩ := ih hstill
        exact ⟨⟨hquiet.handler, hquiet.stop⟩, hd⟩
      · exact ih hstill
      · next hd => exact absurd hd (ih hstill).2
    | handler t =>
      obtain ⟨_, hs⟩ := Option.ite_none_right_eq_some.mp hs
      obtain ⟨hdisposition, hmain⟩ := handle_frame hs
      have hquiet := (ih (hstill.imp hdisposition (hmain ▸ id))).1
      simp [Session.handle, hquiet.handler t] at hs
    | main env =>
      obtain ⟨_, hs⟩ := Option.ite_none_right_eq_some.mp hs
      obtain ⟨hdisposition, hmain⟩ := mainStep_frame hs
      have hignored := hstill.resolve_right hmain
      obtain ⟨hhandler, hstop⟩ := mainStep_keeps hs
      have hquiet := (ih (.inl (hdisposition hignored))).1
      exact ⟨⟨hhandler ▸ hquiet.handler, hstop.trans hquiet.stop⟩, by simp [hignored]⟩
    | ticker =>
      obtain ⟨_, hs⟩ := Option.ite_none_right_eq_some.mp hs
      unfold tick at hs
      split at hs
      · split at hs
        · cases hs
          obtain ⟨hquiet, hd⟩ := ih hstill
          exact ⟨⟨hquiet.handler, hquiet.stop⟩, hd⟩
        · cases hs
          exact ih hstill
      · cases hs

end Session

/-- What is left of a handler that is not the first. -/
def Session.Quits (t : Thread) (labels : List Label) (s : Session) : Prop :=
  s.exited = none → ∃ pc, s.handler t = some pc ∧ (pc.second = true ∨ pc = .swap ∧ s.stop = true) ∧
    labels.count (.handler t) + pc.steps ≤ 6

/--
**The second press quits.**

From any state in which the flag is set, whoever the press reaches: as long as the process goes on,
the handler can go on too, whatever the scan, the ticker and other handlers do, and no more than
five of its steps leave the process going.
-/
theorem second_press_quits {s₁ : Session} {labels : List Label}
    (h : (session windows total).Reachable s) (hstop : s.stop = true)
    (hpress : (session windows total).step s (.press t) = some s₁)
    (hrun : (session windows total).exec s₁ labels = some s') (hexited : s'.exited = none) :
    labels.count (.handler t) < 6 ∧
      ∃ s'', (session windows total).step s' (.handler t) = some s'' := by
  have hreach (labels : List Label) (s : Session)
      (hrun : (session windows total).exec s₁ labels = some s) :
      ∃ p, s.Counted windows total p := by
    obtain ⟨s₀, labels₀, hinit, h₀⟩ := h
    have hwhole : (session windows total).Reachable s := by
      refine ⟨s₀, labels₀ ++ .press t :: labels, hinit, ?_⟩
      rw [Lts.exec_append, h₀, Option.bind_some, Lts.exec_cons, hpress]
      exact hrun
    obtain ⟨p, hp⟩ := hwhole.watched {} notePress
    exact ⟨p, Session.Counted.of_reachable hp⟩
  have hquits : s'.Quits t labels := by
    refine Lts.exec_induction (P := fun labels s => s.Quits t labels) ?_ ?_ hrun
    · intro hexited
      obtain ⟨_, hs⟩ := Option.ite_none_right_eq_some.mp hpress
      obtain ⟨_, hs⟩ := Option.ite_none_right_eq_some.mp hs
      cases hs
      split at hexited
      · cases hexited
      · next hd =>
        have hquiet := (Session.quiet_of_ignored h (.inl hd)).1
        rw [hquiet.stop] at hstop
        cases hstop
      · next hd =>
        exact ⟨.swap, Session.setHandler_self s t _, .inr ⟨rfl, hstop⟩, by simp [HandlerPc.steps]⟩
    · intro labels l s s' hlabels hs hstep hexited'
      have hexited := Session.step_going hstep
      obtain ⟨pc, hpc, hsecond, hcount⟩ := hs hexited
      by_cases hl : l = .handler t
      · subst hl
        obtain ⟨p, hc⟩ := hreach labels s hlabels
        obtain ⟨s'', hs'', hdone⟩ := Session.handle_quits hpc hsecond (hc.back t)
        obtain rfl : s'' = s' := by
          have hstep' := (Option.ite_none_right_eq_some.mp hstep).2
          rw [hs''] at hstep'
          exact Option.some.inj hstep'
        rcases hdone with hkilled | ⟨pc', hpc', hsecond', hsteps⟩
        · rw [hkilled] at hexited'
          cases hexited'
        · refine ⟨pc', hpc', .inl hsecond', ?_⟩
          rw [List.count_append, List.count_singleton_self]
          omega
      · obtain ⟨hpc', hstop'⟩ := Session.step_keeps hstep hl hpc
        refine ⟨pc, hpc', hsecond.imp_right (And.imp_right hstop'), ?_⟩
        rw [List.count_append, List.count_singleton, if_neg (by simpa using hl)]
        exact hcount
  obtain ⟨pc, hpc, hsecond, hcount⟩ := hquits hexited
  obtain ⟨p, hc⟩ := hreach labels s' hrun
  obtain ⟨s'', hs'', _⟩ := Session.handle_quits hpc hsecond (hc.back t)
  have hpos : 0 < pc.steps := by cases pc <;> exact Nat.succ_pos _
  exact ⟨by omega, s'', (if_pos hexited).trans hs''⟩

/-- The scan has begun, and the first press is over. -/
def pressed : Option Session :=
  (session false 3).exec { disposition := .default }
    [.main {}, .main {}, .press .main, .handler .main, .handler .main]

theorem second_press_quits_ticker : ∃ s s₁ s', pressed = some s ∧
    (session false 3).step s (.press (.other 0)) = some s₁ ∧
    (session false 3).exec s₁ [.handler (.other 0), .main {}, .handler (.other 0), .ticker] =
      some s' ∧ ∃ s'', (session false 3).step s' (.handler (.other 0)) = some s'' := by
  have hpressed : pressed.map Session.stop = some true := by decide
  obtain ⟨s, hs, hstop⟩ := Option.map_eq_some_iff.mp hpressed
  have hrun : (pressed.bind fun s => ((session false 3).step s (.press (.other 0))).bind fun s₁ =>
      ((session false 3).exec s₁ [.handler (.other 0), .main {}, .handler (.other 0), .ticker]).map
        Session.exited) = some none := by decide
  rw [hs, Option.bind_some, Option.bind_eq_some_iff] at hrun
  obtain ⟨s₁, hpress, hrun⟩ := hrun
  obtain ⟨s', hrun, hexited⟩ := Option.map_eq_some_iff.mp hrun
  have h := second_press_quits ⟨_, _, ⟨.default, by decide, rfl⟩, hs⟩ hstop hpress hrun hexited
  exact ⟨s, s₁, s', hs, hpress, hrun, h.2⟩

end Second

/-! ## What a second press erases -/

section Erased

variable {windows : Bool} {total : Nat} {s s' : Session} {l : Label} {t : Thread}

/-- A watcher notes that the main thread turned `erase_on_quit` off between the moment a handler on
a thread of its own read it and the moment that handler writes. -/
def noteLate (late : Prop) (s : Session) : Label → Prop
  | .main _ => late ∨ s.main = .eraseOff ∧ ∃ i, s.handler (.other i) = some .write
  | _ => late

/-- Between `begin` and the join in `end`. -/
def MainPc.drawing : MainPc → Bool
  | .escape | .scan | .endTicker | .eraseOff | .stopSet | .join => true
  | _ => false

/-- Not once the results are being printed. -/
def MainPc.unprinted : MainPc → Bool
  | .print | .check | .done | .restore | .raise | .endTicker => false
  | _ => true

/-- While something may still erase, there is nothing but the status line to lose. -/
structure Session.Safe (s : Session) : Prop where
  erase : s.erase = true → s.tickerSet = true ∧
    (s.main = .scan ∨ s.main = .endTicker ∨ s.main = .eraseOff)
  drawing : s.tickerSet = true → s.main.drawing = true ∧ s.printed = 0
  escape : s.main = .escape → s.tickerSet = true
  unprinted : s.main.unprinted = true → s.printed = 0
  ticking : s.ticker = .running → s.tickerSet = true
  onTicker : s.handler .ticker ≠ none → s.ticker = .running
  writing : ∀ t, s.handler t = some .write → t = .ticker ∨ s.erase = true
  erased : s.erased = false

namespace Session.Safe

/-- What a handler may write over, while nothing late happened: the status line. -/
theorem printed_of_writing (h : s.Safe) (hpc : s.handler t = some .write) : s.printed = 0 := by
  refine (h.drawing ?_).2
  rcases h.writing t hpc with rfl | herase
  · exact h.ticking (h.onTicker (by rw [hpc]; simp))
  · exact (h.erase herase).1

theorem setHandler (h : s.Safe) {pc : Option HandlerPc}
    (honTicker : t = .ticker → pc ≠ none → s.ticker = .running)
    (hwriting : pc = some .write → t = .ticker ∨ s.erase = true) : (s.setHandler t pc).Safe := by
  refine ⟨h.erase, h.drawing, h.escape, h.unprinted, h.ticking, ?_, ?_, h.erased⟩
  · by_cases ht : Thread.ticker = t
    · rw [ht, Session.setHandler_self]
      exact honTicker ht.symm
    · rw [Session.setHandler_of_ne _ _ ht]
      exact h.onTicker
  · intro t' hpc
    by_cases ht : t' = t
    · subst ht
      rw [Session.setHandler_self] at hpc
      exact hwriting hpc
    · rw [Session.setHandler_of_ne _ _ ht] at hpc
      exact h.writing t' hpc

theorem press (h : s.Safe) (hs : s.press windows t = some s') : s'.Safe := by
  obtain ⟨hcan, hs⟩ := Option.ite_none_right_eq_some.mp hs
  cases hs
  split
  · exact ⟨h.erase, h.drawing, h.escape, h.unprinted, h.ticking, h.onTicker, h.writing, h.erased⟩
  · exact h
  · refine h.setHandler ?_ (fun hpc => by cases hpc)
    rintro rfl _
    simp only [Session.canPress, Bool.and_eq_true, decide_eq_true_eq] at hcan
    exact hcan.2.2

theorem handle (h : s.Safe) (hs : s.handle windows t = some s') : s'.Safe := by
  have hticker (hpc : s.handler t ≠ none) : t = .ticker → s.ticker = .running := by
    rintro rfl
    exact h.onTicker hpc
  have hquitting : some (quitting windows) ≠ some .write := by cases windows <;> decide
  unfold Session.handle at hs
  split at hs
  · cases hs
  · next hpc =>
    cases hs
    have hset : { s with stop := true }.Safe :=
      ⟨h.erase, h.drawing, h.escape, h.unprinted, h.ticking, h.onTicker, h.writing, h.erased⟩
    refine hset.setHandler (fun ht _ => hticker (by rw [hpc]; simp) ht) fun hwrite => ?_
    split at hwrite <;> cases hwrite
  · next hpc =>
    cases hs
    refine h.setHandler (fun ht _ => hticker (by rw [hpc]; simp) ht) fun hwrite => ?_
    split at hwrite
    · next herase => exact .inr herase
    · exact absurd hwrite hquitting
  · next hpc =>
    cases hs
    have hwipe : s.wipe.Safe := by
      refine ⟨h.erase, h.drawing, h.escape, h.unprinted, h.ticking, h.onTicker, h.writing, ?_⟩
      simp [Session.wipe, h.erased, h.printed_of_writing hpc]
    exact hwipe.setHandler (fun ht _ => hticker (by rw [hpc]; simp) ht)
      fun hwrite => absurd hwrite hquitting
  · next hpc =>
    cases hs
    have hback : { s with disposition := .default }.Safe :=
      ⟨h.erase, h.drawing, h.escape, h.unprinted, h.ticking, h.onTicker, h.writing, h.erased⟩
    exact hback.setHandler (fun ht _ => hticker (by rw [hpc]; simp) ht)
      fun hwrite => by cases hwrite
  · next hpc =>
    cases hs
    exact h.setHandler (fun ht _ => hticker (by rw [hpc]; simp) ht) fun hwrite => by cases hwrite
  · next hpc =>
    cases hs
    have hkilled : { s with exited := some .killed }.Safe :=
      ⟨h.erase, h.drawing, h.escape, h.unprinted, h.ticking, h.onTicker, h.writing, h.erased⟩
    split
    · exact hkilled
    · exact hkilled
    · exact h.setHandler (fun _ hno => absurd rfl hno) fun hwrite => by cases hwrite
    · exact h.setHandler (fun ht _ => hticker (by rw [hpc]; simp) ht) fun hwrite => by cases hwrite
  · cases hs
    exact h.setHandler (fun _ hno => absurd rfl hno) fun hwrite => by cases hwrite

/-- The main thread goes on, and neither the ticker nor `erase_on_quit` changes. -/
theorem goes (h : s.Safe) (herase : s'.erase = s.erase) (htickerSet : s'.tickerSet = s.tickerSet)
    (hticker : s'.ticker = s.ticker) (hhandler : s'.handler = s.handler)
    (hactive : s.erase = true → s'.main = .scan ∨ s'.main = .endTicker ∨ s'.main = .eraseOff)
    (hdrawing : s.tickerSet = true → s'.main.drawing = true ∧ s'.printed = 0)
    (hescape : s'.main ≠ .escape) (hunprinted : s'.main.unprinted = true → s'.printed = 0)
    (herased : s'.erased = false) : s'.Safe where
  erase he := by
    rw [herase] at he
    rw [htickerSet]
    exact ⟨(h.erase he).1, hactive he⟩
  drawing ht := hdrawing (htickerSet ▸ ht)
  escape hmain := absurd hmain hescape
  unprinted := hunprinted
  ticking := by
    rw [hticker, htickerSet]
    exact h.ticking
  onTicker := by
    rw [hticker, hhandler]
    exact h.onTicker
  writing := by
    rw [hhandler, herase]
    exact h.writing
  erased := herased

/-- Out of the part that draws there is no ticker, and nothing is to be erased. -/
theorem ended (h : s.Safe) (hdrawing : s.main.drawing = false) :
    s.tickerSet = false ∧ s.erase = false := by
  have hticker : s.tickerSet = false := by
    refine Bool.eq_false_iff.mpr fun ht => ?_
    rw [(h.drawing ht).1] at hdrawing
    cases hdrawing
  refine ⟨hticker, Bool.eq_false_iff.mpr fun he => ?_⟩
  rw [(h.erase he).1] at hticker
  cases hticker

/-- The main thread goes on there. -/
theorem goes_ended (h : s.Safe) (hends : s.main.drawing = false) (herase : s'.erase = s.erase)
    (htickerSet : s'.tickerSet = s.tickerSet) (hticker : s'.ticker = s.ticker)
    (hhandler : s'.handler = s.handler) (hescape : s'.main ≠ .escape)
    (hunprinted : s'.main.unprinted = true → s'.printed = 0) (herased : s'.erased = false) :
    s'.Safe := by
  obtain ⟨hnone, hoff⟩ := h.ended hends
  refine h.goes herase htickerSet hticker hhandler (fun he => ?_) (fun ht => ?_) hescape hunprinted
    herased
  · rw [hoff] at he
    cases he
  · rw [hnone] at ht
    cases ht

theorem afterEnd (s : Session) : s.afterEnd ≠ .escape ∧ s.afterEnd.unprinted = false := by
  unfold Session.afterEnd
  split <;> exact ⟨by simp, rfl⟩

/-- Erasing does no harm before there are results. -/
theorem erased_wipe (h : s.Safe) (hprinted : s.printed = 0) : s.wipe.erased = false := by
  simp [Session.wipe, h.erased, hprinted]

theorem main (h : s.Safe) {env : MainEnv} (hon : s.handler .main = none)
    (hlate : ¬ (s.main = .eraseOff ∧ ∃ i, s.handler (.other i) = some .write))
    (hs : s.mainStep windows total env = some s') : s'.Safe := by
  have hprinted {pc : MainPc} (hmain : s.main = pc) (hpc : pc.unprinted = true) : s.printed = 0 :=
    h.unprinted (by rw [hmain]; exact hpc)
  have hinactive {pc : MainPc} (hmain : s.main = pc)
      (hpc : pc ≠ .scan ∧ pc ≠ .endTicker ∧ pc ≠ .eraseOff) : s.erase ≠ true := by
    intro he
    have hactive := (h.erase he).2
    rw [hmain] at hactive
    simp [hpc] at hactive
  unfold Session.mainStep at hs
  split at hs
  · next hmain =>
    cases hs
    exact h.goes_ended (by rw [hmain]; rfl) rfl rfl rfl rfl (by simp) (fun _ => hprinted hmain rfl)
      h.erased
  · next hmain =>
    cases hs
    refine h.goes_ended (by rw [hmain]; rfl) rfl rfl rfl rfl ?_ (fun _ => hprinted hmain rfl)
      h.erased
    split <;> simp
  · next hmain =>
    have hzero := hprinted hmain rfl
    split at hs
    · cases hs
      have hoff := (h.ended (by rw [hmain]; rfl)).2
      exact ⟨fun he => absurd he (by simp [hoff]), fun _ => ⟨rfl, hzero⟩, fun _ => rfl,
        fun _ => hzero, fun _ => rfl, fun _ => rfl, h.writing, h.erased⟩
    · cases hs
      exact h.goes_ended (by rw [hmain]; rfl) rfl rfl rfl rfl (by simp) (fun _ => hzero)
        (h.erased_wipe hzero)
  · next hmain =>
    cases hs
    have hoff := hinactive hmain (by simp)
    exact ⟨fun _ => ⟨h.escape hmain, .inl rfl⟩, fun ht => ⟨rfl, (h.drawing ht).2⟩,
      fun hescape => (by cases hescape), fun _ => hprinted hmain rfl, h.ticking, h.onTicker,
      fun t hpc => .inl ((h.writing t hpc).resolve_right hoff), h.erased⟩
  · next hmain =>
    cases hs
    exact h.goes rfl rfl rfl rfl (fun _ => .inr (.inl rfl)) (fun ht => ⟨rfl, (h.drawing ht).2⟩)
      (by simp) (fun hno => by cases hno) h.erased
  · next hmain =>
    cases hs
    by_cases ht : s.tickerSet = true
    · refine h.goes rfl rfl rfl rfl (fun _ => .inr (.inr (if_pos ht))) (fun _ => ?_) ?_
        (fun _ => ?_) h.erased
      · exact ⟨by rw [if_pos ht]; rfl, (h.drawing ht).2⟩
      · rw [if_pos ht]
        simp
      · exact (h.drawing ht).2
    · have hends := afterEnd s
      refine h.goes rfl rfl rfl rfl (fun he => absurd (h.erase he).1 ht) (fun hno => absurd hno ht)
        ?_ (fun hno => ?_) h.erased
      · rw [if_neg ht]
        exact hends.1
      · rw [if_neg ht, hends.2] at hno
        cases hno
  · next hmain =>
    cases hs
    -- a handler that wrote from now on had been late
    have hticker (t : Thread) (hpc : s.handler t = some .write) : t = .ticker := by
      cases t with
      | main => simp [hon] at hpc
      | ticker => rfl
      | other i => exact absurd ⟨hmain, i, hpc⟩ hlate
    exact ⟨fun he => (by cases he), fun ht => ⟨rfl, (h.drawing ht).2⟩,
      fun hescape => (by cases hescape), fun _ => hprinted hmain rfl, h.ticking, h.onTicker,
      fun t hpc => .inl (hticker t hpc), h.erased⟩
  · next hmain =>
    cases hs
    exact h.goes rfl rfl rfl rfl (fun he => absurd he (hinactive hmain (by simp)))
      (fun ht => ⟨rfl, (h.drawing ht).2⟩) (by simp) (fun _ => hprinted hmain rfl) h.erased
  · next hmain =>
    split at hs
    · next hjoined =>
      cases hs
      refine ⟨fun he => absurd he (hinactive hmain (by simp)), fun ht => (by cases ht),
        fun hescape => (by cases hescape), fun _ => hprinted hmain rfl, fun hrunning => ?_,
        h.onTicker, h.writing, h.erased⟩
      rw [show s.ticker = _ from hrunning] at hjoined
      cases hjoined
    · cases hs
  · next hmain =>
    cases hs
    have hzero := hprinted hmain rfl
    exact h.goes_ended (by rw [hmain]; rfl) rfl rfl rfl rfl (by simp) (fun _ => hzero)
      (h.erased_wipe hzero)
  · next hmain =>
    cases hs
    have hzero := hprinted hmain rfl
    have hends := afterEnd s
    have hwiped : (if s.escapeCodes then s.wipe else s).Safe ∧
        (if s.escapeCodes then s.wipe else s).main = s.main := by
      split
      · exact ⟨h.goes_ended (by rw [hmain]; rfl) rfl rfl rfl rfl (by simp [Session.wipe, hmain])
          (fun _ => hzero) (h.erased_wipe hzero), rfl⟩
      · exact ⟨h, rfl⟩
    obtain ⟨hsafe, hsame⟩ := hwiped
    exact hsafe.goes_ended (by rw [hsame, hmain]; rfl) rfl rfl rfl rfl hends.1
      (fun hno => by rw [hends.2] at hno; cases hno) hsafe.erased
  · next hmain =>
    have hdrawn : s.main.drawing = false := by rw [hmain]; rfl
    have hprint : s.main ≠ .escape ∧ s.main.unprinted ≠ true := by simp [hmain, MainPc.unprinted]
    split at hs
    · cases hs
      exact h.goes_ended hdrawn rfl rfl rfl rfl hprint.1 (fun hno => absurd hno hprint.2) h.erased
    · split at hs
      · cases hs
        exact h.goes_ended hdrawn rfl rfl rfl rfl hprint.1 (fun hno => absurd hno hprint.2) h.erased
      · cases hs
        refine h.goes_ended hdrawn rfl rfl rfl rfl ?_ (fun hno => ?_) h.erased
        · split <;> simp
        · split at hno <;> cases hno
  · next hmain =>
    have hdrawn : s.main.drawing = false := by rw [hmain]; rfl
    cases hs
    refine h.goes_ended hdrawn rfl rfl rfl rfl ?_ (fun hno => ?_) h.erased
    · split <;> simp
    · split at hno <;> cases hno
  · next hmain =>
    cases hs
    exact h.goes_ended (by rw [hmain]; rfl) rfl rfl rfl rfl (by simp [hmain])
      (fun hno => by simp [hmain, MainPc.unprinted] at hno) h.erased
  · next hmain =>
    have hdrawn : s.main.drawing = false := by rw [hmain]; rfl
    split at hs
    · cases hs
      exact h.goes_ended hdrawn rfl rfl rfl rfl (by simp [hmain])
        (fun hno => by simp [hmain, MainPc.unprinted] at hno) h.erased
    · cases hs
      exact h.goes_ended hdrawn rfl rfl rfl rfl (by simp) (fun hno => by cases hno) h.erased
  · next hmain =>
    cases hs
    exact h.goes_ended (by rw [hmain]; rfl) rfl rfl rfl rfl (by simp [hmain])
      (fun hno => by simp [hmain, MainPc.unprinted] at hno) h.erased

theorem tick (h : s.Safe) (hon : s.handler .ticker = none) (hs : s.tick = some s') : s'.Safe := by
  unfold Session.tick at hs
  split at hs
  · split at hs
    · cases hs
      exact ⟨h.erase, h.drawing, h.escape, h.unprinted, fun hrunning => (by cases hrunning),
        fun hno => absurd hon hno, h.writing, h.erased⟩
    · cases hs
      exact h
  · cases hs

theorem of_init (h : (session windows total).init s) : s.Safe := by
  obtain ⟨current, _, rfl⟩ := h
  constructor <;> simp

theorem step (h : s.Safe) {late : Prop} (hs : (session windows total).step s l = some s')
    (hlate : ¬ noteLate late s l) : s'.Safe := by
  cases l with
  | press t => exact h.press (Option.ite_none_right_eq_some.mp hs).2
  | handler t => exact h.handle (Option.ite_none_right_eq_some.mp hs).2
  | main env =>
    obtain ⟨⟨_, hon⟩, hs⟩ := Option.ite_none_right_eq_some.mp hs
    exact h.main hon (fun hnow => hlate (.inr hnow)) hs
  | ticker =>
    obtain ⟨⟨_, hon⟩, hs⟩ := Option.ite_none_right_eq_some.mp hs
    exact h.tick hon hs

end Session.Safe

/-- A watcher who was late once stays so. -/
theorem noteLate_of_late {late : Prop} (h : late) : noteLate late s l := by
  cases l with
  | main env => exact .inl h
  | press t => exact h
  | handler t => exact h
  | ticker => exact h

/--
**What is erased is the status line.**

An erasing sequence reaches a terminal with results on it in one way only: a handler on a thread of
its own read `erase_on_quit`, the main thread turned it off, and the handler wrote what it had
decided to write.
-/
theorem results_erased_late {late : Prop}
    (h : ((session windows total).watch False noteLate).Reachable (s, late))
    (herased : s.erased = true) : late := by
  have hsafe : late ∨ s.Safe := by
    refine h.invariant (I := fun p => p.2 ∨ p.1.Safe) ?_ ?_
    · rintro p ⟨hinit, _⟩
      exact .inr (Session.Safe.of_init hinit)
    · intro p l p' _ hp hs
      obtain ⟨hs, hlate'⟩ := Lts.watch_step hs
      rw [hlate']
      by_cases hlate : noteLate p.2 p.1 l
      · exact .inl hlate
      · exact .inr ((hp.resolve_left fun h => hlate (noteLate_of_late h)).step hs hlate)
  rcases hsafe with hlate | hsafe
  · exact hlate
  · rw [hsafe.erased] at herased
    cases herased

/-- A scan of one line on Windows, whose second press comes as the scan ends. -/
def pressedLate : Option Session :=
  (session true 1).exec { disposition := .default }
    [.main {}, .main {}, .main {}, .main {}, .press (.other 0), .handler (.other 0),
      .handler (.other 0), .main {}, .press (.other 1), .handler (.other 1), .handler (.other 1),
      .main {}, .main {}, .main {}, .ticker, .main {}, .main {}, .main {}, .main {},
      .handler (.other 1)]

theorem results_erased_late_windows : ∃ s late, pressedLate = some s ∧
    ((session true 1).watch False noteLate).Reachable (s, late) ∧ s.erased = true ∧ late := by
  have hend : pressedLate.map Session.erased = some true := by decide
  obtain ⟨s, hrun, herased⟩ := Option.map_eq_some_iff.mp hend
  have hreach : (session true 1).Reachable s := ⟨_, _, ⟨.default, by decide, rfl⟩, hrun⟩
  obtain ⟨late, hlate⟩ := hreach.watched False noteLate
  exact ⟨s, late, hrun, hlate, herased, results_erased_late hlate herased⟩

end Erased

end NetScanner.Live
