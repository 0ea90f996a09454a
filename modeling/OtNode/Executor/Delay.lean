import Mathlib.Tactic.Common
import Mathlib.Tactic.Linarith
import Mathlib.Data.Nat.Init

/-! When a delayed command is first executed.

    The delay of a command is kept twice: `add` sets a timer and may move `readyAt`, and the field
    `delay` is added to `readyAt` when the command is taken off the queue. A long delay is waited for
    in several turns. A restart has only the row. -/

namespace OtNode.Executor

/-- `MAX_COMMAND_DELAY_IN_MILLS`. -/
def MAX_COMMAND_DELAY_IN_MILLS : ℕ := 14400 * 60 * 1000

/-- The times of a command. What is missing is 0. -/
structure Times where
  readyAt : ℕ
  delay : ℕ
  deriving DecidableEq

/-- Where a command is until it is executed: its row is being inserted by an `add` with some delay
    left, it waits for its parent to be completed, for its timer or in the queue, it has been executed
    at a time, or it was lost with the process. -/
inductive Phase where
  | inserting (delay : ℕ)
  | child
  | timer (since delay : ℕ)
  | queued
  | executed (time : ℕ)
  | lost
  deriving DecidableEq

/-- A command, its row, the time, and how long its timers have been waited for. -/
structure Delayed where
  command : Times
  row : Times
  now : ℕ
  phase : Phase
  waited : ℕ
  deriving DecidableEq

/-- How a new command comes to the executor: by `add(command, delay)`, or as a child. Its own field
    `delay` is given too. -/
inductive Added where
  | add (commandDelay delay : ℕ)
  | child (commandDelay : ℕ)
  deriving DecidableEq

/-- What happens: the database call before the timer returns, the timer runs out, the command is
    taken off the queue, or the process is restarted. -/
inductive Moment where | proceed | timeout | take | restart
  deriving DecidableEq

/-- The part of `add` before the insertion. A delay that is too long is moved to `readyAt`. -/
def capDelay (now : ℕ) (command : Times) (delay : ℕ) : Times × ℕ :=
  if MAX_COMMAND_DELAY_IN_MILLS < delay then
    ({ command with readyAt := (if command.readyAt = 0 then now else command.readyAt) + delay },
      MAX_COMMAND_DELAY_IN_MILLS)
  else (command, delay)

/-- The times that `_insert` fills in. -/
def insertTimes (now : ℕ) (command : Times) : Times :=
  { command with readyAt := if command.readyAt = 0 then now else command.readyAt }

/-- The part of `add` after the insertion: a timer, or the queue. -/
def enqueue (now delay : ℕ) : Phase := if delay = 0 then .queued else .timer now delay

namespace Delayed

/-- `add(command, delay, false)`. -/
def add (s : Delayed) (delay : ℕ) : Delayed :=
  { s with
    command := (capDelay s.now s.command delay).1
    phase := enqueue s.now (capDelay s.now s.command delay).2 }

/-- A command at the time it is added. -/
def start (now : ℕ) : Added → Delayed
  | .add commandDelay delay =>
    let capped := capDelay now ⟨0, commandDelay⟩ delay
    ⟨insertTimes now capped.1, insertTimes now capped.1, now, .inserting capped.2, 0⟩
  | .child commandDelay =>
    ⟨insertTimes now ⟨0, commandDelay⟩, insertTimes now ⟨0, commandDelay⟩, now, .child, 0⟩

/-- `_execute`. -/
def execute (s : Delayed) : Delayed :=
  let waitMs := s.command.readyAt + s.command.delay - s.now
  if 0 < waitMs then s.add (min waitMs MAX_COMMAND_DELAY_IN_MILLS)
  else { s with phase := .executed s.now }

/-- The time that the timer of the command has run. -/
def elapsed (s : Delayed) : ℕ :=
  match s.phase with
  | .timer since delay => min delay (s.now - since)
  | _ => 0

/-- `replayOldCommands` for the row of the command, unless the command has been executed. -/
def replay (s : Delayed) : Delayed :=
  match s.phase with
  | .executed _ => s
  | _ => { s with command := s.row, waited := s.waited + s.elapsed }.add 0

/-- A step, some time after the last one. `replayed` says whether a restart replays the command. -/
def act (replayed : Bool) (s : Delayed) (step : ℕ × Moment) : Delayed :=
  let s := { s with now := s.now + step.1 }
  match step.2, s.phase with
  | .proceed, .inserting delay => { s with phase := enqueue s.now delay }
  | .proceed, .child => s.add s.command.delay
  | .timeout, .timer since delay =>
    if since + delay ≤ s.now then { s with phase := .queued, waited := s.waited + delay } else s
  | .take, .queued => s.execute
  | .restart, .executed _ => s
  | .restart, _ => if replayed then s.replay else { s with phase := .lost }
  | _, _ => s

/-- The steps of a run. -/
def run (replayed : Bool) (s : Delayed) (steps : List (ℕ × Moment)) : Delayed :=
  steps.foldl (act replayed) s

/-- The waiting that has been scheduled: what has been waited, and what the timer is set to. -/
def scheduled (s : Delayed) : ℕ :=
  s.waited + match s.phase with
    | .timer _ delay => delay
    | _ => 0

/-- A command with a delay is not executed before its time, and does not wait for longer. -/
structure Timely (s : Delayed) (addTime delay : ℕ) : Prop where
  early : ∀ time, s.phase = .executed time → addTime + delay ≤ time
  late : s.scheduled ≤ delay

end Delayed

namespace Added

/-- The delay of a command: the argument of `add` or the field of the command, and the longer of the
    two where both are given and differ. -/
def delay : Added → ℕ
  | add commandDelay delay => max delay commandDelay
  | child commandDelay => commandDelay

/-- Both places of the delay agree: a long delay is only the argument of `add`, and a short one is in
    the row as well if the row may be replayed. -/
def Agrees (replayed : Bool) : Added → Prop
  | add commandDelay delay =>
    if MAX_COMMAND_DELAY_IN_MILLS < delay then commandDelay = 0
    else replayed = true → delay ≤ commandDelay
  | child commandDelay => commandDelay ≤ MAX_COMMAND_DELAY_IN_MILLS

end Added

namespace Delayed

variable {s : Delayed} {addTime delay : ℕ} {replayed : Bool}

theorem max_pos : 0 < MAX_COMMAND_DELAY_IN_MILLS := by decide

/-- When the command is due by its fields. -/
def due (s : Delayed) : ℕ := s.command.readyAt + s.command.delay

theorem capDelay_of_le {now delay : ℕ} {command : Times}
    (h : delay ≤ MAX_COMMAND_DELAY_IN_MILLS) : capDelay now command delay = (command, delay) :=
  if_neg (Nat.not_lt.mpr h)

theorem add_of_le {d : ℕ} (h : d ≤ MAX_COMMAND_DELAY_IN_MILLS) :
    s.add d = { s with phase := enqueue s.now d } := by
  rw [add, capDelay_of_le h]

/-! ### Delays that agree -/

/-- Where the command is, no timer is set for too long. Where the fields make it due too early, a
    timer holds it until it is time. -/
inductive Waits (s : Delayed) (addTime delay : ℕ) : Prop where
  | inserting (d : ℕ) (phase : s.phase = .inserting d) (waited : s.waited = 0) (fits : d ≤ delay)
    (early : s.due < addTime + delay → delay ≤ d)
  | child (phase : s.phase = .child) (waited : s.waited = 0) (fits : s.command.delay ≤ delay)
    (short : s.command.delay ≤ MAX_COMMAND_DELAY_IN_MILLS) (early : addTime + delay ≤ s.due)
  | timer (since d : ℕ) (phase : s.phase = .timer since d) (set : since ≤ s.now)
    (waited : s.waited + addTime ≤ since) (fits : s.waited + d ≤ delay)
    (early : s.due < addTime + delay → addTime + delay ≤ since + d)
  | queued (phase : s.phase = .queued) (waited : s.waited + addTime ≤ s.now)
    (fits : s.waited ≤ delay) (early : s.due < addTime + delay → addTime + delay ≤ s.now)
  | executed (time : ℕ) (phase : s.phase = .executed time) (fits : s.waited ≤ delay)
    (early : addTime + delay ≤ time)
  | lost (phase : s.phase = .lost) (waited : s.waited + addTime ≤ s.now) (fits : s.waited ≤ delay)

/-- The invariant of a command whose delays agree. -/
structure Kept (replayed : Bool) (s : Delayed) (addTime delay : ℕ) : Prop where
  row : s.row = s.command
  since : addTime ≤ s.now
  late : s.due ≤ addTime + delay
  early : replayed = true → addTime + delay ≤ s.due
  waits : s.Waits addTime delay

theorem kept_start {how : Added} (h : how.Agrees replayed) :
    Kept replayed (start addTime how) addTime how.delay := by
  cases how with
  | child commandDelay =>
    have hstart : (start addTime (.child commandDelay)).due = addTime + commandDelay := rfl
    exact ⟨rfl, Nat.le_refl _, hstart.le, fun _ => hstart.ge,
      .child rfl rfl (Nat.le_refl _) h hstart.ge⟩
  | add commandDelay delay =>
    by_cases hlong : MAX_COMMAND_DELAY_IN_MILLS < delay
    · obtain rfl : commandDelay = 0 := by simpa [Added.Agrees, hlong] using h
      have hdelay : (Added.add 0 delay).delay = delay := Nat.max_eq_left (Nat.zero_le _)
      have hcap : capDelay addTime ⟨0, 0⟩ delay =
          (⟨addTime + delay, 0⟩, MAX_COMMAND_DELAY_IN_MILLS) := if_pos hlong
      have hdue : (start addTime (.add 0 delay)).due = addTime + delay := by
        simp [start, hcap, insertTimes, due]
      rw [hdelay]
      refine ⟨rfl, Nat.le_refl _, hdue.le, fun _ => hdue.ge,
        .inserting MAX_COMMAND_DELAY_IN_MILLS ?_ rfl hlong.le fun hearly => ?_⟩
      · simp [start, hcap]
      · omega
    · have hagree : replayed = true → delay ≤ commandDelay := by
        simpa [Added.Agrees, hlong] using h
      have hdelay : (Added.add commandDelay delay).delay = max delay commandDelay := rfl
      have hcap : capDelay addTime ⟨0, commandDelay⟩ delay = (⟨0, commandDelay⟩, delay) :=
        capDelay_of_le (Nat.not_lt.mp hlong)
      have hdue : (start addTime (.add commandDelay delay)).due = addTime + commandDelay := by
        simp [start, hcap, insertTimes, due]
      rw [hdelay]
      refine ⟨rfl, Nat.le_refl _, by omega, fun hreplayed => ?_,
        .inserting delay ?_ rfl (by omega) fun hearly => ?_⟩
      · have := hagree hreplayed
        omega
      · simp [start, hcap]
      · omega

/-- Time passes. -/
theorem kept_pass (h : Kept replayed s addTime delay) (d : ℕ) :
    Kept replayed { s with now := s.now + d } addTime delay := by
  obtain ⟨hrow, hsince, hlate, hearly, hwaits⟩ := h
  refine ⟨hrow, by simp only; omega, hlate, hearly, ?_⟩
  cases hwaits with
  | inserting d phase waited fits early => exact .inserting d phase waited fits early
  | child phase waited fits short early => exact .child phase waited fits short early
  | timer since d phase set waited fits early =>
    exact .timer since d phase (by simp only; omega) waited fits early
  | queued phase waited fits early =>
    refine .queued phase (by simp only; omega) fits ?_
    intro hdue
    have := early hdue
    simp only
    omega
  | executed time phase fits early => exact .executed time phase fits early
  | lost phase waited fits => exact .lost phase (by simp only; omega) fits

/-- A timer is set, or the command is queued. -/
theorem waits_enqueue {d : ℕ} (hwaited : s.waited + addTime ≤ s.now) (hfits : s.waited + d ≤ delay)
    (hearly : s.due < addTime + delay → addTime + delay ≤ s.now + d) :
    Waits { s with phase := enqueue s.now d } addTime delay := by
  rw [enqueue]
  split
  · next hzero =>
    refine .queued rfl hwaited (Nat.le_of_add_right_le hfits) ?_
    intro hdue
    have := hearly hdue
    simp only
    omega
  · exact .timer s.now d rfl (Nat.le_refl _) hwaited hfits hearly

theorem kept_execute (h : Kept replayed s addTime delay) (hphase : s.phase = .queued) :
    Kept replayed s.execute addTime delay := by
  obtain ⟨hrow, hsince, hlate, hearly, hwaits⟩ := h
  obtain ⟨hwaited, hfits, hnow⟩ : s.waited + addTime ≤ s.now ∧ s.waited ≤ delay ∧
      (s.due < addTime + delay → addTime + delay ≤ s.now) := by
    cases hwaits with
    | queued phase waited fits early => exact ⟨waited, fits, early⟩
    | inserting d phase => simp [hphase] at phase
    | child phase => simp [hphase] at phase
    | timer since d phase => simp [hphase] at phase
    | executed time phase => simp [hphase] at phase
    | lost phase => simp [hphase] at phase
  have hdue : s.command.readyAt + s.command.delay = s.due := rfl
  rw [execute, hdue]
  split
  · next hwait =>
    rw [add_of_le (Nat.min_le_right _ _)]
    refine ⟨hrow, hsince, hlate, hearly, waits_enqueue hwaited ?_ ?_⟩
    · have := Nat.min_le_left (s.due - s.now) MAX_COMMAND_DELAY_IN_MILLS
      omega
    · intro hless
      have := hnow hless
      omega
  · next hwait =>
    refine ⟨hrow, hsince, hlate, hearly, .executed s.now rfl hfits ?_⟩
    rcases Nat.lt_or_ge s.due (addTime + delay) with hless | hge
    · exact hnow hless
    · omega

/-- Up to now the command has not been waited for too long. -/
theorem elapsed_fits (h : Kept replayed s addTime delay)
    (hphase : ∀ time, s.phase ≠ .executed time) :
    s.waited + s.elapsed + addTime ≤ s.now ∧ s.waited + s.elapsed ≤ delay := by
  have hsince := h.since
  cases h.waits with
  | inserting d phase waited => simp [elapsed, phase, waited, hsince]
  | child phase waited => simp [elapsed, phase, waited, hsince]
  | timer since d phase set waited fits =>
    simp only [elapsed, phase]
    omega
  | queued phase waited fits => simp [elapsed, phase, waited, fits]
  | executed time phase => exact absurd phase (hphase time)
  | lost phase waited fits => simp [elapsed, phase, waited, fits]

theorem kept_replay (h : Kept replayed s addTime delay)
    (hphase : ∀ time, s.phase ≠ .executed time) (hreplayed : replayed = true) :
    Kept replayed s.replay addTime delay := by
  obtain ⟨hwaited, hfits⟩ := elapsed_fits h hphase
  have hreplay : s.replay =
      { s with command := s.row, waited := s.waited + s.elapsed, phase := .queued } := by
    rw [replay]
    split
    · next time hexecuted => exact absurd hexecuted (hphase time)
    · rw [add_of_le (Nat.zero_le _)]
      rfl
  rw [hreplay, h.row]
  exact ⟨rfl, h.since, h.late, h.early,
    .queued rfl hwaited hfits fun hless => absurd hless (Nat.not_lt.mpr (h.early hreplayed))⟩

theorem kept_lost (h : Kept replayed s addTime delay)
    (hphase : ∀ time, s.phase ≠ .executed time) :
    Kept replayed { s with phase := .lost } addTime delay := by
  obtain ⟨hwaited, hfits⟩ := elapsed_fits h hphase
  refine ⟨h.row, h.since, h.late, h.early, .lost rfl ?_ ?_⟩
  · simp only
    omega
  · exact Nat.le_of_add_right_le hfits

/-- STEP: a step keeps the invariant. -/
theorem kept_act (h : Kept replayed s addTime delay) (step : ℕ × Moment) :
    Kept replayed (s.act replayed step) addTime delay := by
  have h' := kept_pass h step.1
  rw [act]
  obtain ⟨hrow, hsince, hlate, hearly, hwaits⟩ := h'
  split
  · next d _ hphase =>
    cases hwaits with
    | inserting d' phase waited fits early =>
      obtain rfl : d' = d := Phase.inserting.inj (phase.symm.trans hphase)
      refine ⟨hrow, hsince, hlate, hearly, waits_enqueue ?_ ?_ ?_⟩
      · rw [waited, Nat.zero_add]
        exact hsince
      · rw [waited, Nat.zero_add]
        exact fits
      · intro hless
        exact Nat.add_le_add hsince (early hless)
    | _ => simp_all
  · next _ hphase =>
    cases hwaits with
    | child phase waited fits short early =>
      rw [add_of_le short]
      refine ⟨hrow, hsince, hlate, hearly, waits_enqueue ?_ ?_ ?_⟩
      · rw [waited, Nat.zero_add]
        exact hsince
      · rw [waited, Nat.zero_add]
        exact fits
      · intro hless
        exact absurd hless (Nat.not_lt.mpr early)
    | _ => simp_all
  · next since d _ hphase =>
    cases hwaits with
    | timer since' d' phase set waited fits early =>
      obtain ⟨rfl, rfl⟩ := Phase.timer.inj (phase.symm.trans hphase)
      split
      · next hover =>
        refine ⟨hrow, hsince, hlate, hearly, .queued rfl ?_ fits ?_⟩
        · simp only at waited hover ⊢
          omega
        · intro hless
          exact (early hless).trans hover
      · exact ⟨hrow, hsince, hlate, hearly, .timer since' d' phase set waited fits early⟩
    | _ => simp_all
  · next _ hphase => exact kept_execute ⟨hrow, hsince, hlate, hearly, hwaits⟩ hphase
  · exact ⟨hrow, hsince, hlate, hearly, hwaits⟩
  · next hphase =>
    split
    · next hreplayed =>
      exact kept_replay ⟨hrow, hsince, hlate, hearly, hwaits⟩ hphase hreplayed
    · exact kept_lost ⟨hrow, hsince, hlate, hearly, hwaits⟩ hphase
  · exact ⟨hrow, hsince, hlate, hearly, hwaits⟩

/-- RUN: the steps of a run keep the invariant. -/
theorem kept_run (h : Kept replayed s addTime delay) (steps : List (ℕ × Moment)) :
    Kept replayed (s.run replayed steps) addTime delay := by
  induction steps generalizing s with
  | nil => exact h
  | cons step steps ih => exact ih (kept_act h step)

theorem timely_of_kept (h : Kept replayed s addTime delay) : s.Timely addTime delay := by
  cases h.waits with
  | inserting d phase waited => exact ⟨by simp [phase], by simp [scheduled, phase, waited]⟩
  | child phase waited => exact ⟨by simp [phase], by simp [scheduled, phase, waited]⟩
  | timer since d phase set waited fits => exact ⟨by simp [phase], by simpa [scheduled, phase]⟩
  | queued phase waited fits => exact ⟨by simp [phase], by simpa [scheduled, phase]⟩
  | executed time phase fits early =>
    exact ⟨by simpa [phase] using early, by simpa [scheduled, phase]⟩
  | lost phase waited fits => exact ⟨by simp [phase], by simpa [scheduled, phase]⟩

/-! ### Delays that do not agree -/

/-- The timer runs out and the command is taken off the queue. -/
def longWait : List (ℕ × Moment) := [(MAX_COMMAND_DELAY_IN_MILLS, .timeout), (0, .take)]

/-- The timer is set for the time that is left. -/
def SetForDue (s : Delayed) : Prop :=
  s.phase = .timer s.now (min (s.due - s.now) MAX_COMMAND_DELAY_IN_MILLS)

/-- A queued command that is not due yet gets a timer for the time that is left. -/
theorem execute_of_lt (h : s.now < s.due) :
    s.execute = { s with
      phase := .timer s.now (min (s.due - s.now) MAX_COMMAND_DELAY_IN_MILLS) } := by
  have hwait : 0 < s.command.readyAt + s.command.delay - s.now := Nat.sub_pos_of_lt h
  have hpos : min (s.due - s.now) MAX_COMMAND_DELAY_IN_MILLS ≠ 0 := by
    have := max_pos
    omega
  rw [execute, if_pos hwait, add_of_le (Nat.min_le_right _ _), ← due, enqueue, if_neg hpos]

/-- A full timer is waited for. -/
theorem act_timeout {d : ℕ} (hset : s.phase = .timer s.now d) :
    s.act replayed (d, .timeout) =
      { s with now := s.now + d, phase := .queued, waited := s.waited + d } := by
  rw [act]
  simp only [hset, Nat.le_refl, if_true]

theorem act_take (hqueued : s.phase = .queued) : s.act replayed (0, .take) = s.execute := by
  rw [act]
  simp only [hqueued]
  rfl

/-- Another timer is set. -/
theorem run_longWait (replayed : Bool) (hset : s.SetForDue)
    (hdue : s.now + MAX_COMMAND_DELAY_IN_MILLS < s.due) :
    s.run replayed longWait = { s with
      now := s.now + MAX_COMMAND_DELAY_IN_MILLS
      waited := s.waited + MAX_COMMAND_DELAY_IN_MILLS
      phase := .timer (s.now + MAX_COMMAND_DELAY_IN_MILLS)
        (min (s.due - (s.now + MAX_COMMAND_DELAY_IN_MILLS)) MAX_COMMAND_DELAY_IN_MILLS) } := by
  have hfull : min (s.due - s.now) MAX_COMMAND_DELAY_IN_MILLS = MAX_COMMAND_DELAY_IN_MILLS :=
    Nat.min_eq_right (by omega)
  rw [SetForDue, hfull] at hset
  rw [run, longWait, List.foldl_cons, List.foldl_cons, List.foldl_nil, act_timeout hset,
    act_take rfl, execute_of_lt hdue]
  rfl

theorem run_append (steps steps' : List (ℕ × Moment)) :
    s.run replayed (steps ++ steps') = (s.run replayed steps).run replayed steps' :=
  List.foldl_append

/-- RUN: a command that is due too late is waited for too long. -/
theorem exists_late (hset : s.SetForDue) (hwaited : s.waited ≤ delay)
    (hdue : s.now + delay < s.waited + s.due) :
    ∃ steps, delay < (s.run replayed steps).scheduled := by
  induction hleft : delay - s.waited using Nat.strong_induction_on generalizing s with
  | _ left ih =>
    have hpos := max_pos
    by_cases hfull : s.now + MAX_COMMAND_DELAY_IN_MILLS < s.due ∧
        s.waited + MAX_COMMAND_DELAY_IN_MILLS ≤ delay
    · have hrun := run_longWait replayed hset hfull.1
      have hdue' : (s.run replayed longWait).due = s.due := by
        rw [hrun]
        rfl
      obtain ⟨steps, hlate⟩ := ih (delay - (s.waited + MAX_COMMAND_DELAY_IN_MILLS)) (by omega)
        (s := s.run replayed longWait) (by rw [hrun]; rfl) (by rw [hrun]; exact hfull.2)
        (by rw [hdue', hrun]; simp only; omega) (by rw [hrun])
      exact ⟨longWait ++ steps, by rwa [run_append]⟩
    · refine ⟨[], ?_⟩
      have hscheduled : (s.run replayed []).scheduled =
          s.waited + min (s.due - s.now) MAX_COMMAND_DELAY_IN_MILLS := by
        simp only [run, List.foldl_nil, scheduled]
        rw [SetForDue] at hset
        rw [hset]
      rw [hscheduled]
      omega

/-- A long delay that is in both places is waited for too long. -/
theorem exists_late_of_long {how : Added} (hlong : MAX_COMMAND_DELAY_IN_MILLS < how.delay)
    (hset : ((start 0 how).run replayed [(0, .proceed)]).SetForDue)
    (hnow : ((start 0 how).run replayed [(0, .proceed)]).now = 0)
    (hwaited : ((start 0 how).run replayed [(0, .proceed)]).waited = 0)
    (hdue : how.delay < ((start 0 how).run replayed [(0, .proceed)]).due) :
    ∃ steps, ¬ ((start 0 how).run replayed steps).Timely 0 how.delay := by
  have hlate : ∃ steps, how.delay <
      (((start 0 how).run replayed [(0, .proceed)]).run replayed steps).scheduled :=
    exists_late hset (by omega) (by omega)
  obtain ⟨steps, hlate⟩ := hlate
  refine ⟨[(0, .proceed)] ++ steps, ?_⟩
  intro h
  rw [run_append] at h
  exact absurd h.late (Nat.not_le.mpr hlate)

/-- A delay whose places do not agree is kept too short, or too long. -/
theorem exists_not_timely {how : Added} (h : ¬ how.Agrees replayed) :
    ∃ steps, ¬ ((start 0 how).run replayed steps).Timely 0 how.delay := by
  have hpos := max_pos.ne'
  cases how with
  | child commandDelay =>
    have hlong : MAX_COMMAND_DELAY_IN_MILLS < commandDelay := Nat.lt_of_not_le h
    have hrun : (start 0 (.child commandDelay)).run replayed [(0, .proceed)] =
        ⟨⟨commandDelay, commandDelay⟩, ⟨0, commandDelay⟩, 0,
          .timer 0 MAX_COMMAND_DELAY_IN_MILLS, 0⟩ := by
      simp [run, start, act, add, capDelay, insertTimes, enqueue, hlong, hpos]
    refine exists_late_of_long hlong ?_ ?_ ?_ ?_
    · rw [hrun, SetForDue, due, Nat.min_eq_right (by simp only; omega)]
    · rw [hrun]
    · rw [hrun]
    · rw [hrun, due]
      simp only [Added.delay]
      omega
  | add commandDelay delay =>
    by_cases hlong : MAX_COMMAND_DELAY_IN_MILLS < delay
    · have hboth : commandDelay ≠ 0 := by simpa [Added.Agrees, hlong] using h
      have hrun : (start 0 (.add commandDelay delay)).run replayed [(0, .proceed)] =
          ⟨⟨delay, commandDelay⟩, ⟨delay, commandDelay⟩, 0,
            .timer 0 MAX_COMMAND_DELAY_IN_MILLS, 0⟩ := by
        simp [run, start, act, capDelay, insertTimes, enqueue, hlong, hpos]
        omega
      refine exists_late_of_long (hlong.trans_le (Nat.le_max_left _ _)) ?_ ?_ ?_ ?_
      · rw [hrun, SetForDue, due, Nat.min_eq_right (by simp only; omega)]
      · rw [hrun]
      · rw [hrun]
      · rw [hrun, due]
        simp only [Added.delay]
        omega
    · obtain ⟨hreplayed, hshort⟩ : replayed = true ∧ commandDelay < delay := by
        simpa [Added.Agrees, hlong] using h
      subst hreplayed
      -- the restart has only the row, which does not have the argument of `add`
      refine ⟨[(0, .restart), (commandDelay, .take)], ?_⟩
      intro hTimely
      have hrun : ((start 0 (.add commandDelay delay)).run true
          [(0, .restart), (commandDelay, .take)]).phase = .executed commandDelay := by
        simp [run, start, act, replay, add, execute, capDelay, insertTimes, enqueue, hlong]
      have hearly := hTimely.early commandDelay hrun
      simp only [Added.delay] at hearly
      omega

/-- CORRECT (run): a delayed command is always executed in time, after no longer than its delay,
    exactly when the places of the delay agree. -/
theorem timely_iff_agrees (replayed : Bool) (how : Added) :
    (∀ addTime steps, ((start addTime how).run replayed steps).Timely addTime how.delay) ↔
      how.Agrees replayed := by
  constructor
  · intro h
    by_contra hagrees
    obtain ⟨steps, hnot⟩ := exists_not_timely hagrees
    exact hnot (h 0 steps)
  · intro h addTime steps
    exact timely_of_kept (kept_run (kept_start h) steps)

/-- A child that is to be executed in eleven days. -/
def elevenDays : Added := .child (11 * 24 * 60 * 60 * 1000)

/-- COUNTEREXAMPLE: its timers are set for twenty days. -/
theorem elevenDays_late :
    ¬ ((start 1 elevenDays).run true ((0, .proceed) :: longWait)).Timely 1 elevenDays.delay := by
  rintro ⟨-, hlate⟩
  revert hlate
  decide

end Delayed

end OtNode.Executor
