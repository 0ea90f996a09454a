import Mathlib.Order.Lattice
import Mathlib.Tactic.Common

/-! Polling in batches: an abstract model of asking a list of parties until a quorum is met.

    The parties are asked a batch at a time. A rule looks at each answer as it is counted and says
    whether to wait for more, to dispatch the next batch, or to close the poll with a verdict.
    Answers come in any order, so what the rule may rely on is an invariant: `Spaced` (a batch goes
    out only once the one before it is answered) and `Sound` (the verdict is the right one). -/

namespace OtNode.Poll

/-- What a rule decides when an answer is counted. -/
inductive Decision where
  | wait
  | dispatch
  | close (accepted : Bool)
  deriving DecidableEq, Repr

/-- A poll of `total` parties, `batch` at a time, that needs `quorum` positive answers and holds
    `credit` of them from the start. An eager poll closes as soon as it has them. The rule gets
    the sign of the answer, then how many have answered, how many positively (credit included),
    and how many were asked. -/
structure Protocol where
  total : ℕ
  batch : ℕ
  quorum : ℕ
  credit : ℕ
  eager : Bool
  first : Decision
  rule : Bool → ℕ → ℕ → ℕ → Decision

/-- How far a poll has come. `accepted` and `rejected` count the verdicts given. -/
@[ext] structure State where
  started : Bool
  due : ℕ
  inFlight : ℕ
  asked : ℕ
  answered : ℕ
  succeeded : ℕ
  accepted : ℕ
  rejected : ℕ
  deriving DecidableEq, Repr

/-- A poll not yet started. -/
def State.initial : State := ⟨false, 0, 0, 0, 0, 0, 0, 0⟩

/-- Carry out a decision. -/
def State.apply (s : State) : Decision → State
  | .wait => s
  | .dispatch => { s with due := s.due + 1 }
  | .close true => { s with accepted := s.accepted + 1 }
  | .close false => { s with rejected := s.rejected + 1 }

/-- The poll started: it holds its credit and carries out its first decision. -/
def Protocol.start (P : Protocol) (s : State) : State :=
  { s with started := true, succeeded := P.credit }.apply P.first

/-- A batch sent to the next parties. -/
def Protocol.send (P : Protocol) (s : State) : State :=
  { s with due := s.due - 1, asked := min (s.asked + P.batch) P.total,
           inFlight := s.inFlight + (min (s.asked + P.batch) P.total - s.asked) }

/-- An answer counted, nothing decided on it yet. -/
def State.count (s : State) (positive : Bool) : State :=
  { s with inFlight := s.inFlight - 1, answered := s.answered + 1,
           succeeded := s.succeeded + positive.toNat }

/-- What the rule says of the next answer. -/
def Protocol.decision (P : Protocol) (s : State) (positive : Bool) : Decision :=
  P.rule positive (s.answered + 1) (s.succeeded + positive.toNat) s.asked

/-- One step of a poll. `guard` restricts the answers; a party asked may be left out once an eager
    poll has its verdict. -/
inductive Step (P : Protocol) (guard : State → Bool → Prop) : State → State → Prop where
  | start {s} (fresh : s.started = false) : Step P guard s (P.start s)
  | send {s} (due : 0 < s.due) : Step P guard s (P.send s)
  | answer {s} (positive : Bool) (busy : 0 < s.inFlight) (allowed : guard s positive) :
      Step P guard s ((s.count positive).apply (P.decision s positive))
  | skip {s} (busy : 0 < s.inFlight) (eager : P.eager = true)
      (closed : 0 < s.accepted + s.rejected) :
      Step P guard s { s with inFlight := s.inFlight - 1 }

variable {P : Protocol} {guard : State → Bool → Prop} {s s' : State}

/-- What holds of a poll whose batches follow each other, whatever it decides: nothing is under way
    before it starts, and while a batch is due no answer is outstanding. -/
structure Orderly (P : Protocol) (s : State) : Prop where
  fresh : s.started = false → s = State.initial
  single : s.due = 0 ∨ (s.due = 1 ∧ s.inFlight = 0)
  bounded : s.asked ≤ P.total

/-! ### Batches follow each other -/

/-- Every batch goes out alone: it is due only when all asked so far have answered, and those
    asked are whole batches up to the last. -/
structure Spaced (P : Protocol) (s : State) : Prop where
  fresh : s.started = false → s = State.initial
  counted : s.answered + s.inFlight = s.asked
  bounded : s.asked ≤ P.total
  due : s.due = 0 ∨ (s.due = 1 ∧ s.inFlight = 0 ∧ P.batch ∣ s.asked)
  round : s.due = 0 → 0 < s.inFlight →
    ∃ start, P.batch ∣ start ∧ start ≤ s.answered ∧ s.asked = min (start + P.batch) P.total

theorem Spaced.initial (P : Protocol) : Spaced P State.initial :=
  ⟨fun _ => rfl, rfl, Nat.zero_le _, Or.inl rfl, fun _ h => absurd h (by decide)⟩

theorem Spaced.orderly (h : Spaced P s) : Orderly P s :=
  ⟨h.fresh, h.due.imp_right fun h => ⟨h.1, h.2.1⟩, h.bounded⟩

/-- Between two batch boundaries there is no third. -/
theorem eq_of_dvd_of_lt {b start x : ℕ} (hs : b ∣ start) (hx : b ∣ x) (hlt : start < x)
    (hle : x ≤ start + b) : x = start + b := by
  obtain ⟨i, rfl⟩ := hs
  obtain ⟨j, rfl⟩ := hx
  have hij : i < j := Nat.lt_of_mul_lt_mul_left hlt
  have hmul : b * (i + 1) ≤ b * j := Nat.mul_le_mul_left b hij
  rw [Nat.mul_add, Nat.mul_one] at hmul
  omega

/-- Among the answers of a batch, only the last one ends on a multiple of the batch size. -/
theorem Spaced.last (h : Spaced P s) (hbusy : 0 < s.inFlight) (hdvd : P.batch ∣ s.answered + 1) :
    s.inFlight = 1 := by
  have hcounted := h.counted
  rcases h.due with hdue | ⟨_, hidle, _⟩
  · obtain ⟨start, hstart, hle, hasked⟩ := h.round hdue hbusy
    have hend := eq_of_dvd_of_lt hstart hdvd (by omega) (by omega)
    omega
  · omega

/-- STEP: a rule that dispatches at multiples of the batch size only keeps the batches apart. -/
theorem Spaced.step (h : Spaced P s)
    (hrule : ∀ positive, 0 < s.inFlight → P.decision s positive = .dispatch →
      P.batch ∣ s.answered + 1)
    (heager : P.eager = false) (hstep : Step P guard s s') : Spaced P s' := by
  have hlast := h.last
  obtain ⟨hfresh, hcounted, hbounded, hdue, hround⟩ := h
  cases hstep with
  | start fresh =>
    obtain rfl := hfresh fresh
    rcases hd : P.first with _ | _ | _ | _ <;>
      constructor <;> simp [Protocol.start, State.apply, State.initial, hd]
  | send due =>
    obtain ⟨hdue, hidle, hdvd⟩ : s.due = 1 ∧ s.inFlight = 0 ∧ P.batch ∣ s.asked :=
      hdue.resolve_left (by omega)
    constructor <;> simp only [Protocol.send]
    · intro hs
      simp [hfresh hs, State.initial] at hdue
    · omega
    · omega
    · exact Or.inl (by omega)
    · intro _ _
      exact ⟨s.asked, hdvd, by omega, rfl⟩
  | answer positive busy _ =>
    have hdue0 : s.due = 0 := by omega
    have hlive : s.started ≠ false := fun hs => by
      simp [hfresh hs, State.initial] at busy
    obtain ⟨start, hstart, hle, hasked⟩ := hround hdue0 busy
    have hwait : Spaced P (s.count positive) := by
      constructor <;> simp only [State.count]
      · exact fun hs => absurd hs hlive
      · omega
      · exact hbounded
      · exact Or.inl hdue0
      · exact fun _ _ => ⟨start, hstart, by omega, hasked⟩
    rcases hd : P.decision s positive with _ | _ | _ | _
    · exact hwait
    · have hdvd := hrule positive busy hd
      have hone := hlast busy hdvd
      have hall : s.answered + 1 = s.asked := by omega
      constructor <;> simp only [State.apply, State.count]
      · exact fun hs => absurd hs hlive
      · omega
      · exact hbounded
      · exact Or.inr ⟨by omega, by omega, hall ▸ hdvd⟩
      · omega
    · exact ⟨fun hs => absurd hs hlive, hwait.2, hwait.3, hwait.4, hwait.5⟩
    · exact ⟨fun hs => absurd hs hlive, hwait.2, hwait.3, hwait.4, hwait.5⟩
  | skip _ eager _ => simp [heager] at eager

/-! ### The verdict is right -/

/-- What a poll has to decide once everyone asked has answered. -/
def Protocol.settle (P : Protocol) (succeeded asked : ℕ) : Decision :=
  if asked = P.total then .close (decide (P.quorum ≤ succeeded))
  else if P.quorum ≤ succeeded + (P.total - asked) then .dispatch
  else .close false

/-- The rule is right about the next answer: an eager poll accepts with the answer that completes
    the quorum, the last answer of a batch settles it, and any other is waited on. -/
def Protocol.Aligned (P : Protocol) (s : State) (positive : Bool) : Prop :=
  P.decision s positive =
    if 0 < s.accepted then .wait
    else if P.eager ∧ P.quorum ≤ s.succeeded + positive.toNat then .close true
    else if s.inFlight = 1 then P.settle (s.succeeded + positive.toNat) s.asked
    else .wait

/-- The next batch is due. -/
structure Due (P : Protocol) (s : State) : Prop where
  due : s.due = 1
  idle : s.inFlight = 0
  counted : s.answered = s.asked
  more : s.asked < P.total
  boundary : P.batch ∣ s.asked
  bound : s.succeeded ≤ P.credit + s.answered
  within : 0 < s.asked → P.quorum ≤ P.credit + P.total
  short : P.eager = true → s.succeeded < P.quorum
  undecided : s.accepted = 0 ∧ s.rejected = 0

/-- Answers of the last batch are outstanding. -/
structure Waiting (P : Protocol) (s : State) : Prop where
  due : s.due = 0
  busy : 0 < s.inFlight
  counted : s.answered + s.inFlight = s.asked
  round : ∃ start, P.batch ∣ start ∧ start ≤ s.answered ∧
    s.asked = min (start + P.batch) P.total ∧ (0 < start → P.quorum ≤ P.credit + P.total)
  bound : s.succeeded ≤ P.credit + s.answered
  short : P.eager = true → s.succeeded < P.quorum
  undecided : s.accepted = 0 ∧ s.rejected = 0

/-- The quorum was met; only an eager poll still has answers outstanding. -/
structure Accepted (P : Protocol) (s : State) : Prop where
  due : s.due = 0
  late : P.eager = false → s.inFlight = 0
  counted : s.answered + s.inFlight ≤ s.asked
  bounded : s.asked ≤ P.total
  met : P.quorum ≤ s.succeeded
  verdict : s.accepted = 1 ∧ s.rejected = 0

/-- The quorum is out of reach, even with everyone not yet asked. -/
structure Rejected (P : Protocol) (s : State) : Prop where
  due : s.due = 0
  idle : s.inFlight = 0
  counted : s.answered = s.asked
  bounded : s.asked ≤ P.total
  missed : s.succeeded + (P.total - s.asked) < P.quorum
  verdict : s.accepted = 0 ∧ s.rejected = 1

/-- While answers are outstanding, the number of answers is a multiple of the batch size after the
    last one of a full batch, and after no other. -/
theorem Waiting.last (h : Waiting P s) (hone : s.inFlight = 1) (hmore : s.asked < P.total) :
    P.batch ∣ s.answered + 1 := by
  obtain ⟨start, hstart, -, hasked, -⟩ := h.round
  have hcounted := h.counted
  have hend : s.answered + 1 = start + P.batch := by omega
  exact hend ▸ Nat.dvd_add hstart (Nat.dvd_refl _)

theorem Waiting.not_last (h : Waiting P s) (hmany : s.inFlight ≠ 1) :
    ¬P.batch ∣ s.answered + 1 := by
  intro hdvd
  obtain ⟨start, hstart, hle, hasked, -⟩ := h.round
  have hcounted := h.counted
  have hbusy := h.busy
  have hend := eq_of_dvd_of_lt hstart hdvd (by omega) (by omega)
  omega

/-- A poll in order: not started, or in one of its four phases. -/
inductive Sound (P : Protocol) (s : State) : Prop where
  | fresh (h : s = State.initial)
  | due (live : s.started = true) (h : Due P s)
  | waiting (live : s.started = true) (h : Waiting P s)
  | accepted (live : s.started = true) (h : Accepted P s)
  | rejected (live : s.started = true) (h : Rejected P s)

/-- Settling a poll whose asked parties have all answered leaves it in order. -/
theorem Sound.settle (live : s.started = true) (hdue : s.due = 0) (hidle : s.inFlight = 0)
    (hcounted : s.answered = s.asked) (hbounded : s.asked ≤ P.total)
    (hboundary : s.asked < P.total → P.batch ∣ s.asked)
    (hbound : s.succeeded ≤ P.credit + s.answered)
    (hshort : P.eager = true → s.succeeded < P.quorum)
    (hopen : s.accepted = 0 ∧ s.rejected = 0) :
    Sound P (s.apply (P.settle s.succeeded s.asked)) := by
  unfold Protocol.settle
  split
  · next hall =>
    by_cases hmet : P.quorum ≤ s.succeeded
    · rw [decide_eq_true hmet]
      exact .accepted live ⟨hdue, fun _ => hidle, by simp [State.apply]; omega, hbounded, hmet,
        by simp [State.apply, hopen]⟩
    · rw [decide_eq_false hmet]
      exact .rejected live ⟨hdue, hidle, hcounted, hbounded, by simp [State.apply]; omega,
        by simp [State.apply, hopen]⟩
  · next hpart =>
    have hmore : s.asked < P.total := by omega
    split
    · next hreach =>
      exact .due live ⟨by simp [State.apply, hdue], hidle, hcounted, hmore, hboundary hmore,
        hbound, fun _ => by omega, hshort, hopen⟩
    · next hmissed =>
      exact .rejected live ⟨hdue, hidle, hcounted, hbounded, by simp [State.apply]; omega,
        by simp [State.apply, hopen]⟩

/-- STEP: a poll whose first decision and whose rule are right stays in order. -/
theorem Sound.step (h : Sound P s) (hbatch : 0 < P.batch)
    (hfirst : P.first = P.settle P.credit 0 ∨ (P.first = .dispatch ∧ 0 < P.total))
    (hcredit : P.eager = true → P.credit < P.quorum)
    (haligned : ∀ positive, 0 < s.inFlight → guard s positive → P.Aligned s positive)
    (hstep : Step P guard s s') : Sound P s' := by
  cases hstep with
  | start fresh =>
    have hs : s = State.initial := by
      cases h with
      | fresh h => exact h
      | due live | waiting live | accepted live | rejected live => simp [fresh] at live
    subst hs
    rcases hfirst with hf | ⟨hf, htotal⟩
    · rw [Protocol.start, hf]
      exact Sound.settle (s := { State.initial with started := true, succeeded := P.credit })
        rfl rfl rfl rfl (Nat.zero_le _) (fun _ => Nat.dvd_zero _) le_rfl hcredit ⟨rfl, rfl⟩
    · rw [Protocol.start, hf]
      exact .due rfl ⟨rfl, rfl, rfl, htotal, Nat.dvd_zero _, le_rfl, fun h => absurd h (lt_irrefl 0),
        hcredit, rfl, rfl⟩
  | send due =>
    cases h with
    | fresh h => subst h; exact absurd due (by decide)
    | waiting _ h => exact absurd due (by simp [h.due])
    | accepted _ h => exact absurd due (by simp [h.due])
    | rejected _ h => exact absurd due (by simp [h.due])
    | due live h =>
      have hmore := h.more
      have hidle := h.idle
      have hcounted := h.counted
      refine .waiting live ⟨?_, ?_, ?_, ⟨s.asked, h.boundary, ?_, rfl, h.within⟩, h.bound,
        h.short, h.undecided⟩ <;>
        simp only [Protocol.send, h.due] <;> omega
  | answer positive busy allowed =>
    have hrule := haligned positive busy allowed
    rw [Protocol.Aligned] at hrule
    cases h with
    | fresh h => subst h; exact absurd busy (by decide)
    | due _ h => exact absurd busy (by simp [h.idle])
    | rejected _ h => exact absurd busy (by simp [h.idle])
    | accepted live h =>
      have hcounted := h.counted
      rw [hrule, if_pos (by simp [h.verdict])]
      refine .accepted live ⟨h.due, fun he => ?_, ?_, h.bounded, ?_, h.verdict⟩
      · have := h.late he
        omega
      · simp only [State.apply, State.count]
        omega
      · exact h.met.trans (Nat.le_add_right _ _)
    | waiting live h =>
      have hcounted := h.counted
      obtain ⟨start, hstart, hle, hasked, hwithin⟩ := h.round
      have hbounded : s.asked ≤ P.total := hasked ▸ min_le_right _ _
      have hbound : (s.count positive).succeeded ≤ P.credit + (s.count positive).answered := by
        have hold := h.bound
        cases positive <;> simp only [State.count, Bool.toNat_true, Bool.toNat_false] <;> omega
      rw [hrule, if_neg (by simp [h.undecided])]
      split
      · next hmet =>
        refine .accepted live ⟨h.due, fun he => by simp [he] at hmet, ?_, hbounded, hmet.2, ?_⟩
        · simp only [State.apply, State.count]
          omega
        · simp [State.apply, State.count, h.undecided]
      · next hunmet =>
        have hshort : P.eager = true → s.succeeded + positive.toNat < P.quorum := fun he => by
          simpa [he] using hunmet
        split
        · next hlast =>
          exact Sound.settle (s := s.count positive) live h.due (by simp [State.count, hlast])
            (by simp only [State.count]; omega) hbounded
            (fun hmore => by
              have hdvd := h.last hlast hmore
              have hall : s.answered + 1 = s.asked := by omega
              exact hall ▸ hdvd)
            hbound hshort h.undecided
        · refine .waiting live ⟨h.due, ?_, ?_, ⟨start, hstart, ?_, hasked, hwithin⟩, hbound,
            hshort, h.undecided⟩ <;>
            simp only [State.count, State.apply] <;> omega
  | skip busy eager closed =>
    cases h with
    | fresh h => subst h; exact absurd busy (by decide)
    | due _ h => exact absurd busy (by simp [h.idle])
    | waiting _ h => simp [h.undecided] at closed
    | rejected _ h => exact absurd busy (by simp [h.idle])
    | accepted live h =>
      have hcounted := h.counted
      exact .accepted live ⟨h.due, fun he => by simp [he] at eager, by simp only; omega, h.bounded,
        h.met, h.verdict⟩

theorem Sound.orderly (h : Sound P s) : Orderly P s := by
  cases h with
  | fresh h => subst h; exact ⟨fun _ => rfl, Or.inl rfl, Nat.zero_le _⟩
  | due live h => exact ⟨by simp [live], Or.inr ⟨h.due, h.idle⟩, h.more.le⟩
  | accepted live h => exact ⟨by simp [live], Or.inl h.due, h.bounded⟩
  | rejected live h => exact ⟨by simp [live], Or.inl h.due, h.bounded⟩
  | waiting live h =>
    obtain ⟨start, -, -, hasked, -⟩ := h.round
    exact ⟨by simp [live], Or.inl h.due, hasked ▸ min_le_right _ _⟩

/-- A poll in order with an answer outstanding waits for it, or is eager and has accepted. -/
theorem Sound.busy (h : Sound P s) (hbusy : 0 < s.inFlight) :
    Waiting P s ∨ (P.eager = true ∧ Accepted P s) := by
  cases h with
  | fresh h => subst h; exact absurd hbusy (by decide)
  | due _ h => exact absurd hbusy (by simp [h.idle])
  | waiting _ h => exact Or.inl h
  | accepted _ h =>
    refine Or.inr ⟨?_, h⟩
    by_contra heager
    have := h.late (by simpa using heager)
    omega
  | rejected _ h => exact absurd hbusy (by simp [h.idle])

/-- SETTLED: a poll at rest has exactly one verdict, and it is the right one: accepted with the
    quorum met, or rejected with the quorum out of reach. -/
theorem Sound.settled (h : Sound P s) (live : s.started = true) (hdue : s.due = 0)
    (hidle : s.inFlight = 0) :
    (s.accepted = 1 ∧ s.rejected = 0 ∧ P.quorum ≤ s.succeeded) ∨
      (s.accepted = 0 ∧ s.rejected = 1 ∧ s.succeeded + (P.total - s.asked) < P.quorum) := by
  cases h with
  | fresh h => subst h; cases live
  | due _ h => exact absurd hdue (by simp [h.due])
  | waiting _ h => exact absurd h.busy (by simp [hidle])
  | accepted _ h => exact Or.inl ⟨h.verdict.1, h.verdict.2, h.met⟩
  | rejected _ h => exact Or.inr ⟨h.verdict.1, h.verdict.2, h.missed⟩

end OtNode.Poll
