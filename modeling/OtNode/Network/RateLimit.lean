import OtNode.Lib.Trace
import Mathlib.Algebra.Order.Floor.Ring
import Mathlib.Data.Rat.Floor
import Mathlib.Tactic.Linarith
import Mathlib.Tactic.NormNum

/-! The black list of the peers.

    A peer that is found to send too much is black-listed. The minutes that are left are rounded
    down before they are compared with zero, so that a peer is let through in the last minute of its
    time, and only the limiters can reject it then. -/

namespace OtNode

open Trace

/-- `NETWORK_API_BLACK_LIST_TIME_WINDOW_MINUTES`. -/
def blackListTimeWindowMinutes : ℕ := 60

/-- The window in milliseconds. -/
def blackListWindow : ℕ := blackListTimeWindowMinutes * (1000 * 60)

/-- A request: its peer, the times at which it is checked and at which a spammer is noted, and what
    the two limiters report of its peer, if they are asked. -/
structure PeerRequest where
  peerIdString : String
  now : ℕ
  detectedAt : ℕ
  exceedsSpam : Bool
  exceedsBasic : Bool

/-- `this.blackList`, with the times at which each peer was detected, the latest first, and the time
    of the last request. -/
structure RateLimitState where
  blackList : String → Option ℕ
  detected : String → List ℕ
  clock : ℕ

namespace RateLimitState

/-- `_initializeRateLimiters`. -/
def initial : RateLimitState := ⟨fun _ => none, fun _ => [], 0⟩

variable (s : RateLimitState) (request : PeerRequest)

/-- `remainingMinutes`. -/
def remainingMinutes (listedAt now : ℕ) : ℤ :=
  ⌊(blackListTimeWindowMinutes : ℚ) - ((now : ℚ) - listedAt) / (1000 * 60)⌋

/-- The limiters are asked. A spammer gets an entry. -/
def askLimiters : Bool × RateLimitState :=
  if request.exceedsSpam then
    (true, { s with
      blackList := Function.update s.blackList request.peerIdString (some request.detectedAt)
      detected := Function.update s.detected request.peerIdString
        (request.detectedAt :: s.detected request.peerIdString) })
  else (request.exceedsBasic, s)

/-- `limitRequest`. A time of zero is no entry, and one without minutes left is deleted. -/
def limitRequest : Bool × RateLimitState :=
  match (s.blackList request.peerIdString).filter (· ≠ 0) with
  | some listedAt =>
    if 0 < remainingMinutes listedAt request.now then (true, s)
    else askLimiters
      { s with blackList := Function.update s.blackList request.peerIdString none } request
  | none => s.askLimiters request

/-- What a request leaves. -/
def afterRequest : RateLimitState := { (s.limitRequest request).2 with clock := request.detectedAt }

/-- What a sequence of requests leaves. -/
def afterAll (requests : List PeerRequest) : RateLimitState := requests.foldl afterRequest s

/-- The clock goes on. -/
def InOrder : Prop :=
  0 < request.now ∧ s.clock ≤ request.now ∧ request.now ≤ request.detectedAt

/-- A request within the window of a detection is rejected. -/
def Lasts : Prop :=
  ∀ time ∈ s.detected request.peerIdString, request.now < time + blackListWindow →
    (s.limitRequest request).1

/-- A request in the last minute of the window of the latest detection exceeds a limit itself. -/
def ExceedsAtTheEnd : Prop :=
  ∀ time ∈ (s.detected request.peerIdString).head?, time + 59 * (1000 * 60) < request.now →
    request.now < time + blackListWindow → request.exceedsSpam ∨ request.exceedsBasic

/-- The list and the detections: a peer is listed with the time of the latest one, or its time on the
    list is over; and no detection is later than the clock. -/
structure Inv : Prop where
  none : ∀ peer, s.detected peer = [] → s.blackList peer = none
  some : ∀ peer time times, s.detected peer = time :: times →
    s.blackList peer = some time ∨ s.blackList peer = Option.none ∧ time + 59 * (1000 * 60) < s.clock
  sorted : ∀ peer, (s.detected peer).Pairwise (· ≥ ·)
  past : ∀ peer, ∀ time ∈ s.detected peer, 0 < time ∧ time ≤ s.clock

end RateLimitState

/-- A sequence of requests in order. -/
structure RequestSequence where
  requests : List PeerRequest
  inOrder : Along (fun before => (RateLimitState.initial.afterAll before).InOrder) requests

namespace RequestSequence

variable (sequence : RequestSequence)

/-- A black-listed peer is rejected for the whole window, and one that never exceeded a limit never. -/
structure BlackListingLasts : Prop where
  rejects : Along (fun before => (RateLimitState.initial.afterAll before).Lasts) sequence.requests
  spares : ∀ peer, (∀ request ∈ sequence.requests, request.peerIdString = peer →
      request.exceedsSpam = false ∧ request.exceedsBasic = false) →
    Along (fun before request => request.peerIdString = peer →
      ((RateLimitState.initial.afterAll before).limitRequest request).1 = false) sequence.requests

end RequestSequence

namespace RateLimitState

variable {s : RateLimitState} {request : PeerRequest}

theorem remainingMinutes_pos_iff {listedAt now : ℕ} :
    0 < remainingMinutes listedAt now ↔ now ≤ listedAt + 59 * (1000 * 60) := by
  have hcast : now ≤ listedAt + 59 * (1000 * 60) ↔
      (now : ℚ) ≤ ((listedAt + 59 * (1000 * 60) : ℕ) : ℚ) := Nat.cast_le.symm
  rw [remainingMinutes, Int.floor_pos, hcast, blackListTimeWindowMinutes]
  push_cast
  constructor
  · intro h
    linarith
  · intro h
    linarith

/-! ### The invariant -/

theorem inv_initial : initial.Inv :=
  ⟨fun _ _ => rfl, nofun, fun _ => List.Pairwise.nil, nofun⟩

/-- The entry of a peer is its latest detection. -/
theorem Inv.mem_detected (h : s.Inv) {peer : String} {listedAt : ℕ}
    (hlisted : s.blackList peer = Option.some listedAt) :
    ∃ times, s.detected peer = listedAt :: times := by
  cases hdetected : s.detected peer with
  | nil =>
    rw [h.none peer hdetected] at hlisted
    cases hlisted
  | cons time times =>
    rcases h.some peer time times hdetected with heq | ⟨hnone, -⟩
    · rw [heq] at hlisted
      obtain rfl := Option.some.inj hlisted
      exact ⟨times, rfl⟩
    · rw [hnone] at hlisted
      cases hlisted

/-- The peer is on the list, and there are minutes left. -/
def IsListed (s : RateLimitState) (request : PeerRequest) : Prop :=
  ∃ listedAt, s.blackList request.peerIdString = some listedAt ∧
    request.now ≤ listedAt + 59 * (1000 * 60)

theorem Inv.filter (h : s.Inv) (peer : String) :
    (s.blackList peer).filter (· ≠ 0) = s.blackList peer := by
  cases hlisted : s.blackList peer with
  | none => rfl
  | some listedAt =>
    obtain ⟨times, hdetected⟩ := h.mem_detected hlisted
    have hpos := (h.past peer listedAt (hdetected ▸ List.mem_cons_self)).1
    exact if_pos (decide_eq_true (Nat.ne_of_gt hpos))

/-- STEP (listed): a peer that is listed is rejected, and nothing is changed. -/
theorem limitRequest_of_listed (h : s.Inv) (hlisted : s.IsListed request) :
    s.limitRequest request = (true, s) := by
  obtain ⟨listedAt, hentry, htime⟩ := hlisted
  rw [limitRequest, h.filter, hentry]
  exact if_pos (remainingMinutes_pos_iff.mpr htime)

/-- STEP (not listed): the limiters are asked, without an entry for the peer. -/
theorem limitRequest_of_not_listed (h : s.Inv) (hlisted : ¬ s.IsListed request) :
    s.limitRequest request = askLimiters
      { s with blackList := Function.update s.blackList request.peerIdString none } request := by
  rw [limitRequest, h.filter]
  cases hentry : s.blackList request.peerIdString with
  | some listedAt =>
    refine if_neg ?_
    rw [remainingMinutes_pos_iff]
    exact fun htime => hlisted ⟨listedAt, hentry, htime⟩
  | none =>
    have hsame : Function.update s.blackList request.peerIdString none = s.blackList := by
      rw [← hentry, Function.update_eq_self]
    rw [hsame]

/-- What is rejected: a listed peer, and one that exceeds a limit. -/
theorem limitRequest_iff (h : s.Inv) : (s.limitRequest request).1 ↔
    s.IsListed request ∨ request.exceedsSpam ∨ request.exceedsBasic := by
  by_cases hlisted : s.IsListed request
  · rw [limitRequest_of_listed h hlisted]
    exact iff_of_true rfl (.inl hlisted)
  · rw [limitRequest_of_not_listed h hlisted, askLimiters, or_iff_right hlisted]
    cases request.exceedsSpam with
    | true => exact iff_of_true rfl (.inl rfl)
    | false => exact (or_iff_right Bool.false_ne_true).symm

/-- STEP (invariant): every request keeps it. -/
theorem Inv.afterRequest (h : s.Inv) (horder : s.InOrder request) : (s.afterRequest request).Inv := by
  obtain ⟨hpos, hclock, hlater⟩ := horder
  have hpast : ∀ peer, ∀ time ∈ s.detected peer, 0 < time ∧ time ≤ request.detectedAt := by
    intro peer time htime
    obtain ⟨htime, hle⟩ := h.past peer time htime
    exact ⟨htime, by omega⟩
  rw [RateLimitState.afterRequest]
  by_cases hlisted : s.IsListed request
  · rw [limitRequest_of_listed h hlisted]
    refine ⟨h.none, ?_, h.sorted, hpast⟩
    intro peer time times hdetected
    refine (h.some peer time times hdetected).imp_right ?_
    rintro ⟨hnone, hover⟩
    exact ⟨hnone, show _ < request.detectedAt by omega⟩
  · rw [limitRequest_of_not_listed h hlisted, askLimiters]
    cases request.exceedsSpam with
    | true =>
      refine ⟨?_, ?_, ?_, ?_⟩
      · intro peer hdetected
        by_cases hpeer : peer = request.peerIdString
        · subst hpeer
          simp only [Function.update_self, reduceIte, reduceCtorEq] at hdetected
        · simp only [Function.update_of_ne hpeer, reduceIte] at hdetected ⊢
          exact h.none peer hdetected
      · intro peer time times hdetected
        by_cases hpeer : peer = request.peerIdString
        · subst hpeer
          simp only [Function.update_self, reduceIte, List.cons.injEq] at hdetected ⊢
          exact .inl (congrArg Option.some hdetected.1)
        · simp only [Function.update_of_ne hpeer, reduceIte] at hdetected ⊢
          refine (h.some peer time times hdetected).imp_right ?_
          rintro ⟨hnone, hover⟩
          exact ⟨hnone, by omega⟩
      · intro peer
        by_cases hpeer : peer = request.peerIdString
        · subst hpeer
          simp only [Function.update_self, reduceIte]
          refine List.pairwise_cons.mpr ⟨?_, h.sorted _⟩
          intro time htime
          exact (hpast _ time htime).2
        · simp only [Function.update_of_ne hpeer, reduceIte]
          exact h.sorted peer
      · intro peer time htime
        by_cases hpeer : peer = request.peerIdString
        · subst hpeer
          simp only [Function.update_self, reduceIte, List.mem_cons] at htime
          rcases htime with rfl | htime
          · exact ⟨by omega, Nat.le_refl _⟩
          · exact hpast _ time htime
        · simp only [Function.update_of_ne hpeer, reduceIte] at htime
          exact hpast peer time htime
    | false =>
      refine ⟨?_, ?_, h.sorted, hpast⟩
      · intro peer hdetected
        by_cases hpeer : peer = request.peerIdString
        · subst hpeer
          exact Function.update_self ..
        · exact (Function.update_of_ne hpeer ..).trans (h.none peer hdetected)
      · intro peer time times hdetected
        have hbefore := h.some peer time times hdetected
        by_cases hpeer : peer = request.peerIdString
        · subst hpeer
          refine .inr ⟨Function.update_self .., show _ < request.detectedAt from ?_⟩
          rcases hbefore with hentry | ⟨-, hover⟩
          · -- The entry was there, so its minutes were over.
            have hover : ¬ request.now ≤ time + 59 * (1000 * 60) :=
              fun htime => hlisted ⟨time, hentry, htime⟩
            omega
          · omega
        · refine hbefore.imp ?_ ?_
          · exact (Function.update_of_ne hpeer ..).trans
          · rintro ⟨hnone, hover⟩
            exact ⟨(Function.update_of_ne hpeer ..).trans hnone,
              show _ < request.detectedAt by omega⟩

/-- STEP (window): a request within the window of any detection is rejected exactly if it exceeds a
    limit itself wherever it comes in the last minute of the latest one. -/
theorem lasts_iff (h : s.Inv) (horder : s.InOrder request) :
    s.Lasts request ↔ s.ExceedsAtTheEnd request := by
  constructor
  · intro hlasts time hhead hlate hwindow
    have hrejected := hlasts time (List.mem_of_mem_head? hhead) hwindow
    refine ((limitRequest_iff h).mp hrejected).resolve_left ?_
    rintro ⟨listedAt, hentry, htime⟩
    obtain ⟨times, hdetected⟩ := h.mem_detected hentry
    rw [hdetected] at hhead
    obtain rfl := Option.some.inj hhead
    omega
  · intro hend time htime hwindow
    rw [limitRequest_iff h]
    cases hdetected : s.detected request.peerIdString with
    | nil =>
      rw [hdetected] at htime
      cases htime
    | cons latest times =>
      have hle : time ≤ latest := by
        rw [hdetected] at htime
        rcases List.mem_cons.mp htime with rfl | hmem
        · exact Nat.le_refl _
        · exact (List.pairwise_cons.mp (hdetected ▸ h.sorted request.peerIdString)).1 time hmem
      by_cases hlate : latest + 59 * (1000 * 60) < request.now
      · exact .inr (hend latest (by rw [hdetected]; rfl) hlate (by omega))
      · refine .inl ⟨latest, ?_, by omega⟩
        refine (h.some _ latest times hdetected).resolve_right ?_
        rintro ⟨-, hover⟩
        have hclock := horder.2.1
        omega

/-! ### Peers that keep to the limits -/

theorem detected_askLimiters {peer : String}
    (h : request.peerIdString = peer → request.exceedsSpam = false) :
    (s.askLimiters request).2.detected peer = s.detected peer := by
  rw [askLimiters]
  cases hspam : request.exceedsSpam with
  | true =>
    refine Function.update_of_ne ?_ ..
    rintro rfl
    rw [h rfl] at hspam
    cases hspam
  | false => rfl

theorem detected_afterRequest {peer : String}
    (h : request.peerIdString = peer → request.exceedsSpam = false) :
    (s.afterRequest request).detected peer = s.detected peer := by
  change (s.limitRequest request).2.detected peer = _
  rw [limitRequest]
  split
  · split
    · rfl
    · exact detected_askLimiters h
  · exact detected_askLimiters h

end RateLimitState

namespace RequestSequence

open RateLimitState

variable (sequence : RequestSequence)

/-- RUN (invariant): it holds all along the sequence. -/
theorem always_inv : Always (fun before => (initial.afterAll before).Inv) sequence.requests := by
  refine sequence.inOrder.always_foldl (C := InOrder) (K := Inv) inv_initial ?_
  intro s request hinv horder
  exact hinv.afterRequest horder

/-- RUN (spared): a peer that never exceeds a limit is never rejected. -/
theorem spares {peer : String} (hkeeps : ∀ request ∈ sequence.requests,
    request.peerIdString = peer → request.exceedsSpam = false ∧ request.exceedsBasic = false) :
    Along (fun before request => request.peerIdString = peer →
      ((initial.afterAll before).limitRequest request).1 = false) sequence.requests := by
  have halong := along_of_forall_mem hkeeps
  have hnone : Always (fun before => (initial.afterAll before).detected peer = [])
      sequence.requests := by
    refine halong.always_foldl (C := fun _ request => request.peerIdString = peer →
        request.exceedsSpam = false ∧ request.exceedsBasic = false)
      (K := fun s : RateLimitState => s.detected peer = []) rfl ?_
    intro s request hnone hrequest
    rw [detected_afterRequest fun hpeer => (hrequest hpeer).1, hnone]
  refine halong.imp (hnone.and sequence.always_inv) ?_
  rintro before request ⟨hnone, hinv⟩ hrequest rfl
  obtain ⟨hspam, hbasic⟩ := hrequest rfl
  refine Bool.eq_false_iff.mpr ((limitRequest_iff hinv).not.mpr ?_)
  rintro (⟨listedAt, hentry, -⟩ | hexceeds | hexceeds)
  · rw [hinv.none _ hnone] at hentry
    cases hentry
  · rw [hspam] at hexceeds
    cases hexceeds
  · rw [hbasic] at hexceeds
    cases hexceeds

/-- CODE BUG (black list): the black-listing lasts if and only if every request in the last minute of
    the window of the latest detection of its peer exceeds a limit itself. -/
theorem blackListingLasts_iff : sequence.BlackListingLasts ↔
    Along (fun before => (initial.afterAll before).ExceedsAtTheEnd) sequence.requests := by
  have hlasts := sequence.inOrder.iff sequence.always_inv
    fun before request hinv (horder : InOrder _ request) => lasts_iff hinv horder
  rw [← hlasts]
  constructor
  · exact BlackListingLasts.rejects
  · intro hrejects
    exact ⟨hrejects, fun peer hkeeps => sequence.spares hkeeps⟩

/-- A request at which neither limiter reports anything. -/
def quietRequest (now : ℕ) : PeerRequest := ⟨"QmPeer", now, now, false, false⟩

/-- A request at which the peer is detected. -/
def spamRequest (now : ℕ) : PeerRequest := { quietRequest now with exceedsSpam := true }

theorem inOrder_lastMinute : Along (fun before => (initial.afterAll before).InOrder)
    [spamRequest 1, quietRequest (1 + 59 * 60000 + 30000)] := by
  rw [along_cons, along_cons]
  refine ⟨⟨by decide, Nat.zero_le _, Nat.le_refl _⟩, ⟨by decide, ?_, Nat.le_refl _⟩, along_nil⟩
  change 1 ≤ 1 + 59 * 60000 + 30000
  decide

/-- A spammer is detected, and asks again after fifty-nine minutes and a half. -/
def lastMinute : RequestSequence where
  requests := [spamRequest 1, quietRequest (1 + 59 * 60000 + 30000)]
  inOrder := inOrder_lastMinute

/-- COUNTEREXAMPLE: the second request is let through, half a minute before the window is over. -/
theorem not_blackListingLasts_lastMinute : ¬ lastMinute.BlackListingLasts := by
  intro hlasts
  have hprefix : [spamRequest 1] ++ [quietRequest (1 + 59 * 60000 + 30000)] <+:
      lastMinute.requests := List.prefix_refl _
  have hrejected := hlasts.rejects _ _ hprefix 1 List.mem_cons_self (by decide)
  have hinv := lastMinute.always_inv _ ((List.prefix_append _ _).trans hprefix)
  rcases (limitRequest_iff hinv).mp hrejected with ⟨listedAt, hentry, htime⟩ | hspam | hbasic
  · obtain rfl : 1 = listedAt := Option.some.inj hentry
    exact absurd htime (by decide)
  · cases hspam
  · cases hbasic

end RequestSequence

end OtNode
