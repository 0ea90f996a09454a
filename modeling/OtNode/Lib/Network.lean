import Mathlib.Logic.Function.Basic
import Mathlib.Tactic.Common

/-! Nodes that exchange messages, some of which send what they like.

    A packet that was sent may be lost, and may arrive any number of times, in any order. What a node
    claims in a message is about itself. Where an honest node claims only what is true of it, and stays
    true, whatever any node has heard of it is true of it, in every run. -/

namespace OtNode.Network

/-- What a node makes of a step of its own, with the messages it sends in it, and of a message that
    arrives. -/
structure Protocol (N S A M : Type) where
  act : N → S → A → S × List (N × M)
  receive : N → S → N → M → S

/-- A message on its way. -/
structure Packet (N M : Type) where
  sender : N
  receiver : N
  message : M
  deriving DecidableEq

/-- The nodes, and the packets sent so far. -/
structure World (N S M : Type) where
  nodes : N → S
  sent : List (Packet N M)

/-- A node takes a step, a packet arrives, for the first time or again, or a packet is sent that the
    protocol does not ask for. -/
inductive Event (N A M : Type) where
  | act (n : N) (a : A)
  | deliver (i : ℕ)
  | forge (packet : Packet N M)
  deriving DecidableEq

/-- Packets that the protocol does not ask for come from nodes that are not honest. -/
def Event.Lawful {N A M : Type} (honest : N → Prop) : Event N A M → Prop
  | forge packet => ¬ honest packet.sender
  | _ => True

variable {N S A M C : Type} [DecidableEq N]

namespace World

variable (P : Protocol N S A M) (w : World N S M)

/-- A node takes a step of its own, and sends what it has to. -/
def act (n : N) (a : A) : World N S M where
  nodes := Function.update w.nodes n (P.act n (w.nodes n) a).1
  sent := w.sent ++ (P.act n (w.nodes n) a).2.map fun out => ⟨n, out.1, out.2⟩

/-- A packet arrives. -/
def receive (packet : Packet N M) : World N S M where
  nodes := Function.update w.nodes packet.receiver
    (P.receive packet.receiver (w.nodes packet.receiver) packet.sender packet.message)
  sent := w.sent

/-- A step. -/
def step : Event N A M → World N S M
  | .act n a => w.act P n a
  | .deliver i => (w.sent[i]?).elim w (w.receive P)
  | .forge packet => { w with sent := w.sent ++ [packet] }

/-- The steps of a run. -/
def run (events : List (Event N A M)) : World N S M := events.foldl (step P) w

variable {P w} {n p : N} {a : A} {packet : Packet N M}

@[simp] theorem nodes_act_self : (w.act P n a).nodes n = (P.act n (w.nodes n) a).1 :=
  Function.update_self ..

theorem nodes_act_of_ne (h : p ≠ n) : (w.act P n a).nodes p = w.nodes p :=
  Function.update_of_ne h ..

@[simp] theorem nodes_receive_self : (w.receive P packet).nodes packet.receiver =
    P.receive packet.receiver (w.nodes packet.receiver) packet.sender packet.message :=
  Function.update_self ..

theorem nodes_receive_of_ne (h : p ≠ packet.receiver) :
    (w.receive P packet).nodes p = w.nodes p := Function.update_of_ne h ..

end World

/-- What the messages claim of their senders, by the receiver, when that is so, and what a node has heard
    of others. `Inv` is what each node keeps to itself. -/
structure Testimony (P : Protocol N S A M) (C : Type) where
  claim : N → M → C
  Holds : S → C → Prop
  Heard : N → S → N → C → Prop
  Inv : N → S → Prop

/-- A node sends only claims that hold of it, and they go on to hold. What it has heard it was told, or
    it is about itself. -/
structure Testimony.Sound {P : Protocol N S A M} (T : Testimony P C) : Prop where
  inv_act : ∀ {n s} a, T.Inv n s → T.Inv n (P.act n s a).1
  inv_receive : ∀ {n s} sender m, T.Inv n s → T.Inv n (P.receive n s sender m)
  holds_act : ∀ {n s c} a, T.Holds s c → T.Holds (P.act n s a).1 c
  holds_receive : ∀ {n s c} sender m, T.Holds s c → T.Holds (P.receive n s sender m) c
  sends : ∀ {n s a out}, T.Inv n s → out ∈ (P.act n s a).2 →
    T.Holds (P.act n s a).1 (T.claim out.1 out.2)
  heard_act : ∀ {n s a p c}, T.Inv n s → T.Heard n (P.act n s a).1 p c →
    T.Heard n s p c ∨ p = n ∧ T.Holds (P.act n s a).1 c
  heard_receive : ∀ {n s sender m p c}, T.Inv n s → T.Heard n (P.receive n s sender m) p c →
    T.Heard n s p c ∨ p = sender ∧ c = T.claim n m

/-- Each node keeps its invariant, and what honest nodes say, and what is heard of them, holds. -/
structure Testimony.Truthful {P : Protocol N S A M} (T : Testimony P C) (honest : N → Prop)
    (w : World N S M) : Prop where
  inv : ∀ n, T.Inv n (w.nodes n)
  said : ∀ packet ∈ w.sent, honest packet.sender →
    T.Holds (w.nodes packet.sender) (T.claim packet.receiver packet.message)
  heard : ∀ n p c, honest p → T.Heard n (w.nodes n) p c → T.Holds (w.nodes p) c

namespace Testimony.Sound

variable {P : Protocol N S A M} {T : Testimony P C} {honest : N → Prop} {w : World N S M}

/-- STEP (own): what holds of a node holds after a step of any node. -/
theorem holds_nodes_act (hsound : T.Sound) {n p : N} {c : C} {a : A} (h : T.Holds (w.nodes p) c) :
    T.Holds ((w.act P n a).nodes p) c := by
  rcases eq_or_ne p n with rfl | hne
  · rw [World.nodes_act_self]
    exact hsound.holds_act a h
  · rwa [World.nodes_act_of_ne hne]

/-- STEP (message): what holds of a node holds after a message has arrived at any node. -/
theorem holds_nodes_receive (hsound : T.Sound) {packet : Packet N M} {p : N} {c : C}
    (h : T.Holds (w.nodes p) c) : T.Holds ((w.receive P packet).nodes p) c := by
  rcases eq_or_ne p packet.receiver with rfl | hne
  · rw [World.nodes_receive_self]
    exact hsound.holds_receive packet.sender packet.message h
  · rwa [World.nodes_receive_of_ne hne]

/-- STEP (own): after a step of a node, what is heard of honest nodes holds of them. -/
theorem truthful_act (hsound : T.Sound) (h : T.Truthful honest w) (n : N) (a : A) :
    T.Truthful honest (w.act P n a) where
  inv p := by
    rcases eq_or_ne p n with rfl | hne
    · rw [World.nodes_act_self]
      exact hsound.inv_act a (h.inv p)
    · rw [World.nodes_act_of_ne hne]
      exact h.inv p
  said packet hpacket hhonest := by
    rcases List.mem_append.mp hpacket with hearlier | hnew
    · exact hsound.holds_nodes_act (h.said packet hearlier hhonest)
    · obtain ⟨out, hout, rfl⟩ := List.mem_map.mp hnew
      rw [World.nodes_act_self]
      exact hsound.sends (h.inv n) hout
  heard q p c hhonest hheard := by
    rcases eq_or_ne q n with rfl | hne
    · rw [World.nodes_act_self] at hheard
      rcases hsound.heard_act (h.inv q) hheard with hearlier | ⟨rfl, hholds⟩
      · exact hsound.holds_nodes_act (h.heard q p c hhonest hearlier)
      · rwa [World.nodes_act_self]
    · rw [World.nodes_act_of_ne hne] at hheard
      exact hsound.holds_nodes_act (h.heard q p c hhonest hheard)

/-- STEP (message): after a message has arrived, what is heard of honest nodes holds of them. -/
theorem truthful_receive (hsound : T.Sound) (h : T.Truthful honest w) {packet : Packet N M}
    (hsent : packet ∈ w.sent) : T.Truthful honest (w.receive P packet) where
  inv n := by
    rcases eq_or_ne n packet.receiver with rfl | hne
    · rw [World.nodes_receive_self]
      exact hsound.inv_receive packet.sender packet.message (h.inv packet.receiver)
    · rw [World.nodes_receive_of_ne hne]
      exact h.inv n
  said other hother hhonest := hsound.holds_nodes_receive (h.said other hother hhonest)
  heard n p c hhonest hheard := by
    rcases eq_or_ne n packet.receiver with rfl | hne
    · rw [World.nodes_receive_self] at hheard
      rcases hsound.heard_receive (h.inv packet.receiver) hheard with hearlier | ⟨rfl, rfl⟩
      · exact hsound.holds_nodes_receive (h.heard packet.receiver p c hhonest hearlier)
      · exact hsound.holds_nodes_receive (h.said packet hsent hhonest)
    · rw [World.nodes_receive_of_ne hne] at hheard
      exact hsound.holds_nodes_receive (h.heard n p c hhonest hheard)

/-- RUN: in every run, what is heard of honest nodes holds of them. -/
theorem truthful_run (hsound : T.Sound) {events : List (Event N A M)}
    (hlawful : ∀ event ∈ events, event.Lawful honest) (h : T.Truthful honest w) :
    T.Truthful honest (w.run P events) := by
  induction events generalizing w with
  | nil => exact h
  | cons event events ih =>
    obtain ⟨hfirst, hrest⟩ := List.forall_mem_cons.mp hlawful
    refine ih hrest ?_
    cases event with
    | act n a => exact hsound.truthful_act h n a
    | deliver i =>
      rw [World.step]
      cases hpacket : w.sent[i]? with
      | none => exact h
      | some packet => exact hsound.truthful_receive h (List.mem_of_getElem? hpacket)
    | forge packet =>
      refine ⟨h.inv, ?_, h.heard⟩
      intro other hother hhonest
      rcases List.mem_append.mp hother with hearlier | hnew
      · exact h.said other hearlier hhonest
      · obtain rfl := List.mem_singleton.mp hnew
        exact absurd hhonest hfirst

end Testimony.Sound

end OtNode.Network
