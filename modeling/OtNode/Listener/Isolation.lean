import OtNode.Lib.Threads
import OtNode.Listener.Shared

/-! When the runs of several blockchains on the one command object do not disturb each other: each
    finds, whenever it goes on, what it left in the fields that it reads. -/

namespace OtNode

open Utf BlockchainEvent Threads

/-- What belongs to the runs of a blockchain: what they left in the fields, and what lies behind the
    services. -/
structure ListenerView (W : Type) where
  currentBlock : ℤ
  dependentEvents : List BlockchainEvent
  newDependentEvents : List BlockchainEvent
  invalidatedContracts : List Address
  maxNumberOfHistoricalBlocksForSync : HistoricalBlocks
  world : W

namespace ListenerMemory

variable {W : Type} (blockchain : JsString) (m : ListenerMemory W)

/-- The view of a blockchain. -/
def view : ListenerView W where
  currentBlock := m.currentBlock.left blockchain
  dependentEvents := m.dependentEvents.left blockchain
  newDependentEvents := m.newDependentEvents.left blockchain
  invalidatedContracts := m.invalidatedContracts.left blockchain
  maxNumberOfHistoricalBlocksForSync := m.maxNumberOfHistoricalBlocksForSync.left blockchain
  world := m.worlds blockchain

/-- The loop has an event left that it does not skip. -/
def Handles (index : ℕ) : Prop :=
  ∃ e ∈ m.dependentEvents.value.drop index, e.contractAddress ∉ m.invalidatedContracts.value

/-- The loop finds what the run left in the fields that it reads up to its next await:
    `invalidatedContracts` if an event is left, and `newDependentEvents` if one is handled. -/
def LoopKept (index : ℕ) : Prop :=
  m.dependentEvents.Kept blockchain ∧
    (m.dependentEvents.value.drop index ≠ [] → m.invalidatedContracts.Kept blockchain) ∧
    (m.Handles index → m.newDependentEvents.Kept blockchain)

end ListenerMemory

namespace ListenerServices

variable {W : Type} (s : ListenerServices W)

/-- The runs of all blockchains on the command object. -/
def system : System JsString ListenerLocal (ListenerMemory W) (ListenerView W) where
  step := s.resume
  view := ListenerMemory.view

/-- The number of blocks to sync is the one that the run would have with what it left in the field
    itself: what it found there is its own, or the same as it would compute. -/
def LimitKept (blockchain : JsString) (m : ListenerMemory W) (w : W) : Prop :=
  s.getMaxNumberOfHistoricalBlocksForSync (m.maxBlocksToSync blockchain) w =
    s.getMaxNumberOfHistoricalBlocksForSync
      (m.maxNumberOfHistoricalBlocksForSync.left blockchain) w

/-- A run that goes on finds what it left in the fields that it reads up to its next await. -/
def FieldsKept (blockchain : JsString) (l : ListenerLocal) (m : ListenerMemory W) : Prop :=
  match l.stage with
  | .lastCheckedBlock =>
    (s.getLastCheckedBlock (m.worlds blockchain)).1 ≠ none → m.currentBlock.Kept blockchain
  | .syncing _ _ => s.LimitKept blockchain m (m.worlds blockchain)
  | .pastEvents last current n =>
    (s.getPastEvents blockchain MonitoredContract.all MonitoredEvent.all last current n
      (m.worlds blockchain)).1 = some [] → m.currentBlock.Kept blockchain
  | .inserting newEvents =>
    (s.insertBlockchainEvents newEvents (m.worlds blockchain)).1 ≠ none →
      m.currentBlock.Kept blockchain
  | .unprocessed =>
    ∀ es, (s.getAllUnprocessedBlockchainEvents blockchain (m.worlds blockchain)).1 = some es →
      (m.batch blockchain es).LoopKept blockchain 0
  | .handling index => m.LoopKept blockchain (index + 1)
  | .removing _ r =>
    (s.removeContractEventsAfterBlock r.contract r.event.contractAddress r.event.blockNumber
      r.event.transactionIndex (m.worlds r.event.blockchain)).1 ≠ none →
        m.currentBlock.Kept blockchain
  | .resyncing _ r _ => s.LimitKept blockchain m (m.worlds r.event.blockchain)
  | _ => True

/-- No run has started. -/
def idle (worlds : JsString → W) : Config JsString ListenerLocal (ListenerMemory W) where
  locals := fun _ => {}
  memory := .constructed worlds

/-- The runs of a blockchain do in an interleaving what they do alone, to the events of the
    blockchain. -/
structure Isolated (worlds : JsString → W) (interleaving : List JsString)
    (blockchain : JsString) : Prop where
  locals : (s.system.run (idle worlds) interleaving).locals blockchain =
    (s.system.alone (idle worlds) blockchain (interleaving.count blockchain)).locals blockchain
  world : (s.system.run (idle worlds) interleaving).memory.worlds blockchain =
    (s.system.alone (idle worlds) blockchain (interleaving.count blockchain)).memory.worlds
      blockchain
  own : ∀ t ∈ ((s.system.run (idle worlds) interleaving).locals blockchain).turns,
    t.event.blockchain = blockchain

end ListenerServices

/-! ### What a run sets -/

section Sets

variable {W : Type} {b c : JsString} {m : ListenerMemory W}

@[simp] theorem SharedField.left_set_self {α : Type} (f : SharedField α) (v : α) :
    (f.set b v).left b = v := Function.update_self ..

theorem SharedField.left_set_of_ne {α : Type} (f : SharedField α) (v : α) (h : c ≠ b) :
    (f.set b v).left c = f.left c := Function.update_of_ne h ..

@[simp] theorem SharedField.left_use_self {α : Type} (f : SharedField α) (v : α) :
    (f.use b v).left b = v := Function.update_self ..

theorem SharedField.left_use_of_ne {α : Type} (f : SharedField α) (v : α) (h : c ≠ b) :
    (f.use b v).left c = f.left c := Function.update_of_ne h ..

@[simp] theorem SharedField.kept_set {α : Type} (f : SharedField α) (v : α) :
    (f.set b v).Kept b := (left_set_self f v).symm

namespace ListenerMemory

@[simp] theorem view_setWorld (w : W) :
    (m.setWorld b w).view b = { m.view b with world := w } := by
  simp [view, setWorld]

@[simp] theorem view_setCurrentBlock (n : ℤ) :
    (m.setCurrentBlock b n).view b = { m.view b with currentBlock := n } := by
  simp [view, setCurrentBlock]

@[simp] theorem view_setDependentEvents (es : List BlockchainEvent) :
    (m.setDependentEvents b es).view b = { m.view b with dependentEvents := es } := by
  simp [view, setDependentEvents]

@[simp] theorem view_setNewDependentEvents (es : List BlockchainEvent) :
    (m.setNewDependentEvents b es).view b = { m.view b with newDependentEvents := es } := by
  simp [view, setNewDependentEvents]

@[simp] theorem view_setInvalidatedContracts (as : List Address) :
    (m.setInvalidatedContracts b as).view b = { m.view b with invalidatedContracts := as } := by
  simp [view, setInvalidatedContracts]

@[simp] theorem view_findMaxBlocksToSync : (m.findMaxBlocksToSync b).view b = m.view b := rfl

@[simp] theorem view_returnMaxBlocksToSync (n : Option ℤ) :
    (m.returnMaxBlocksToSync b n).view b =
      { m.view b with maxNumberOfHistoricalBlocksForSync := some n } := by
  simp only [view, returnMaxBlocksToSync]
  split_ifs <;> simp

/-- Every field holds what the runs of a blockchain left in it, and so does what they found. -/
structure Owned (blockchain : JsString) (m : ListenerMemory W) : Prop where
  currentBlock : m.currentBlock.Kept blockchain
  dependentEvents : m.dependentEvents.Kept blockchain
  newDependentEvents : m.newDependentEvents.Kept blockchain
  invalidatedContracts : m.invalidatedContracts.Kept blockchain
  maxNumberOfHistoricalBlocksForSync : m.maxNumberOfHistoricalBlocksForSync.Kept blockchain
  maxBlocksToSync :
    m.maxBlocksToSync blockchain = m.maxNumberOfHistoricalBlocksForSync.left blockchain

/-- A run of a blockchain may lead from `m` to `n`: the views of the others stay as they are, and it
    goes on to own what it owns. -/
structure Sets (blockchain : JsString) (m n : ListenerMemory W) : Prop where
  frame : ∀ c, c ≠ blockchain → n.view c = m.view c
  owned : m.Owned blockchain → n.Owned blockchain

theorem Sets.refl (b : JsString) (m : ListenerMemory W) : Sets b m m :=
  ⟨fun _ _ => rfl, id⟩

theorem Sets.trans {n p : ListenerMemory W} (hn : Sets b m n) (hp : Sets b n p) : Sets b m p :=
  ⟨fun c hc => (hp.frame c hc).trans (hn.frame c hc), fun h => hp.owned (hn.owned h)⟩

theorem sets_setWorld (w : W) : Sets b m (m.setWorld b w) where
  frame := fun c hc => by simp [view, setWorld, hc]
  owned := fun h => ⟨h.1, h.2, h.3, h.4, h.5, h.6⟩

theorem sets_setCurrentBlock (n : ℤ) : Sets b m (m.setCurrentBlock b n) where
  frame := fun c hc => by simp [view, setCurrentBlock, SharedField.left_set_of_ne, hc]
  owned := fun h => ⟨SharedField.kept_set .., h.2, h.3, h.4, h.5, h.6⟩

theorem sets_setDependentEvents (es : List BlockchainEvent) :
    Sets b m (m.setDependentEvents b es) where
  frame := fun c hc => by simp [view, setDependentEvents, SharedField.left_set_of_ne, hc]
  owned := fun h => ⟨h.1, SharedField.kept_set .., h.3, h.4, h.5, h.6⟩

theorem sets_setNewDependentEvents (es : List BlockchainEvent) :
    Sets b m (m.setNewDependentEvents b es) where
  frame := fun c hc => by simp [view, setNewDependentEvents, SharedField.left_set_of_ne, hc]
  owned := fun h => ⟨h.1, h.2, SharedField.kept_set .., h.4, h.5, h.6⟩

theorem sets_setInvalidatedContracts (as : List Address) :
    Sets b m (m.setInvalidatedContracts b as) where
  frame := fun c hc => by simp [view, setInvalidatedContracts, SharedField.left_set_of_ne, hc]
  owned := fun h => ⟨h.1, h.2, h.3, SharedField.kept_set .., h.5, h.6⟩

theorem sets_findMaxBlocksToSync : Sets b m (m.findMaxBlocksToSync b) where
  frame := fun _ _ => rfl
  owned := fun h => ⟨h.1, h.2, h.3, h.4, h.5, (Function.update_self ..).trans h.5⟩

theorem sets_returnMaxBlocksToSync {n : Option ℤ}
    (hn : (m.maxBlocksToSync b).isSet = true → m.maxBlocksToSync b = some n) :
    Sets b m (m.returnMaxBlocksToSync b n) where
  frame := fun c hc => by
    simp only [view, returnMaxBlocksToSync]
    split_ifs
    · rw [SharedField.left_use_of_ne _ _ hc]
    · rw [SharedField.left_set_of_ne _ _ hc]
  owned := fun h => by
    refine ⟨h.1, h.2, h.3, h.4, ?_, ?_⟩
    · simp only [returnMaxBlocksToSync]
      split_ifs with hset
      · have hvalue : m.maxNumberOfHistoricalBlocksForSync.value = some n :=
          h.5.trans (h.6.symm.trans (hn hset))
        exact hvalue.trans (SharedField.left_use_self ..).symm
      · exact SharedField.kept_set ..
    · simp only [returnMaxBlocksToSync]
      split_ifs <;> simp

end ListenerMemory

end Sets

/-! ### What a step does -/

/-- A replacement under way is of the blockchain. -/
def ListenerStage.Own (blockchain : JsString) : ListenerStage → Prop
  | .removing _ r | .resyncing _ r _ | .refetching _ r _ _ => r.event.blockchain = blockchain
  | .reinserting _ r newEvents =>
    r.event.blockchain = blockchain ∧ ∀ e ∈ newEvents, e.blockchain = blockchain
  | _ => True

/-- The events of a run are those of its blockchain. -/
structure ListenerLocal.Own {W : Type} (blockchain : JsString) (l : ListenerLocal)
    (v : ListenerView W) : Prop where
  turns : ∀ t ∈ l.turns, t.event.blockchain = blockchain
  stage : l.stage.Own blockchain
  dependent : ∀ e ∈ v.dependentEvents, e.blockchain = blockchain
  new : ∀ e ∈ v.newDependentEvents, e.blockchain = blockchain

section Steps

variable {W : Type} {s : ListenerServices W} {b : JsString} {l : ListenerLocal}
  {m m' : ListenerMemory W}

/-- What a run comes to looks the same to it. -/
def LooksSame (blockchain : JsString) (x y : ListenerLocal × ListenerMemory W) : Prop :=
  x.1 = y.1 ∧ x.2.view blockchain = y.2.view blockchain

theorem SharedField.Kept.congr {α : Type} {f g : SharedField α} (hf : f.Kept b) (hg : g.Kept b)
    (h : f.left b = g.left b) : f.value = g.value := by
  rw [hf, hg, h]

section Answer

variable {α : Type} {call : ServiceCall W α} {caught : ListenerStage}
  {go : α → ListenerMemory W → ListenerLocal × ListenerMemory W}

theorem looksSame_answer (hview : m.view b = m'.view b)
    (hgo : ∀ a w, call (m.worlds b) = (some a, w) →
      LooksSame b (go a (m.setWorld b w)) (go a (m'.setWorld b w))) :
    LooksSame b (m.answer b call l caught go) (m'.answer b call l caught go) := by
  have hworld : m.worlds b = m'.worlds b := congrArg ListenerView.world hview
  rcases hcall : call (m.worlds b) with ⟨- | a, w⟩
  · rw [ListenerMemory.answer_of_none hcall, ListenerMemory.answer_of_none (hworld ▸ hcall)]
    exact ⟨rfl, by simp [hview]⟩
  · rw [ListenerMemory.answer_of_some hcall, ListenerMemory.answer_of_some (hworld ▸ hcall)]
    exact hgo a w hcall

theorem sets_answer (hgo : ∀ a w, call (m.worlds b) = (some a, w) →
      ListenerMemory.Sets b (m.setWorld b w) (go a (m.setWorld b w)).2) :
    ListenerMemory.Sets b m (m.answer b call l caught go).2 := by
  rcases hcall : call (m.worlds b) with ⟨- | a, w⟩
  · rw [ListenerMemory.answer_of_none hcall]
    exact ListenerMemory.sets_setWorld w
  · rw [ListenerMemory.answer_of_some hcall]
    exact (ListenerMemory.sets_setWorld w).trans (hgo a w hcall)

/-- An await without a replacement. -/
theorem own_goTo {stage : ListenerStage} {v : ListenerView W} (h : l.Own b v)
    (hstage : stage.Own b) : (l.goTo stage).Own b v :=
  ⟨h.turns, hstage, h.dependent, h.new⟩

theorem own_answer (h : l.Own b (m.view b)) (hcaught : caught.Own b)
    (hgo : ∀ a w, call (m.worlds b) = (some a, w) → l.Own b ((m.setWorld b w).view b) →
      (go a (m.setWorld b w)).1.Own b ((go a (m.setWorld b w)).2.view b)) :
    (m.answer b call l caught go).1.Own b ((m.answer b call l caught go).2.view b) := by
  have hset (w : W) : l.Own b ((m.setWorld b w).view b) := by
    rw [ListenerMemory.view_setWorld]
    exact ⟨h.turns, h.stage, h.dependent, h.new⟩
  rcases hcall : call (m.worlds b) with ⟨- | a, w⟩
  · rw [ListenerMemory.answer_of_none hcall]
    exact own_goTo (hset w) hcaught
  · rw [ListenerMemory.answer_of_some hcall]
    exact hgo a w hcall (hset w)

end Answer

/-! ### Handlers and the loop in a step -/

section Loop

variable {index : ℕ} {event : BlockchainEvent}

theorem looksSame_processEvent (hevent : event.blockchain = b) (hview : m.view b = m'.view b)
    (hkept : m.invalidatedContracts.Kept b) (hkept' : m'.invalidatedContracts.Kept b) :
    LooksSame b (s.processEvent b index event l m) (s.processEvent b index event l m') := by
  subst hevent
  have hworld : m.worlds event.blockchain = m'.worlds event.blockchain :=
    congrArg ListenerView.world hview
  have hcontracts : m.invalidatedContracts.value = m'.invalidatedContracts.value :=
    hkept.congr hkept' (congrArg ListenerView.invalidatedContracts hview)
  rcases s.processEvent_spec event.blockchain index event l (m.worlds event.blockchain) with
    ⟨w, hspec⟩ | ⟨w, r, -, hspec⟩
  · rw [hspec m rfl, hspec m' hworld.symm]
    exact ⟨rfl, by simp [hview]⟩
  · rw [hspec m rfl, hspec m' hworld.symm, hcontracts]
    exact ⟨rfl, by simp [hview]⟩

theorem sets_processEvent (hevent : event.blockchain = b) :
    ListenerMemory.Sets b m (s.processEvent b index event l m).2 := by
  subst hevent
  rcases s.processEvent_spec event.blockchain index event l (m.worlds event.blockchain) with
    ⟨w, hspec⟩ | ⟨w, r, -, hspec⟩
  · rw [hspec m rfl]
    exact ListenerMemory.sets_setWorld w
  · rw [hspec m rfl]
    exact (ListenerMemory.sets_setWorld w).trans (ListenerMemory.sets_setInvalidatedContracts _)

theorem own_processEvent (hevent : event.blockchain = b) (h : l.Own b (m.view b)) :
    (s.processEvent b index event l m).1.Own b ((s.processEvent b index event l m).2.view b) := by
  subst hevent
  rcases s.processEvent_spec event.blockchain index event l (m.worlds event.blockchain) with
    ⟨w, hspec⟩ | ⟨w, r, hr, hspec⟩
  · rw [hspec m rfl, ListenerMemory.view_setWorld]
    exact ⟨h.turns, trivial, h.dependent, h.new⟩
  · rw [hspec m rfl, ListenerMemory.view_setInvalidatedContracts, ListenerMemory.view_setWorld]
    exact ⟨h.turns, congrArg BlockchainEvent.blockchain hr, h.dependent, h.new⟩

/-- The loop comes to its end. -/
theorem process_of_nil {loop : DependentLoop}
    (hloop : (m.loop index l.turns).skipInvalidated (m.loop index l.turns).pending = loop)
    (hpending : loop.pending = []) :
    s.processDependentEvents b index l m =
      ({ l with stage := .committing, turns := loop.turns },
        (m.setDependentEvents b loop.dependentEvents).setInvalidatedContracts b []) := by
  rw [ListenerServices.processDependentEvents]
  simp only [hloop, hpending]

/-- The loop comes to an event that it handles. -/
theorem process_of_cons {loop : DependentLoop} {rest : List BlockchainEvent}
    (hloop : (m.loop index l.turns).skipInvalidated (m.loop index l.turns).pending = loop)
    (hpending : loop.pending = event :: rest) :
    s.processDependentEvents b index l m =
      s.processEvent b index event
        { l with turns := loop.turns ++ [⟨event, loop.invalidatedContracts, true⟩] }
        ((m.setDependentEvents b loop.merge.dependentEvents).setNewDependentEvents b
          loop.merge.newDependentEvents) := by
  rw [ListenerServices.processDependentEvents]
  simp only [hloop, hpending]

/-- A loop that skips all that is left comes to its end. -/
theorem pending_of_not_handles (turns : List DependentTurn) (h : ¬ m.Handles index) :
    ((m.loop index turns).skipInvalidated (m.loop index turns).pending).pending = [] := by
  rw [DependentLoop.pending_skipInvalidated, List.dropWhile_eq_nil_iff]
  intro e he
  by_contra hvalid
  exact h ⟨e, he, fun hinvalid => hvalid (decide_eq_true hinvalid)⟩

theorem ne_nil_of_handles (h : m.Handles index) : m.dependentEvents.value.drop index ≠ [] := by
  obtain ⟨e, he, -⟩ := h
  exact List.ne_nil_of_mem he

/-- Loops that find the same, as far as they read it, come to the same. -/
theorem looksSame_process (hview : m.view b = m'.view b) (hkept : m.LoopKept b index)
    (hkept' : m'.LoopKept b index) (hown : ∀ e ∈ m.dependentEvents.value, e.blockchain = b) :
    LooksSame b (s.processDependentEvents b index l m)
      (s.processDependentEvents b index l m') := by
  obtain ⟨hevents, hcontracts, hnew⟩ := hkept
  obtain ⟨hevents', hcontracts', hnew'⟩ := hkept'
  have hsame : m.dependentEvents.value = m'.dependentEvents.value :=
    hevents.congr hevents' (congrArg ListenerView.dependentEvents hview)
  rw [← hsame] at hcontracts'
  have hinvalid (hleft : m.dependentEvents.value.drop index ≠ []) :
      m.invalidatedContracts.value = m'.invalidatedContracts.value :=
    (hcontracts hleft).congr (hcontracts' hleft)
      (congrArg ListenerView.invalidatedContracts hview)
  by_cases hhandles : m.Handles index
  · have hleft := ne_nil_of_handles hhandles
    have hhandles' : m'.Handles index := by
      rwa [ListenerMemory.Handles, ← hsame, ← hinvalid hleft]
    have hloop : m.loop index l.turns = m'.loop index l.turns := by
      rw [ListenerMemory.loop, ListenerMemory.loop, hsame, hinvalid hleft,
        (hnew hhandles).congr (hnew' hhandles') (congrArg ListenerView.newDependentEvents hview)]
    rcases hpending : ((m.loop index l.turns).skipInvalidated
        (m.loop index l.turns).pending).pending with - | ⟨event, rest⟩
    · rw [process_of_nil rfl hpending, process_of_nil (by rw [hloop]) hpending]
      exact ⟨rfl, by simp [hview]⟩
    · have hmem : event ∈ m.dependentEvents.value := DependentLoop.mem_of_skipped hpending
      rw [process_of_cons rfl hpending, process_of_cons (by rw [hloop]) hpending]
      exact looksSame_processEvent (hown event hmem) (by simp [hview]) (hcontracts hleft)
        (hcontracts' hleft)
  · have hhandles' : ¬ m'.Handles index := by
      rintro ⟨e, he, hvalid⟩
      rw [← hsame] at he
      exact hhandles ⟨e, he, by rwa [hinvalid (List.ne_nil_of_mem he)]⟩
    rw [process_of_nil rfl (pending_of_not_handles l.turns hhandles),
      process_of_nil rfl (pending_of_not_handles l.turns hhandles')]
    by_cases hleft : m.dependentEvents.value.drop index = []
    · have hpending : (m.loop index l.turns).pending = [] := hleft
      have hpending' : (m'.loop index l.turns).pending = [] := by
        rw [hsame] at hleft
        exact hleft
      rw [hpending, hpending']
      refine ⟨rfl, ?_⟩
      simp [hview, DependentLoop.skipInvalidated, ListenerMemory.loop, hsame]
    · have hloop : m.loop index l.turns =
          { m'.loop index l.turns with newDependentEvents := m.newDependentEvents.value } := by
        rw [ListenerMemory.loop, ListenerMemory.loop, hsame, hinvalid hleft]
      rw [hloop, DependentLoop.skipInvalidated_eq, DependentLoop.skipInvalidated_eq]
      exact ⟨rfl, by simp [hview, DependentLoop.pending]⟩

theorem sets_process (hown : ∀ e ∈ m.dependentEvents.value, e.blockchain = b) :
    ListenerMemory.Sets b m (s.processDependentEvents b index l m).2 := by
  rcases hpending : ((m.loop index l.turns).skipInvalidated
      (m.loop index l.turns).pending).pending with - | ⟨event, rest⟩
  · rw [process_of_nil rfl hpending]
    exact (ListenerMemory.sets_setDependentEvents _).trans
      (ListenerMemory.sets_setInvalidatedContracts _)
  · rw [process_of_cons rfl hpending]
    refine ((ListenerMemory.sets_setDependentEvents _).trans
      (ListenerMemory.sets_setNewDependentEvents _)).trans (sets_processEvent ?_)
    exact hown event (DependentLoop.mem_of_skipped hpending)

/-- A loop that finds what the run left takes events of the blockchain. -/
theorem own_process (h : l.Own b (m.view b)) (hkept : m.LoopKept b index) :
    (s.processDependentEvents b index l m).1.Own b
      ((s.processDependentEvents b index l m).2.view b) := by
  obtain ⟨hevents, -, hnew⟩ := hkept
  have hown : ∀ e ∈ m.dependentEvents.value, e.blockchain = b := by
    intro e he
    rw [hevents] at he
    exact h.dependent e he
  have hturns : ∀ t ∈ ((m.loop index l.turns).skipInvalidated
      (m.loop index l.turns).pending).turns, t.event.blockchain = b := by
    intro t ht
    rcases DependentLoop.turn_skipInvalidated ht with ht | ht
    · exact h.turns t ht
    · exact hown _ ht
  rcases hpending : ((m.loop index l.turns).skipInvalidated
      (m.loop index l.turns).pending).pending with - | ⟨event, rest⟩
  · rw [process_of_nil rfl hpending]
    refine ⟨hturns, trivial, ?_, ?_⟩
    · intro e he
      simp only [ListenerMemory.view_setInvalidatedContracts,
        ListenerMemory.view_setDependentEvents] at he
      exact hown e (DependentLoop.mem_skipInvalidated he)
    · intro e he
      simp only [ListenerMemory.view_setInvalidatedContracts,
        ListenerMemory.view_setDependentEvents] at he
      exact h.new e he
  · have hevent : event.blockchain = b := hown event (DependentLoop.mem_of_skipped hpending)
    have hhandles : m.Handles index := by
      by_contra hno
      rw [pending_of_not_handles l.turns hno] at hpending
      cases hpending
    have hwaiting : ∀ e ∈ m.newDependentEvents.value, e.blockchain = b := by
      intro e he
      rw [hnew hhandles] at he
      exact h.new e he
    rw [process_of_cons rfl hpending]
    refine own_processEvent hevent ⟨?_, h.stage, ?_, ?_⟩
    · intro t ht
      rcases List.mem_append.1 ht with ht | ht
      · exact hturns t ht
      · rw [List.mem_singleton.1 ht]
        exact hevent
    · intro e he
      simp only [ListenerMemory.view_setNewDependentEvents,
        ListenerMemory.view_setDependentEvents] at he
      rcases DependentLoop.mem_merge he with he | he
      · exact hown e (DependentLoop.mem_skipInvalidated he)
      · rw [DependentLoop.skipInvalidated_eq] at he
        exact hwaiting e he
    · intro e he
      simp only [ListenerMemory.view_setNewDependentEvents,
        DependentLoop.newDependentEvents_merge] at he
      cases he

end Loop

/-! ### Steps -/

theorem looksSame_setWorld (w : W) (hview : m.view b = m'.view b) :
    (m.setWorld b w).view b = (m'.setWorld b w).view b := by
  simp [hview]

/-- The run passes the same current block. -/
theorem looksSame_passes (m m' : ListenerMemory W) (stage : ℤ → ListenerStage)
    (hview : m.view b = m'.view b) (hkept : m.currentBlock.Kept b)
    (hkept' : m'.currentBlock.Kept b) :
    LooksSame b (l.passes m.currentBlock.value (stage m.currentBlock.value), m)
      (l.passes m'.currentBlock.value (stage m'.currentBlock.value), m') := by
  rw [hkept.congr hkept' (congrArg ListenerView.currentBlock hview)]
  exact ⟨rfl, hview⟩

/-- The run passes the same current block to `getPastEvents`. -/
theorem looksSame_find (m m' : ListenerMemory W) (stage : ℤ → ListenerStage)
    (hview : m.view b = m'.view b) (hkept : m.currentBlock.Kept b)
    (hkept' : m'.currentBlock.Kept b) :
    LooksSame b (l.passes m.currentBlock.value (stage m.currentBlock.value),
        m.findMaxBlocksToSync b)
      (l.passes m'.currentBlock.value (stage m'.currentBlock.value),
        m'.findMaxBlocksToSync b) := by
  obtain ⟨hlocals, hview⟩ := looksSame_passes (l := l) m m' stage hview hkept hkept'
  exact ⟨hlocals, by simpa using hview⟩

/-- The run gets the same number of blocks to sync. -/
theorem looksSame_return {caught : ListenerStage} (stage : Option ℤ → ListenerStage)
    (hview : m.view b = m'.view b) (hkept : s.LimitKept b m (m.worlds b))
    (hkept' : s.LimitKept b m' (m'.worlds b)) :
    LooksSame b
      (m.answer b (s.getMaxNumberOfHistoricalBlocksForSync (m.maxBlocksToSync b)) l caught
        fun n m => (l.goTo (stage n), m.returnMaxBlocksToSync b n))
      (m'.answer b (s.getMaxNumberOfHistoricalBlocksForSync (m'.maxBlocksToSync b)) l caught
        fun n m => (l.goTo (stage n), m.returnMaxBlocksToSync b n)) := by
  have hleft : m.maxNumberOfHistoricalBlocksForSync.left b =
      m'.maxNumberOfHistoricalBlocksForSync.left b :=
    congrArg ListenerView.maxNumberOfHistoricalBlocksForSync hview
  rw [ListenerMemory.answer_congr hkept, ListenerMemory.answer_congr hkept', hleft]
  refine looksSame_answer hview fun n w _ => ⟨rfl, ?_⟩
  simp [hview]

/-- A number that was found in the field is returned. -/
theorem sets_return {caught : ListenerStage} (stage : Option ℤ → ListenerStage) :
    ListenerMemory.Sets b m
      (m.answer b (s.getMaxNumberOfHistoricalBlocksForSync (m.maxBlocksToSync b)) l caught
        fun n m => (l.goTo (stage n), m.returnMaxBlocksToSync b n)).2 := by
  refine sets_answer fun n w hcall => ListenerMemory.sets_returnMaxBlocksToSync ?_
  intro hset
  have hset' : (m.maxBlocksToSync b).isSet = true := hset
  rw [ListenerServices.getMaxNumberOfHistoricalBlocksForSync, if_pos hset'] at hcall
  exact congrArg Prod.fst hcall

/-- The batch of a run is of its blockchain. -/
theorem own_batch {es : List BlockchainEvent} (hes : ∀ e ∈ es, e.blockchain = b) :
    ∀ e ∈ (m.batch b es).dependentEvents.value, e.blockchain = b := fun e he =>
  hes e (List.mem_of_mem_filter (mem_sort.1 he))

/-- STEP (determined): a step that finds what the run left is determined by what the run sees. -/
theorem looksSame_resume (hown : l.Own b (m.view b)) (hview : m.view b = m'.view b)
    (hkept : s.FieldsKept b l m) (hkept' : s.FieldsKept b l m') :
    LooksSame b (s.resume b l m) (s.resume b l m') := by
  have hworld : m.worlds b = m'.worlds b := congrArg ListenerView.world hview
  obtain ⟨stage, currentBlocks, turns⟩ := l
  cases stage with
  | idle => exact ⟨rfl, hview⟩
  | transaction => exact looksSame_answer hview fun _ w _ => ⟨rfl, looksSame_setWorld w hview⟩
  | block =>
    refine looksSame_answer hview fun number w _ => ⟨rfl, ?_⟩
    simp [hview]
  | lastCheckedBlock =>
    refine looksSame_answer hview ?_
    intro last w hcall
    have hanswer : (s.getLastCheckedBlock (m.worlds b)).1 ≠ none := by
      rw [hcall]
      exact Option.some_ne_none last
    exact looksSame_find (m.setWorld b w) (m'.setWorld b w) _
      (looksSame_setWorld w hview) (hkept hanswer) (hkept' (hworld ▸ hanswer))
  | syncing last current => exact looksSame_return _ hview hkept hkept'
  | pastEvents last current n =>
    refine looksSame_answer hview ?_
    intro newEvents w hcall
    by_cases hnew : newEvents = []
    · have hanswer : (s.getPastEvents b MonitoredContract.all MonitoredEvent.all last current n
          (m.worlds b)).1 = some [] := by
        rw [hcall, hnew]
      simp only [if_pos hnew]
      exact looksSame_passes (m.setWorld b w) (m'.setWorld b w) _
        (looksSame_setWorld w hview) (hkept hanswer) (hkept' (hworld ▸ hanswer))
    · simp only [if_neg hnew]
      exact ⟨rfl, looksSame_setWorld w hview⟩
  | inserting newEvents =>
    refine looksSame_answer hview ?_
    intro _ w hcall
    have hanswer : (s.insertBlockchainEvents newEvents (m.worlds b)).1 ≠ none := by
      rw [hcall]
      exact Option.some_ne_none _
    exact looksSame_passes (m.setWorld b w) (m'.setWorld b w) _
      (looksSame_setWorld w hview) (hkept hanswer) (hkept' (hworld ▸ hanswer))
  | updating current =>
    exact looksSame_answer hview fun _ w _ => ⟨rfl, looksSame_setWorld w hview⟩
  | unprocessed =>
    refine looksSame_answer hview ?_
    intro es w hcall
    have hanswer : (s.getAllUnprocessedBlockchainEvents b (m.worlds b)).1 = some es := by
      rw [hcall]
    refine looksSame_process ?_ (hkept es hanswer) (hkept' es (hworld ▸ hanswer)) ?_
    · simp [ListenerMemory.batch, hview]
    · exact own_batch (s.unprocessed hanswer)
  | handling index =>
    refine looksSame_process hview hkept hkept' ?_
    intro e he
    rw [hkept.1] at he
    exact hown.dependent e he
  | removing index r =>
    obtain rfl : r.event.blockchain = b := hown.stage
    refine looksSame_answer hview ?_
    intro _ w hcall
    have hanswer : (s.removeContractEventsAfterBlock r.contract r.event.contractAddress
        r.event.blockNumber r.event.transactionIndex (m.worlds r.event.blockchain)).1 ≠ none := by
      rw [hcall]
      exact Option.some_ne_none _
    exact looksSame_find (m.setWorld r.event.blockchain w)
      (m'.setWorld r.event.blockchain w) _ (looksSame_setWorld w hview) (hkept hanswer)
      (hkept' (hworld ▸ hanswer))
  | resyncing index r current =>
    obtain rfl : r.event.blockchain = b := hown.stage
    exact looksSame_return _ hview hkept hkept'
  | refetching index r current n =>
    obtain rfl : r.event.blockchain = b := hown.stage
    refine looksSame_answer hview ?_
    intro newEvents w _
    split_ifs
    · exact ⟨rfl, looksSame_setWorld w hview⟩
    · exact ⟨rfl, looksSame_setWorld w hview⟩
  | reinserting index r newEvents =>
    obtain rfl : r.event.blockchain = b := hown.stage.1
    refine looksSame_answer hview fun _ w _ => ⟨rfl, ?_⟩
    simp [hview]
  | committing => exact looksSame_answer hview fun _ w _ => ⟨rfl, looksSame_setWorld w hview⟩
  | rollingBack => exact looksSame_answer hview fun _ w _ => ⟨rfl, looksSame_setWorld w hview⟩
  | marking => exact looksSame_answer hview fun _ w _ => ⟨rfl, looksSame_setWorld w hview⟩

/-- STEP (frame): a step of a run leaves alone what belongs to others. -/
theorem sets_resume (hown : l.Own b (m.view b)) (hkept : s.FieldsKept b l m) :
    ListenerMemory.Sets b m (s.resume b l m).2 := by
  obtain ⟨stage, currentBlocks, turns⟩ := l
  cases stage with
  | idle => exact .refl b m
  | transaction => exact sets_answer fun _ _ _ => .refl b _
  | block => exact sets_answer fun _ _ _ => ListenerMemory.sets_setCurrentBlock _
  | lastCheckedBlock => exact sets_answer fun _ _ _ => ListenerMemory.sets_findMaxBlocksToSync
  | syncing last current => exact sets_return _
  | pastEvents last current n =>
    refine sets_answer ?_
    intro newEvents w _
    split_ifs
    · exact .refl b _
    · exact .refl b _
  | inserting newEvents => exact sets_answer fun _ _ _ => .refl b _
  | updating current => exact sets_answer fun _ _ _ => .refl b _
  | unprocessed =>
    refine sets_answer ?_
    intro es w hcall
    refine (ListenerMemory.sets_setDependentEvents _).trans (sets_process (own_batch ?_))
    exact s.unprocessed (congrArg Prod.fst hcall)
  | handling index =>
    refine sets_process ?_
    intro e he
    rw [hkept.1] at he
    exact hown.dependent e he
  | removing index r =>
    obtain rfl : r.event.blockchain = b := hown.stage
    exact sets_answer fun _ _ _ => ListenerMemory.sets_findMaxBlocksToSync
  | resyncing index r current =>
    obtain rfl : r.event.blockchain = b := hown.stage
    exact sets_return _
  | refetching index r current n =>
    obtain rfl : r.event.blockchain = b := hown.stage
    refine sets_answer ?_
    intro newEvents w _
    split_ifs
    · exact .refl _ _
    · exact .refl _ _
  | reinserting index r newEvents =>
    obtain rfl : r.event.blockchain = b := hown.stage.1
    exact sets_answer fun _ _ _ => ListenerMemory.sets_setNewDependentEvents _
  | committing => exact sets_answer fun _ _ _ => .refl b _
  | rollingBack => exact sets_answer fun _ _ _ => .refl b _
  | marking => exact sets_answer fun _ _ _ => .refl b _

/-- STEP (invariant): the events of a run stay those of its blockchain. -/
theorem own_resume (hown : l.Own b (m.view b)) (hkept : s.FieldsKept b l m) :
    (s.resume b l m).1.Own b ((s.resume b l m).2.view b) := by
  obtain ⟨stage, currentBlocks, turns⟩ := l
  cases stage with
  | idle => exact own_goTo hown trivial
  | transaction => exact own_answer hown trivial fun _ _ _ h => own_goTo h trivial
  | block =>
    refine own_answer hown trivial ?_
    intro number w _ h
    rw [ListenerMemory.view_setCurrentBlock]
    exact ⟨h.turns, trivial, h.dependent, h.new⟩
  | lastCheckedBlock =>
    exact own_answer hown trivial fun _ _ _ h => ⟨h.turns, trivial, h.dependent, h.new⟩
  | syncing last current =>
    refine own_answer hown trivial ?_
    intro n w _ h
    rw [ListenerMemory.view_returnMaxBlocksToSync]
    exact ⟨h.turns, trivial, h.dependent, h.new⟩
  | pastEvents last current n =>
    refine own_answer hown trivial ?_
    intro newEvents w _ h
    split_ifs
    · exact ⟨h.turns, trivial, h.dependent, h.new⟩
    · exact own_goTo h trivial
  | inserting newEvents =>
    exact own_answer hown trivial fun _ _ _ h => ⟨h.turns, trivial, h.dependent, h.new⟩
  | updating current => exact own_answer hown trivial fun _ _ _ h => own_goTo h trivial
  | unprocessed =>
    refine own_answer hown trivial ?_
    intro es w hcall h
    have hanswer : (s.getAllUnprocessedBlockchainEvents b (m.worlds b)).1 = some es :=
      congrArg Prod.fst hcall
    refine own_process ⟨h.turns, h.stage, ?_, ?_⟩ (hkept es hanswer)
    · intro e he
      simp only [ListenerMemory.batch, ListenerMemory.view_setDependentEvents] at he
      exact s.unprocessed hanswer e (List.mem_of_mem_filter (mem_sort.1 he))
    · intro e he
      simp only [ListenerMemory.batch, ListenerMemory.view_setDependentEvents] at he
      exact h.new e he
  | handling index => exact own_process hown hkept
  | removing index r =>
    obtain rfl : r.event.blockchain = b := hown.stage
    exact own_answer hown trivial fun _ _ _ h => ⟨h.turns, rfl, h.dependent, h.new⟩
  | resyncing index r current =>
    obtain rfl : r.event.blockchain = b := hown.stage
    refine own_answer hown trivial ?_
    intro n w _ h
    rw [ListenerMemory.view_returnMaxBlocksToSync]
    exact ⟨h.turns, rfl, h.dependent, h.new⟩
  | refetching index r current n =>
    obtain rfl : r.event.blockchain = b := hown.stage
    refine own_answer hown trivial ?_
    intro newEvents w hcall h
    split_ifs
    · exact own_goTo h trivial
    · exact own_goTo h ⟨rfl, s.fetched (congrArg Prod.fst hcall)⟩
  | reinserting index r newEvents =>
    obtain ⟨rfl, hnew⟩ : r.event.blockchain = b ∧ ∀ e ∈ newEvents, e.blockchain = b := hown.stage
    refine own_answer hown trivial ?_
    intro _ w _ h
    rw [ListenerMemory.view_setNewDependentEvents]
    exact ⟨h.turns, trivial, h.dependent, hnew⟩
  | committing => exact own_answer hown trivial fun _ _ _ h => own_goTo h trivial
  | rollingBack => exact own_answer hown trivial fun _ _ _ h => own_goTo h trivial
  | marking => exact own_answer hown trivial fun _ _ _ h => own_goTo h trivial

theorem limitKept_of_owned (h : m.Owned b) (w : W) : s.LimitKept b m w := by
  rw [ListenerServices.LimitKept, h.maxBlocksToSync]

/-- A run that owns the fields finds what it left in them. -/
theorem fieldsKept_of_owned (h : m.Owned b) : s.FieldsKept b l m := by
  obtain ⟨stage, currentBlocks, turns⟩ := l
  cases stage with
  | lastCheckedBlock => exact fun _ => h.currentBlock
  | syncing last current => exact limitKept_of_owned h _
  | pastEvents last current n => exact fun _ => h.currentBlock
  | inserting newEvents => exact fun _ => h.currentBlock
  | unprocessed =>
    exact fun _ _ => ⟨SharedField.kept_set .., fun _ => h.invalidatedContracts,
      fun _ => h.newDependentEvents⟩
  | handling index =>
    exact ⟨h.dependentEvents, fun _ => h.invalidatedContracts, fun _ => h.newDependentEvents⟩
  | removing index r => exact fun _ => h.currentBlock
  | resyncing index r current => exact limitKept_of_owned h _
  | _ => trivial

end Steps

/-- As long as runs find what they left in the fields, they are independent. -/
theorem ListenerServices.independent {W : Type} (s : ListenerServices W) :
    s.system.Independent s.FieldsKept ListenerLocal.Own ListenerMemory.Owned where
  determined := fun hkept hkept' hown hview => looksSame_resume hown hview hkept hkept'
  keeps := fun hkept hown => own_resume hown hkept
  frame := fun hkept hown hne => (sets_resume hown hkept).frame _ hne
  quiet := fieldsKept_of_owned
  owns := fun howned hown => (sets_resume hown (fieldsKept_of_owned howned)).owned howned

/-- CORRECT (listener): in every interleaving of the runs of blockchains at their awaits in which
    each run finds, when it goes on, what it left in the fields it reads, the runs of each
    blockchain do what they do alone. -/
theorem isolated_of_fieldsKept {W : Type} (s : ListenerServices W) (worlds : JsString → W)
    (interleaving : List JsString)
    (h : s.system.Throughout s.FieldsKept (ListenerServices.idle worlds) interleaving)
    (blockchain : JsString) : s.Isolated worlds interleaving blockchain := by
  have hinv : s.system.Invariant ListenerLocal.Own (ListenerServices.idle worlds) := fun b =>
    ⟨nofun, trivial, nofun, nofun⟩
  have howns : (ListenerServices.idle worlds).memory.Owned blockchain :=
    ⟨rfl, rfl, rfl, rfl, rfl, rfl⟩
  obtain ⟨hlocals, hview⟩ := s.independent.same_run h hinv howns ⟨rfl, rfl⟩
  exact ⟨hlocals, congrArg ListenerView.world hview,
    (s.independent.invariant_run h hinv blockchain).turns⟩

/-- Services on a list of unprocessed rows, for which the chain has no new logs, and has one block
    in six seconds. -/
def tableServices : ListenerServices (List BlockchainEvent) where
  transaction := fun rows => (some (), rows)
  getBlock := fun rows => (some 100, rows)
  getLastCheckedBlock := fun rows => (some none, rows)
  historicalBlocks := fun rows => (some (some 600), rows)
  getPastEvents := fun _ _ _ _ _ _ rows => (some [], rows)
  insertBlockchainEvents := fun es rows => (some (), rows ++ es)
  updateLastCheckedBlock := fun _ rows => (some (), rows)
  getAllUnprocessedBlockchainEvents := fun b rows =>
    (some (rows.filter fun e => e.blockchain = b), rows)
  removeContractEventsAfterBlock := fun contract address blockNumber transactionIndex rows =>
    (some (), rows.filter fun e => !removesRow contract address blockNumber transactionIndex e)
  commit := fun rows => (some (), rows)
  rollback := fun rows => (some (), rows)
  markAllBlockchainEventsAsProcessed := fun _ => (some (), [])
  initializeContract := fun _ _ rows => (some (), rows)
  contracts := fun _ _ => none
  updateContractAddress := fun _ _ rows => rows
  setContractCallCache := fun _ rows => rows
  addReadCachedPublishData := fun _ rows => rows
  fetched := by
    rintro b names events last current maxBlocks rows es h
    cases h
    exact nofun
  unprocessed := by
    rintro b rows es h e he
    cases h
    exact of_decide_eq_true (List.mem_filter.1 he).2

/-- Two blockchains with two events each. -/
def twoBatches (blockchain : JsString) : List BlockchainEvent :=
  let created (blockNumber : ℕ) : BlockchainEvent :=
    { eventInBlock .knowledgeCollectionStorage .knowledgeCollectionCreated blockNumber with
      blockchain := blockchain }
  if blockchain = units "a" then [created 10, created 20]
  else if blockchain = units "b" then [created 15, created 25]
  else []

/-- A run that goes on while the other handles its first event. -/
theorem isolated_of_fieldsKept_apart :
    tableServices.Isolated twoBatches
      (List.replicate 2 (units "b") ++ List.replicate 8 (units "a") ++ [units "b"] ++
        List.replicate 4 (units "a") ++ List.replicate 9 (units "b")) (units "a") := by
  refine isolated_of_fieldsKept tableServices twoBatches _ ?_ (units "a")
  -- two steps of `b`, and the run of `a` up to its first event
  refine ⟨trivial, trivial, trivial, trivial, trivial, fun _ => rfl, rfl, fun _ => rfl, trivial,
    fun _ _ => ⟨rfl, fun _ => rfl, fun _ => rfl⟩, ?_⟩
  -- a step of `b`, the rest of the run of `a`, and that of `b`, which finds the number of `a`
  refine ⟨trivial, ⟨rfl, fun _ => rfl, fun _ => rfl⟩, ⟨rfl, fun _ => rfl, fun _ => rfl⟩, trivial,
    trivial, ?_⟩
  exact ⟨fun _ => rfl, rfl, fun _ => rfl, trivial,
    fun _ _ => ⟨rfl, fun _ => rfl, fun _ => rfl⟩, ⟨rfl, fun _ => rfl, fun _ => rfl⟩,
    ⟨rfl, fun _ => rfl, fun _ => rfl⟩, trivial, trivial, trivial⟩

/-- The list of one run is replaced by that of another while an event is handled. -/
theorem taken_from_other_blockchain :
    let interleaving := List.replicate 8 (units "a") ++ List.replicate 8 (units "b") ++ [units "a"]
    let run := tableServices.system.run (ListenerServices.idle twoBatches) interleaving
    (run.locals (units "a")).turns.map (fun t => (t.event.blockchain, t.event.blockNumber)) =
        [(units "a", 10), (units "b", 25)] ∧
      ¬ tableServices.Isolated twoBatches interleaving (units "a") := by
  intro interleaving run
  have hturns : (run.locals (units "a")).turns.map
      (fun t => (t.event.blockchain, t.event.blockNumber)) =
        [(units "a", 10), (units "b", 25)] := by
    rfl
  refine ⟨hturns, ?_⟩
  intro h
  obtain ⟨t, ht, hother⟩ : ∃ t ∈ (run.locals (units "a")).turns,
      (t.event.blockchain, t.event.blockNumber) = (units "b", 25) := by
    rw [← List.mem_map, hturns]
    exact List.mem_cons_of_mem _ List.mem_cons_self
  have hblockchain : units "a" = units "b" :=
    (h.own t ht).symm.trans (congrArg Prod.fst hother)
  revert hblockchain
  decide

end OtNode
