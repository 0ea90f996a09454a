import Mathlib.Data.List.Sort
import Mathlib.Data.Prod.Lex
import Mathlib.Tactic.Common
import OtNode.Lib.Utf

/-! The events of the monitored contracts, and their order on the chain. -/

namespace OtNode

open Utf

/-- `MONITORED_CONTRACTS`. -/
inductive MonitoredContract where
  | hub
  | parametersStorage
  | knowledgeCollectionStorage
  deriving DecidableEq

/-- `MONITORED_EVENTS`. -/
inductive MonitoredEvent where
  | newContract
  | contractChanged
  | newAssetStorage
  | assetStorageChanged
  | parameterChanged
  | knowledgeCollectionCreated
  deriving DecidableEq

namespace MonitoredContract

/-- The name of a contract. -/
def name : MonitoredContract → JsString
  | hub => units "Hub"
  | parametersStorage => units "ParametersStorage"
  | knowledgeCollectionStorage => units "KnowledgeCollectionStorage"

/-- `MONITORED_CONTRACT_EVENTS`. -/
def events : MonitoredContract → List MonitoredEvent
  | hub => [.newContract, .contractChanged, .newAssetStorage, .assetStorageChanged]
  | parametersStorage => [.parameterChanged]
  | knowledgeCollectionStorage => [.knowledgeCollectionCreated]

/-- `MONITORED_CONTRACTS`. -/
def all : List MonitoredContract := [hub, parametersStorage, knowledgeCollectionStorage]

/-- `CONTRACT_INDEPENDENT_EVENTS`, which is empty. -/
def independentEvents : MonitoredContract → List MonitoredEvent := fun _ => []

theorem mem_all (c : MonitoredContract) : c ∈ all := by cases c <;> decide

end MonitoredContract

/-- `MONITORED_EVENTS`. -/
def MonitoredEvent.all : List MonitoredEvent :=
  MonitoredContract.all.flatMap MonitoredContract.events

theorem MonitoredEvent.mem_all (e : MonitoredEvent) : e ∈ all := by cases e <;> decide

/-- The text of an address. -/
abbrev Address := JsString

/-- `toLowerCase` on the text of an address. -/
def toLowerCase (a : Address) : Address :=
  a.map fun c => if 65 ≤ c.toNat ∧ c.toNat ≤ 90 then c + 32 else c

/-- `contracts[blockchain]`. -/
abbrev Contracts := MonitoredContract → Option Address

/-- A row of the event table, or an event that was fetched for it. -/
structure BlockchainEvent where
  blockchain : JsString
  contract : MonitoredContract
  contractAddress : Address
  event : MonitoredEvent
  data : JsString
  blockNumber : ℕ
  transactionIndex : ℕ
  logIndex : ℕ
  deriving DecidableEq

namespace BlockchainEvent

/-- The comparison both sorts are given. -/
def compare (a b : BlockchainEvent) : ℤ :=
  if a.blockNumber ≠ b.blockNumber then (a.blockNumber : ℤ) - b.blockNumber
  else if a.transactionIndex ≠ b.transactionIndex then
    (a.transactionIndex : ℤ) - b.transactionIndex
  else (a.logIndex : ℤ) - b.logIndex

/-- The place of an event on the chain. -/
def place (e : BlockchainEvent) : ℕ ×ₗ (ℕ ×ₗ ℕ) :=
  toLex (e.blockNumber, toLex (e.transactionIndex, e.logIndex))

/-- `a` does not come after `b`. -/
def Le (a b : BlockchainEvent) : Prop := compare a b ≤ 0

instance : DecidableRel Le := fun a b => inferInstanceAs (Decidable (compare a b ≤ 0))

/-- The comparison is that of the places. -/
theorem le_iff {a b : BlockchainEvent} : Le a b ↔ a.place ≤ b.place := by
  simp only [Le, compare, place, Prod.Lex.toLex_le_toLex]
  split_ifs with hblock hindex
  · omega
  · omega
  · omega

theorem not_le_iff {a b : BlockchainEvent} : ¬ Le a b ↔ b.place < a.place := by
  rw [le_iff, not_le]

instance : IsTrans BlockchainEvent Le := ⟨fun a b c hab hbc => by
  rw [le_iff] at hab hbc ⊢
  exact hab.trans hbc⟩

instance : Std.Total Le := ⟨fun a b => by
  rw [le_iff, le_iff]
  exact le_total _ _⟩

/-- `sort`, which is stable. -/
def sort (es : List BlockchainEvent) : List BlockchainEvent := es.insertionSort Le

theorem sort_perm (es : List BlockchainEvent) : (sort es).Perm es := List.perm_insertionSort Le es

theorem sort_pairwise (es : List BlockchainEvent) : (sort es).Pairwise Le :=
  List.pairwise_insertionSort Le es

/-- What comes first and not after the others stays first. -/
theorem sort_cons {e : BlockchainEvent} {es : List BlockchainEvent} (h : ∀ x ∈ es, Le e x) :
    sort (e :: es) = e :: sort es := List.insertionSort_cons_of_forall_rel Le h

theorem mem_sort {e : BlockchainEvent} {es : List BlockchainEvent} : e ∈ sort es ↔ e ∈ es :=
  List.mem_insertionSort Le

end BlockchainEvent

end OtNode
