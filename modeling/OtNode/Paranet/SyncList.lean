import OtNode.Lib.Table
import Mathlib.Data.List.Sort

/-! The list of knowledge collections that a paranet sync keeps.

    `ParanetSyncCommand` asks the contract for the entries after those that it has stored. The list
    on chain grows between its reads, several syncs of a paranet may run, and each may fail or stop
    at any await. -/

namespace OtNode

/-- An entry of the list on chain. -/
structure KnowledgeCollectionLocator where
  knowledgeCollectionStorageContract : String
  knowledgeCollectionTokenId : ℕ
  deriving DecidableEq

/-- `deriveUAL`, of a knowledge collection. -/
def deriveUAL (blockchain contract : String) (knowledgeCollectionId : ℕ) : String :=
  "did:dkg:" ++ blockchain.toLower ++ "/" ++ contract.toLower ++ "/" ++
    toString knowledgeCollectionId

/-- A row of the `paranet_kc` table, less its id: the rows are in the order of their ids. -/
structure ParanetKc where
  ual : String
  paranetUal : String
  blockchainId : String
  isSynced : Bool
  retries : ℕ
  errorMessage : Option String
  updatedAt : ℕ
  deriving DecidableEq

/-- The unique constraint of the migration. -/
def ParanetKc.key (row : ParanetKc) : String × String := (row.ual, row.paranetUal)

/-- The `paranet_kc` table. -/
abbrev ParanetKcTable := Table ParanetKc.key

namespace ParanetKcRepository

/-- The rows of a paranet. -/
def ofParanet (paranetUal : String) (row : ParanetKc) : Bool := row.paranetUal == paranetUal

/-- `createParanetKcRecords`: one statement for all rows. -/
def createParanetKcRecords (paranetUal blockchainId : String) (uals : List String) (now : ℕ)
    (t : ParanetKcTable) : Option ParanetKcTable :=
  t.bulkCreate (uals.map fun ual => ⟨ual, paranetUal, blockchainId, false, 0, none, now⟩)

/-- `getCount`. -/
def getCount (paranetUal : String) (t : ParanetKcTable) : ℕ := t.count (ofParanet paranetUal)

/-- `getCountUnsynced`. -/
def getCountUnsynced (paranetUal : String) (t : ParanetKcTable) : ℕ :=
  t.count fun row => ofParanet paranetUal row && !row.isSynced

/-- `getSyncBatch`: the least synced first, those that failed only after the delay. -/
def getSyncBatch (paranetUal : String) (maxRetries delayInMs limit now : ℕ)
    (t : ParanetKcTable) : List ParanetKc :=
  ((t.rows.filter fun row => ofParanet paranetUal row && !row.isSynced &&
      decide (row.retries < maxRetries) &&
      (row.retries == 0 || decide (row.updatedAt + delayInMs ≤ now))).insertionSort
    fun a b => b.retries ≤ a.retries).take limit

/-- `markAsSynced`. -/
def markAsSynced (paranetUal ual : String) (now : ℕ) (t : ParanetKcTable) : ParanetKcTable :=
  t.update (fun row => ofParanet paranetUal row && row.ual == ual)
    (fun row => { row with isSynced := true, updatedAt := now }) fun _ => rfl

/-- `incrementRetries`: of a row that has the error already. -/
def incrementRetries (paranetUal ual errorMessage : String) (now : ℕ) (t : ParanetKcTable) :
    ParanetKcTable :=
  t.update (fun row => ofParanet paranetUal row && row.ual == ual &&
      row.errorMessage == some errorMessage)
    (fun row => { row with retries := row.retries + 1, updatedAt := now }) fun _ => rfl

end ParanetKcRepository

open ParanetKcRepository

/-- `PARANET_SYNC_RETRIES_LIMIT`, `PARANET_SYNC_RETRY_DELAY_MS` and `PARANET_SYNC_KA_COUNT`. -/
def paranetSyncRetriesLimit : ℕ := 3
def paranetSyncRetryDelayMs : ℕ := 60 * 1000
def paranetSyncKaCount : ℕ := 50

/-- What a sync awaits. -/
inductive ParanetSyncStage where
  | countContract
  | countDatabase (countContract : ℕ)
  | locators (countContract countDatabase : ℕ)
  | create (missingUALs : List String)
  | countSynced
  | countUnsynced
  | syncBatch
  | syncStart (syncBatch : List String)
  | syncing
  | syncEnd
  | finished
  | failed
  deriving DecidableEq

/-- A sync of a paranet. -/
structure ParanetSync where
  paranetUAL : String
  stage : ParanetSyncStage
  deriving DecidableEq

/-- A `syncKc` under way, of a sync. -/
structure SyncKc where
  sync : ℕ
  paranetUAL : String
  ual : String
  deriving DecidableEq

/-- The lists on chain and their local copies, and the syncs that were started. -/
structure ParanetState where
  onChain : String → List KnowledgeCollectionLocator
  rows : ParanetKcTable
  syncs : ℕ → Option ParanetSync
  syncKcs : List SyncKc

/-- What happens: a list on chain grows; a sync is started, the call that it awaits comes back, or it
    fails; a `syncKc` ends, with its error; the process stops. -/
inductive ParanetAction where
  | grow (paranetUAL : String) (locators : List KnowledgeCollectionLocator)
  | start (sync : ℕ) (paranetUAL : String)
  | resume (sync now : ℕ)
  | fail (sync : ℕ)
  | settle (i : ℕ) (error : Option String) (now : ℕ)
  | crash

namespace ParanetState

variable (blockchain : String → String) (s : ParanetState)

/-- `getParanetKnowledgeCollectionLocatorsWithPagination`. -/
def getLocators (paranetUAL : String) (offset limit : ℕ) : List KnowledgeCollectionLocator :=
  ((s.onChain paranetUAL).drop offset).take limit

/-- The UAL of an entry. -/
def locatorUAL (paranetUAL : String) (locator : KnowledgeCollectionLocator) : String :=
  deriveUAL (blockchain paranetUAL) locator.knowledgeCollectionStorageContract
    locator.knowledgeCollectionTokenId

/-- The list on chain. -/
def chainList (paranetUAL : String) : List String :=
  (s.onChain paranetUAL).map (locatorUAL blockchain paranetUAL)

/-- A sync goes on to the next await. -/
def goOn (sync : ℕ) (paranetUAL : String) (stage : ParanetSyncStage) : ParanetState :=
  { s with syncs := Function.update s.syncs sync (some ⟨paranetUAL, stage⟩) }

/-- `execute`: what a sync does when the call that it awaits comes back. -/
def resume (sync now : ℕ) (paranetUAL : String) : ParanetSyncStage → ParanetState
  | .countContract =>
    s.goOn sync paranetUAL (.countDatabase (s.onChain paranetUAL).length)
  | .countDatabase countContract =>
    s.goOn sync paranetUAL (.locators countContract (getCount paranetUAL s.rows))
  | .locators countContract countDatabase =>
    s.goOn sync paranetUAL (.create ((s.getLocators paranetUAL countDatabase countContract).map
      (locatorUAL blockchain paranetUAL)))
  | .create missingUALs =>
    match createParanetKcRecords paranetUAL (blockchain paranetUAL) missingUALs now s.rows with
    | none => s.goOn sync paranetUAL .failed
    | some rows => { s with rows }.goOn sync paranetUAL .countSynced
  | .countSynced => s.goOn sync paranetUAL .countUnsynced
  | .countUnsynced =>
    if getCountUnsynced paranetUAL s.rows = 0 then s.goOn sync paranetUAL .finished
    else s.goOn sync paranetUAL .syncBatch
  | .syncBatch =>
    s.goOn sync paranetUAL (.syncStart ((getSyncBatch paranetUAL paranetSyncRetriesLimit
      paranetSyncRetryDelayMs paranetSyncKaCount now s.rows).map (·.ual)))
  | .syncStart syncBatch =>
    { s with syncKcs := s.syncKcs ++ syncBatch.map (SyncKc.mk sync paranetUAL) }.goOn sync paranetUAL
      .syncing
  | .syncing =>
    -- `Promise.all`
    if s.syncKcs.any (·.sync == sync) then s else s.goOn sync paranetUAL .syncEnd
  | .syncEnd => s.goOn sync paranetUAL .finished
  | .finished | .failed => s

/-- `syncKc`: the row is marked, or the error counted. -/
def settle (i : ℕ) (error : Option String) (now : ℕ) : ParanetState :=
  match s.syncKcs[i]? with
  | none => s
  | some kc =>
    let rows := match error with
      | none => markAsSynced kc.paranetUAL kc.ual now s.rows
      | some error => incrementRetries kc.paranetUAL kc.ual error now s.rows
    { s with rows, syncKcs := s.syncKcs.eraseIdx i }

/-- A sync that is over stays so. -/
def stop (run : ParanetSync) : ParanetSync :=
  if run.stage = .finished then run else { run with stage := .failed }

/-- A step. -/
def act : ParanetAction → ParanetState
  | .grow paranetUAL locators => { s with
      onChain := Function.update s.onChain paranetUAL (s.onChain paranetUAL ++ locators) }
  | .start sync paranetUAL =>
    match s.syncs sync with
    | none => s.goOn sync paranetUAL .countContract
    | some _ => s
  | .resume sync now =>
    match s.syncs sync with
    | none => s
    | some run => s.resume blockchain sync now run.paranetUAL run.stage
  | .fail sync => { s with syncs := Function.update s.syncs sync ((s.syncs sync).map stop) }
  | .settle i error now => s.settle i error now
  | .crash => { s with syncs := fun sync => (s.syncs sync).map stop, syncKcs := [] }

/-- The steps of a run. -/
def run (actions : List ParanetAction) : ParanetState := actions.foldl (act blockchain) s

/-- The lists on chain, with nothing stored. -/
def fresh (onChain : String → List KnowledgeCollectionLocator) : ParanetState :=
  ⟨onChain, .empty, fun _ => none, []⟩

/-- The list stored for a paranet, in order. -/
def localList (paranetUAL : String) : List String :=
  (s.rows.rows.filter (ofParanet paranetUAL)).map (·.ual)

end ParanetState

namespace ParanetState

variable {blockchain : String → String} {s : ParanetState} {p q : String}

/-! ### The local list -/

theorem getCount_eq : getCount p s.rows = (s.localList p).length := by
  rw [getCount, Table.count, List.countP_eq_length_filter, localList, List.length_map]

/-- The list of a paranet has no duplicates: its UALs with the paranet are keys. -/
theorem nodup_localList : (s.localList p).Nodup := by
  have hkeys := ((s.rows.rows.filter_sublist (p := ofParanet p)).map ParanetKc.key).nodup
    s.rows.nodup
  have hpairs : (s.rows.rows.filter (ofParanet p)).map ParanetKc.key
      = (s.localList p).map fun ual => (ual, p) := by
    rw [localList, List.map_map]
    refine List.map_congr_left ?_
    intro row hrow
    rw [ParanetKc.key, beq_iff_eq.mp (List.mem_filter.mp hrow).2, Function.comp]
  rw [hpairs] at hkeys
  exact hkeys.of_map _

/-- Rows that are changed in place leave the list. -/
theorem localList_update {f : ParanetKc → Bool} {g : ParanetKc → ParanetKc}
    {keeps : ∀ row, (g row).key = row.key} :
    { s with rows := s.rows.update f g keeps }.localList p = s.localList p := by
  simp only [localList, Table.update]
  induction s.rows.rows with
  | nil => rfl
  | cons row rows ih =>
    have hrow : (if f row then g row else row).key = row.key := by
      split
      · exact keeps row
      · rfl
    obtain ⟨hual, hparanet⟩ := Prod.mk.inj hrow
    rw [List.map_cons, List.filter_cons, List.filter_cons, ofParanet, ofParanet, hparanet]
    split
    · rw [List.map_cons, List.map_cons, ih, hual]
    · exact ih

/-- The new rows come last in the list of their paranet. -/
theorem localList_create {uals : List String} {now : ℕ} {rows : ParanetKcTable}
    (h : createParanetKcRecords p (blockchain p) uals now s.rows = some rows) :
    { s with rows }.localList q = s.localList q ++ if q = p then uals else [] := by
  rw [createParanetKcRecords] at h
  simp only [localList, Table.rows_bulkCreate h, List.filter_append, List.map_append]
  congr 1
  split
  · next hq =>
    rw [List.filter_eq_self.mpr, List.map_map]
    · exact List.map_id' uals
    · intro row hrow
      obtain ⟨ual, -, rfl⟩ := List.mem_map.mp hrow
      rw [ofParanet, hq]
      exact beq_self_eq_true _
  · next hq =>
    rw [List.filter_eq_nil_iff.mpr, List.map_nil]
    intro row hrow
    obtain ⟨ual, -, rfl⟩ := List.mem_map.mp hrow
    simpa [ofParanet] using Ne.symm hq

/-! ### Prefixes -/

section Prefix

variable {α : Type} {l m c : List α} {k : ℕ}

/-- Entries from a place in the prefix on go right after it, or are there already. -/
theorem length_eq_of_nodup (hl : l <+: c) (hk : k ≤ l.length) (hm : m <+: c.drop k)
    (hnodup : (l ++ m).Nodup) (hne : m ≠ []) : k = l.length := by
  by_contra hlt
  obtain ⟨x, m, rfl⟩ := List.exists_cons_of_ne_nil hne
  obtain ⟨d, hd⟩ := hm
  obtain ⟨e, rfl⟩ := hl
  have hx : x ∈ l := by
    rw [List.drop_append_of_le_length hk, List.drop_eq_getElem_cons (by omega)] at hd
    rw [List.cons_append, List.cons_append, List.cons.injEq] at hd
    rw [hd.1]
    exact List.getElem_mem _
  exact (List.nodup_append.mp hnodup).2.2 x hx x List.mem_cons_self rfl

theorem append_prefix_of_nodup (hl : l <+: c) (hk : k ≤ l.length) (hm : m <+: c.drop k)
    (hnodup : (l ++ m).Nodup) : l ++ m <+: c := by
  rcases eq_or_ne m [] with rfl | hne
  · rwa [List.append_nil]
  · obtain rfl := length_eq_of_nodup hl hk hm hnodup hne
    obtain ⟨e, rfl⟩ := hl
    rw [List.drop_left] at hm
    exact (List.prefix_append_right_inj l).mpr hm

/-- All the entries complete the list. -/
theorem append_drop_of_nodup (hl : l <+: c) (hk : k ≤ l.length) (hnodup : (l ++ c.drop k).Nodup) :
    l ++ c.drop k = c := by
  rcases eq_or_ne (c.drop k) [] with hnil | hne
  · rw [hnil, List.append_nil]
    exact hl.eq_of_length_le ((List.drop_eq_nil_iff.mp hnil).trans hk)
  · obtain rfl := length_eq_of_nodup hl hk List.prefix_rfl hnodup hne
    obtain ⟨e, rfl⟩ := hl
    rw [List.drop_left]

end Prefix

/-! ### The invariant -/

/-- What a sync has read is a part of the list on chain, from a place in the local list on. -/
def Read (blockchain : String → String) (s : ParanetState) (paranetUAL : String) :
    ParanetSyncStage → Prop
  | .locators _ countDatabase => countDatabase ≤ (s.localList paranetUAL).length
  | .create missingUALs => ∃ k, k ≤ (s.localList paranetUAL).length ∧
    missingUALs <+: (s.chainList blockchain paranetUAL).drop k
  | _ => True

/-- The local lists are prefixes of the lists on chain, and the syncs go on from there. -/
structure Sound (blockchain : String → String) (s : ParanetState) : Prop where
  lists : ∀ paranetUAL, s.localList paranetUAL <+: s.chainList blockchain paranetUAL
  reads : ∀ sync run, s.syncs sync = some run → s.Read blockchain run.paranetUAL run.stage

/-- A state that has the lists of another one, or longer ones. -/
structure Extends (blockchain : String → String) (s s' : ParanetState) : Prop where
  chain : ∀ paranetUAL, s.chainList blockchain paranetUAL <+: s'.chainList blockchain paranetUAL
  stored : ∀ paranetUAL, (s.localList paranetUAL).length ≤ (s'.localList paranetUAL).length

/-- What was read stays a part of lists that grow. -/
theorem read_extends {s' : ParanetState} {stage : ParanetSyncStage} (h : Extends blockchain s s')
    (hread : s.Read blockchain p stage) : s'.Read blockchain p stage := by
  cases stage with
  | locators n k => exact le_trans hread (h.stored p)
  | create missingUALs =>
    obtain ⟨k, hk, hmissing⟩ := hread
    exact ⟨k, hk.trans (h.stored p), hmissing.trans ((h.chain p).drop k)⟩
  | _ => trivial

theorem extends_goOn {stage : ParanetSyncStage} {sync : ℕ} :
    Extends blockchain s (s.goOn sync p stage) :=
  ⟨fun _ => List.prefix_rfl, fun _ => le_rfl⟩

theorem syncs_goOn_self {sync : ℕ} {stage : ParanetSyncStage} :
    (s.goOn sync p stage).syncs sync = some ⟨p, stage⟩ := Function.update_self ..

theorem syncs_goOn_of_ne {sync sync' : ℕ} {stage : ParanetSyncStage} (h : sync' ≠ sync) :
    (s.goOn sync p stage).syncs sync' = s.syncs sync' := Function.update_of_ne h ..

/-- The lists grow, and each sync is where it was or has read a part of the list on chain. -/
theorem Sound.extends {s' : ParanetState} (h : s.Sound blockchain) (hextends : Extends blockchain s s')
    (hlists : ∀ q, s'.localList q <+: s'.chainList blockchain q)
    (hsyncs : ∀ sync run, s'.syncs sync = some run →
      s.syncs sync = some run ∨ s'.Read blockchain run.paranetUAL run.stage) :
    s'.Sound blockchain := by
  refine ⟨hlists, ?_⟩
  intro sync run hrun
  rcases hsyncs sync run hrun with hsame | hread
  · exact read_extends hextends (h.reads sync run hsame)
  · exact hread

theorem Sound.goOn {stage : ParanetSyncStage} {sync : ℕ} (h : s.Sound blockchain)
    (hread : s.Read blockchain p stage) : (s.goOn sync p stage).Sound blockchain := by
  refine h.extends extends_goOn h.lists ?_
  intro sync' run hrun
  by_cases hsync : sync' = sync
  · subst hsync
    rw [syncs_goOn_self] at hrun
    cases hrun
    exact .inr (read_extends extends_goOn hread)
  · rw [syncs_goOn_of_ne hsync] at hrun
    exact .inl hrun

/-! ### A sync goes on -/

theorem prefix_getLocators {offset limit : ℕ} :
    (s.getLocators p offset limit).map (locatorUAL blockchain p)
      <+: (s.chainList blockchain p).drop offset := by
  rw [getLocators, chainList, ← List.map_drop]
  exact (List.take_prefix limit _).map _

section Create

variable {missingUALs : List String} {now : ℕ} {rows : ParanetKcTable}
  (h : createParanetKcRecords p (blockchain p) missingUALs now s.rows = some rows)

include h

theorem localList_create_self :
    { s with rows }.localList p = s.localList p ++ missingUALs := by
  rw [localList_create h, if_pos rfl]

theorem localList_create_of_ne (hq : q ≠ p) : { s with rows }.localList q = s.localList q := by
  rw [localList_create h, if_neg hq, List.append_nil]

theorem extends_create : Extends blockchain s { s with rows } := by
  refine ⟨fun _ => List.prefix_rfl, ?_⟩
  intro q
  rw [localList_create h, List.length_append]
  exact Nat.le_add_right _ _

theorem nodup_create : (s.localList p ++ missingUALs).Nodup := by
  rw [← localList_create_self h]
  exact nodup_localList

/-- STEP (create): the rows of the entries that were read complete a longer prefix. -/
theorem sound_create (hsound : s.Sound blockchain) (hread : s.Read blockchain p (.create missingUALs)) :
    { s with rows }.Sound blockchain := by
  refine hsound.extends (extends_create h) ?_ fun sync run hrun => .inl hrun
  intro q
  by_cases hq : q = p
  · subst hq
    obtain ⟨k, hk, hmissing⟩ := hread
    rw [localList_create_self h]
    exact append_prefix_of_nodup (hsound.lists q) hk hmissing (nodup_create h)
  · rw [localList_create_of_ne h hq]
    exact hsound.lists q

end Create

/-- STEP (resume): a sync that goes on keeps the prefixes. -/
theorem sound_resume {sync now : ℕ} {stage : ParanetSyncStage} (h : s.Sound blockchain)
    (hread : s.Read blockchain p stage) : (s.resume blockchain sync now p stage).Sound blockchain := by
  cases stage with
  | countDatabase n => exact h.goOn (getCount_eq.le)
  | locators n k => exact h.goOn ⟨k, hread, prefix_getLocators⟩
  | create missingUALs =>
    rw [resume]
    split
    · exact h.goOn trivial
    · next rows hrows => exact (sound_create hrows h hread).goOn trivial
  | countUnsynced =>
    rw [resume]
    split <;> exact h.goOn trivial
  | syncStart syncBatch => exact Sound.goOn ⟨h.lists, h.reads⟩ trivial
  | syncing =>
    rw [resume]
    split
    · exact h
    · exact h.goOn trivial
  | finished => exact h
  | failed => exact h
  | _ => exact h.goOn trivial

theorem extends_resume {sync now : ℕ} {stage : ParanetSyncStage} :
    Extends blockchain s (s.resume blockchain sync now p stage) := by
  cases stage with
  | create missingUALs =>
    rw [resume]
    split
    · exact extends_goOn
    · next rows hrows =>
      exact ⟨(extends_create hrows).chain, (extends_create hrows).stored⟩
  | countUnsynced =>
    rw [resume]
    split <;> exact extends_goOn
  | syncing =>
    rw [resume]
    split
    · exact ⟨fun _ => List.prefix_rfl, fun _ => le_rfl⟩
    · exact extends_goOn
  | _ => exact ⟨fun _ => List.prefix_rfl, fun _ => le_rfl⟩

/-! ### Steps -/

theorem Extends.refl : Extends blockchain s s := ⟨fun _ => List.prefix_rfl, fun _ => le_rfl⟩

/-- `syncKc` changes rows in place. -/
theorem localList_settle {i now : ℕ} {error : Option String} :
    (s.settle i error now).localList p = s.localList p := by
  rw [settle]
  split
  · rfl
  · cases error <;> exact localList_update

theorem chainList_settle {i now : ℕ} {error : Option String} :
    (s.settle i error now).chainList blockchain p = s.chainList blockchain p := by
  rw [settle]
  split <;> rfl

theorem syncs_settle {i now : ℕ} {error : Option String} :
    (s.settle i error now).syncs = s.syncs := by
  rw [settle]
  split <;> rfl

theorem onChain_grow_self {locators : List KnowledgeCollectionLocator} :
    (s.act blockchain (.grow p locators)).onChain p = s.onChain p ++ locators :=
  Function.update_self ..

theorem onChain_grow_of_ne {locators : List KnowledgeCollectionLocator} (h : q ≠ p) :
    (s.act blockchain (.grow p locators)).onChain q = s.onChain q := Function.update_of_ne h ..

theorem syncs_fail_self {sync : ℕ} :
    (s.act blockchain (.fail sync)).syncs sync = (s.syncs sync).map stop :=
  Function.update_self ..

theorem syncs_fail_of_ne {sync sync' : ℕ} (h : sync' ≠ sync) :
    (s.act blockchain (.fail sync)).syncs sync' = s.syncs sync' := Function.update_of_ne h ..

theorem syncs_crash {sync : ℕ} :
    (s.act blockchain .crash).syncs sync = (s.syncs sync).map stop := rfl

theorem chainList_grow {locators : List KnowledgeCollectionLocator} :
    s.chainList blockchain q
      <+: (s.act blockchain (.grow p locators)).chainList blockchain q := by
  rw [chainList, chainList]
  by_cases hq : q = p
  · subst hq
    rw [onChain_grow_self, List.map_append]
    exact List.prefix_append _ _
  · rw [onChain_grow_of_ne hq]

/-- STEP (extends): the lists never shrink. -/
theorem extends_act (a : ParanetAction) : Extends blockchain s (s.act blockchain a) := by
  cases a with
  | grow p locators => exact ⟨fun q => chainList_grow, fun _ => le_rfl⟩
  | start sync p =>
    rw [act]
    split
    · exact extends_goOn
    · exact Extends.refl
  | resume sync now =>
    rw [act]
    split
    · exact Extends.refl
    · exact extends_resume
  | settle i error now =>
    refine ⟨?_, ?_⟩
    · intro q
      rw [act, chainList_settle]
    · intro q
      rw [act, localList_settle]
  | fail sync => exact ⟨fun _ => List.prefix_rfl, fun _ => le_rfl⟩
  | crash => exact ⟨fun _ => List.prefix_rfl, fun _ => le_rfl⟩

/-- What is over has nothing to go on with. -/
theorem read_stop {run : ParanetSync} : s.Read blockchain p (stop run).stage := by
  rw [stop]
  split
  · next hfinished =>
    rw [hfinished]
    trivial
  · trivial

/-- STEP: the local lists stay prefixes. -/
theorem sound_act (h : s.Sound blockchain) (a : ParanetAction) :
    (s.act blockchain a).Sound blockchain := by
  cases a with
  | grow p locators =>
    refine h.extends (extends_act _) ?_ fun sync run hrun => .inl hrun
    intro q
    exact (h.lists q).trans chainList_grow
  | start sync p =>
    rw [act]
    split
    · exact h.goOn trivial
    · exact h
  | resume sync now =>
    rw [act]
    split
    · exact h
    · next run hrun => exact sound_resume h (h.reads sync run hrun)
  | settle i error now =>
    refine h.extends (extends_act _) ?_ fun sync run hrun => .inl ?_
    · intro q
      rw [act, localList_settle, chainList_settle]
      exact h.lists q
    · rwa [act, syncs_settle] at hrun
  | fail sync =>
    refine h.extends (extends_act _) h.lists ?_
    intro sync' run hrun
    by_cases hsync : sync' = sync
    · subst hsync
      rw [syncs_fail_self] at hrun
      obtain ⟨run', -, rfl⟩ := Option.map_eq_some_iff.mp hrun
      exact .inr read_stop
    · rw [syncs_fail_of_ne hsync] at hrun
      exact .inl hrun
  | crash =>
    refine h.extends (extends_act _) h.lists ?_
    intro sync run hrun
    obtain ⟨run', -, rfl⟩ := Option.map_eq_some_iff.mp hrun
    exact .inr read_stop

theorem sound_fresh {onChain : String → List KnowledgeCollectionLocator} :
    (fresh onChain).Sound blockchain := by
  refine ⟨fun _ => List.nil_prefix, ?_⟩
  intro sync run hrun
  cases hrun

/-- RUN: the local lists are prefixes after every run. -/
theorem sound_run (onChain : String → List KnowledgeCollectionLocator)
    (actions : List ParanetAction) :
    ((fresh onChain).run blockchain actions).Sound blockchain :=
  List.foldlRecOn actions (act blockchain) sound_fresh fun _ hs a _ => sound_act hs a

/-! ### A sync while the list does not grow -/

/-- A sync that has read the whole list on chain is to complete the local list. -/
def Caught (blockchain : String → String) (s : ParanetState) (paranetUAL : String) :
    ParanetSyncStage → Prop
  | .countContract | .failed => True
  | .countDatabase countContract | .locators countContract _ =>
    countContract = (s.onChain paranetUAL).length
  | .create missingUALs => ∃ k, k ≤ (s.localList paranetUAL).length ∧
    missingUALs = (s.chainList blockchain paranetUAL).drop k
  | _ => s.localList paranetUAL = s.chainList blockchain paranetUAL

/-- The sync is of the paranet, and at a stage where `Caught` holds. -/
def Catching (blockchain : String → String) (s : ParanetState) (sync : ℕ) (paranetUAL : String) :
    Prop :=
  ∃ stage, s.syncs sync = some ⟨paranetUAL, stage⟩ ∧ s.Caught blockchain paranetUAL stage

/-- A complete list stays so. -/
theorem localList_complete {s' : ParanetState} (hextends : Extends blockchain s s')
    (hsound : s'.Sound blockchain) (hchain : s'.chainList blockchain p = s.chainList blockchain p)
    (h : s.localList p = s.chainList blockchain p) :
    s'.localList p = s'.chainList blockchain p := by
  refine (hsound.lists p).eq_of_length_le ?_
  rw [hchain, ← h]
  exact hextends.stored p

theorem caught_extends {s' : ParanetState} {stage : ParanetSyncStage}
    (hextends : Extends blockchain s s') (hsound : s'.Sound blockchain)
    (hchain : s'.onChain p = s.onChain p) (h : s.Caught blockchain p stage) :
    s'.Caught blockchain p stage := by
  have hlist : s'.chainList blockchain p = s.chainList blockchain p := by
    rw [chainList, chainList, hchain]
  cases stage with
  | countContract => trivial
  | failed => trivial
  | countDatabase n => exact h.trans (congrArg _ hchain.symm)
  | locators n k => exact h.trans (congrArg _ hchain.symm)
  | create missingUALs =>
    obtain ⟨k, hk, hmissing⟩ := h
    exact ⟨k, hk.trans (hextends.stored p), hlist ▸ hmissing⟩
  | _ => exact localList_complete hextends hsound hlist h

theorem caught_stop {stage : ParanetSyncStage} (h : s.Caught blockchain p stage) :
    s.Caught blockchain p (stop ⟨p, stage⟩).stage := by
  rw [stop]
  split
  · exact h
  · trivial

theorem paranetUAL_stop {run : ParanetSync} : (stop run).paranetUAL = run.paranetUAL := by
  rw [stop]
  split <;> rfl

theorem catching_goOn {sync : ℕ} {stage : ParanetSyncStage} (h : s.Caught blockchain p stage) :
    (s.goOn sync p stage).Catching blockchain sync p := by
  refine ⟨stage, syncs_goOn_self, ?_⟩
  cases stage <;> exact h

/-- STEP (own): a sync that has read the whole list stores all of it. -/
theorem catching_resume {sync now : ℕ} {stage : ParanetSyncStage} (hsound : s.Sound blockchain)
    (hrun : s.syncs sync = some ⟨p, stage⟩) (h : s.Caught blockchain p stage) :
    (s.resume blockchain sync now p stage).Catching blockchain sync p := by
  cases stage with
  | countContract => exact catching_goOn rfl
  | locators n k =>
    have hread : k ≤ (s.localList p).length := hsound.reads sync _ hrun
    refine catching_goOn ⟨k, hread, ?_⟩
    have hall : ((s.onChain p).drop k).length ≤ n := by
      rw [List.length_drop, h]
      exact Nat.sub_le _ _
    rw [getLocators, List.take_of_length_le hall, chainList, List.map_drop]
  | create missingUALs =>
    rw [resume]
    split
    · exact catching_goOn trivial
    · next rows hrows =>
      obtain ⟨k, hk, rfl⟩ := h
      refine catching_goOn ?_
      have hlist : { s with rows }.localList p = s.chainList blockchain p := by
        rw [localList_create_self hrows]
        exact append_drop_of_nodup (hsound.lists p) hk (nodup_create hrows)
      exact hlist
  | countUnsynced =>
    rw [resume]
    split <;> exact catching_goOn h
  | syncStart syncBatch => exact ⟨.syncing, syncs_goOn_self, h⟩
  | syncing =>
    rw [resume]
    split
    · exact ⟨.syncing, hrun, h⟩
    · exact catching_goOn h
  | finished => exact ⟨.finished, hrun, h⟩
  | failed => exact ⟨.failed, hrun, h⟩
  | _ => exact catching_goOn h

theorem onChain_resume {sync now : ℕ} {stage : ParanetSyncStage} :
    (s.resume blockchain sync now p stage).onChain = s.onChain := by
  cases stage with
  | create missingUALs => rw [resume]; split <;> rfl
  | countUnsynced => rw [resume]; split <;> rfl
  | syncing => rw [resume]; split <;> rfl
  | _ => rfl

theorem syncs_resume_of_ne {sync sync' now : ℕ} {stage : ParanetSyncStage} (hne : sync' ≠ sync) :
    (s.resume blockchain sync now p stage).syncs sync' = s.syncs sync' := by
  cases stage with
  | create missingUALs => rw [resume]; split <;> exact syncs_goOn_of_ne hne
  | countUnsynced => rw [resume]; split <;> exact syncs_goOn_of_ne hne
  | syncStart syncBatch => exact Function.update_of_ne hne ..
  | syncing =>
    rw [resume]
    split
    · rfl
    · exact syncs_goOn_of_ne hne
  | finished => rfl
  | failed => rfl
  | _ => exact syncs_goOn_of_ne hne

/-- The list of the paranet does not grow in the step. -/
def Quiet (paranetUAL : String) (a : ParanetAction) : Prop :=
  ∀ locators, a ≠ .grow paranetUAL locators

theorem onChain_act {a : ParanetAction} (ha : Quiet p a) :
    (s.act blockchain a).onChain p = s.onChain p := by
  cases a with
  | grow q locators =>
    have hq : p ≠ q := by
      rintro rfl
      exact ha locators rfl
    exact onChain_grow_of_ne hq
  | start sync q => rw [act]; split <;> rfl
  | resume sync now =>
    rw [act]
    split
    · rfl
    · rw [onChain_resume]
  | settle i error now =>
    rw [act, settle]
    split <;> rfl
  | _ => rfl

/-- STEP (others): the sync stays where it is, or stops. -/
theorem syncs_act {a : ParanetAction} {sync : ℕ} {run : ParanetSync}
    (hrun : s.syncs sync = some run) (ha : ∀ now, a ≠ .resume sync now) :
    (s.act blockchain a).syncs sync = some run ∨
      (s.act blockchain a).syncs sync = some (stop run) := by
  cases a with
  | grow q locators => exact .inl hrun
  | start sync' q =>
    rw [act]
    split
    · next hnone =>
      have hne : sync ≠ sync' := by
        rintro rfl
        rw [hnone] at hrun
        cases hrun
      rw [syncs_goOn_of_ne hne]
      exact .inl hrun
    · exact .inl hrun
  | resume sync' now =>
    have hne : sync ≠ sync' := by
      rintro rfl
      exact ha now rfl
    rw [act]
    split
    · exact .inl hrun
    · rw [syncs_resume_of_ne hne]
      exact .inl hrun
  | settle i error now =>
    rw [act, syncs_settle]
    exact .inl hrun
  | fail sync' =>
    by_cases hsync : sync = sync'
    · subst hsync
      exact .inr (by rw [syncs_fail_self, hrun, Option.map_some])
    · exact .inl (by rw [syncs_fail_of_ne hsync, hrun])
  | crash => exact .inr (by rw [syncs_crash, hrun, Option.map_some])

/-- STEP: while the list does not grow, the sync goes on to complete the local list. -/
theorem catching_act {a : ParanetAction} {sync : ℕ} (ha : Quiet p a) (hsound : s.Sound blockchain)
    (h : s.Catching blockchain sync p) : (s.act blockchain a).Catching blockchain sync p := by
  obtain ⟨stage, hrun, hcaught⟩ := h
  have hcaught' := caught_extends (extends_act a) (sound_act hsound a) (onChain_act ha) hcaught
  by_cases hown : ∃ now, a = .resume sync now
  · obtain ⟨now, rfl⟩ := hown
    rw [act, hrun]
    exact catching_resume hsound hrun hcaught
  · rcases syncs_act hrun (by simpa using hown) with hsame | hstop
    · exact ⟨stage, hsame, hcaught'⟩
    · refine ⟨(stop ⟨p, stage⟩).stage, ?_, caught_stop hcaught'⟩
      rw [hstop]
      exact congrArg some (ParanetSync.mk.injEq _ _ _ _ ▸ ⟨paranetUAL_stop, rfl⟩)

theorem catching_run {actions : List ParanetAction} {sync : ℕ} (hquiet : ∀ a ∈ actions, Quiet p a)
    (hsound : s.Sound blockchain) (h : s.Catching blockchain sync p) :
    (s.run blockchain actions).Catching blockchain sync p := by
  induction actions generalizing s with
  | nil => exact h
  | cons a actions ih =>
    exact ih (fun a' ha' => hquiet a' (List.mem_cons_of_mem _ ha')) (sound_act hsound a)
      (catching_act (hquiet a List.mem_cons_self) hsound h)

/-- CORRECT: the local list of a paranet is at all times a prefix without duplicates of the list on
    chain, and it is that list after a sync that finishes while the list does not grow. -/
theorem localList_prefix_chainList (blockchain : String → String)
    (onChain : String → List KnowledgeCollectionLocator) (actions : List ParanetAction) (p : String) :
    let s := (fresh onChain).run blockchain actions
    (s.localList p).Nodup ∧ s.localList p <+: s.chainList blockchain p ∧
      ∀ sync during, s.syncs sync = none → (∀ a ∈ during, Quiet p a) →
        let s' := s.run blockchain (.start sync p :: during)
        s'.syncs sync = some ⟨p, .finished⟩ → s'.localList p = s'.chainList blockchain p := by
  intro s
  have hsound : s.Sound blockchain := sound_run onChain actions
  refine ⟨nodup_localList, hsound.lists p, ?_⟩
  intro sync during hnone hquiet s' hfinished
  have hstart : (s.act blockchain (.start sync p)).Catching blockchain sync p := by
    rw [act, hnone]
    exact catching_goOn trivial
  obtain ⟨stage, hrun, hcaught⟩ := catching_run hquiet (sound_act hsound _) hstart
  have hstage : s'.syncs sync = some ⟨p, stage⟩ := hrun
  rw [hfinished] at hstage
  cases hstage
  exact hcaught

/-- The list grows while a sync is between its reads, another sync fails, and a third one stores the
    entries that were left. -/
def growingActions : List ParanetAction :=
  [.start 0 "p", .resume 0 0, .resume 0 0, .grow "p" [⟨"0xA", 3⟩], .resume 0 0, .start 1 "p",
    .resume 0 0, .resume 1 0, .fail 1, .grow "p" [⟨"0xB", 1⟩]]

def lastSync : List ParanetAction :=
  List.replicate 8 (.resume 2 0) ++ List.replicate 4 (.settle 0 none 0) ++
    List.replicate 2 (.resume 2 0)

theorem localList_prefix_chainList_growing :
    let s := ((fresh fun _ => [⟨"0xA", 1⟩, ⟨"0xA", 2⟩]).run (fun _ => "otp:2043")
      growingActions).run (fun _ => "otp:2043") (.start 2 "p" :: lastSync)
    s.localList "p" = s.chainList (fun _ => "otp:2043") "p" ∧ (s.onChain "p").length = 4 := by
  intro s
  refine ⟨?_, by decide +kernel⟩
  refine (localList_prefix_chainList (fun _ => "otp:2043") (fun _ => [⟨"0xA", 1⟩, ⟨"0xA", 2⟩])
    growingActions "p").2.2 2 lastSync (by decide +kernel) ?_ (by decide +kernel)
  intro a ha locators
  rintro rfl
  simp [lastSync] at ha

end ParanetState

end OtNode
