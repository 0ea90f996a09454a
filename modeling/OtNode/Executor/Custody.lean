import OtNode.Executor.Machine
import Mathlib.Data.Multiset.Count
import Mathlib.Data.Multiset.Filter
import Mathlib.Data.Multiset.Replicate
import Mathlib.Tactic.Common

/-! Who has a command: the custody of the executor over the rows of its table.

    What is under way holds tokens. A child goes from the execution that returned it to those that are
    granted, when the execution is completed, and from there to the queue, where it is carried. The
    rules say how tokens may change, and what this keeps true. -/

namespace OtNode.CommandExecutor

/-- A token: a command that is queued or executed, a child an execution has returned, a child or a
    replayed row that is to be queued, an execution, and a child of a failed execution that is still
    inserted. -/
inductive Token where
  | carried (id : ℕ)
  | returned (execution id : ℕ)
  | granted (id : ℕ)
  | running (execution : ℕ)
  | stray (execution : ℕ)
  deriving DecidableEq

/-- How far the replay is. -/
inductive Phase where
  | reading
  | looking (left : List ℕ)
  | finished

/-- The custody of the executor. A row is live while it is not finalized. -/
structure Custody where
  live : ℕ → Prop
  permanent : ℕ → Prop
  tokens : Multiset Token
  phase : Phase
  nextId : ℕ
  nextExecution : ℕ
  session : ℕ
  origin : ℕ → Option Origin
  completed : List ℕ
  executed : List ℕ
  handed : List ℕ

namespace Phase

/-- The replay has not come to the row. -/
def Pending : Phase → ℕ → Prop
  | reading, _ => True
  | looking left, id => id ∈ left
  | finished, _ => False

end Phase

namespace Custody

variable {q : Custody} {x n : ℕ} {o : Origin} {T T' F : Multiset Token}

/-- The row was returned by an execution of a command that was not permanent and had a parent. -/
def Chained (q : Custody) (x : ℕ) (o : Origin) : Prop := q.origin x = some o ∧ o.chained = true

/-- What a token says. -/
def TokenOk (q : Custody) : Token → Prop
  | .carried x => x < q.nextId ∧ ∀ o, q.Chained x o → x ∈ q.handed
  | .returned n x => ∃ chained, q.origin x = some ⟨n, q.session, chained⟩
  | .granted x => x < q.nextId ∧ ∀ o, q.Chained x o → o.execution ∈ q.completed
  | .running n => n < q.nextExecution ∧ n ∉ q.completed
  | .stray n => n < q.nextExecution ∧ n ∉ q.completed

/-- A row of a completed execution has been queued, or is to be. -/
def Secured (q : Custody) (x : ℕ) : Prop := x ∈ q.handed ∨ .granted x ∈ q.tokens

/-- The invariant of the custody. -/
structure Good (q : Custody) : Prop where
  tokens : ∀ t ∈ q.tokens, q.TokenOk t
  origin : ∀ x o, q.origin x = some o →
    x < q.nextId ∧ o.execution < q.nextExecution ∧ o.session ≤ q.session
  completed : ∀ n ∈ q.completed, n < q.nextExecution
  handed : ∀ x ∈ q.handed, x < q.nextId ∧ ∀ o, q.Chained x o → o.execution ∈ q.completed
  executed : ∀ x ∈ q.executed, x < q.nextId ∧ ∀ o, q.Chained x o → o.execution ∈ q.completed
  runningOnce : ∀ n, q.tokens.count (.running n) ≤ 1
  stray : ∀ n, .stray n ∈ q.tokens → .running n ∉ q.tokens
  here : ∀ x o, q.origin x = some o →
    .running o.execution ∈ q.tokens ∨ .stray o.execution ∈ q.tokens → o.session = q.session
  returnedOnce : ∀ n x, q.tokens.count (.returned n x) ≤ 1
  once : ∀ x o, q.Chained x o → q.handed.count x + q.tokens.count (.granted x) ≤ 1
  held : ∀ x o, q.live x → q.Chained x o → .running o.execution ∈ q.tokens →
    .returned o.execution x ∈ q.tokens
  own : ∀ x o, q.live x → q.Chained x o → o.session = q.session → o.execution ∈ q.completed →
    q.Secured x
  old : ∀ x o, q.live x → q.Chained x o → o.session < q.session → o.execution ∈ q.completed →
    q.phase.Pending x ∨ q.Secured x
  unread : ∀ x o, q.Chained x o → o.session < q.session → q.phase.Pending x → ¬ q.Secured x
  looking : ∀ left, q.phase = .looking left → left.Nodup ∧ ∀ x ∈ left, x < q.nextId
  permanent : ∀ x o, q.permanent x → q.origin x = some o → o.session = q.session

namespace Good

/-- Nothing has happened. -/
theorem initial (htokens : q.tokens = 0) (hphase : q.phase = .finished)
    (horigin : ∀ x, q.origin x = none) (hcompleted : q.completed = [])
    (hexecuted : q.executed = []) (hhanded : q.handed = []) : Good q := by
  constructor <;> simp [htokens, hphase, horigin, hcompleted, hexecuted, hhanded, Chained]

/-! ### Rules that drop or rename tokens -/

/-- RULE (tokens): tokens change, and no child is lost. -/
theorem change (h : Good { q with tokens := T }) (hok : ∀ t ∈ T', t ∈ T ∨ q.TokenOk t)
    (hrunning : ∀ n, T'.count (.running n) ≤ T.count (.running n))
    (hstray : ∀ n, .stray n ∈ T' → .running n ∉ T' ∧ (.running n ∈ T ∨ .stray n ∈ T))
    (hreturned : ∀ n x, T'.count (.returned n x) ≤ T.count (.returned n x))
    (hgranted : ∀ x, T'.count (.granted x) ≤ T.count (.granted x))
    (hheld : ∀ n x, .running n ∈ T' → .returned n x ∈ T → .returned n x ∈ T')
    (hsecured : ∀ x o, q.Chained x o → .granted x ∈ T → x ∈ q.handed ∨ .granted x ∈ T') :
    Good { q with tokens := T' } := by
  have hrun : ∀ n, .running n ∈ T' → .running n ∈ T := fun n hn =>
    Multiset.count_pos.mp (Nat.lt_of_lt_of_le (Multiset.count_pos.mpr hn) (hrunning n))
  have hkeep : ∀ x o, q.Chained x o → Secured { q with tokens := T } x →
      Secured { q with tokens := T' } x := by
    rintro x o hchained (hhanded | hgrant)
    · exact .inl hhanded
    · exact hsecured x o hchained hgrant
  refine { h with
    tokens := fun t ht => (hok t ht).elim (h.tokens t) id
    runningOnce := fun n => (hrunning n).trans (h.runningOnce n)
    stray := fun n hn => (hstray n hn).1
    here := fun x o horigin htoken => ?_
    returnedOnce := fun n x => (hreturned n x).trans (h.returnedOnce n x)
    once := fun x o hchained =>
      (Nat.add_le_add_left (hgranted x) _).trans (h.once x o hchained)
    held := fun x o hlive hchained hr => hheld _ x hr (h.held x o hlive hchained (hrun _ hr))
    own := fun x o hlive hchained hsession hdone =>
      hkeep x o hchained (h.own x o hlive hchained hsession hdone)
    old := fun x o hlive hchained hsession hdone =>
      (h.old x o hlive hchained hsession hdone).imp_right (hkeep x o hchained)
    unread := fun x o hchained hsession hpending hsec =>
      h.unread x o hchained hsession hpending (hsec.imp_right fun hg => ?_) }
  · rcases htoken with hr | hs
    · exact h.here x o horigin (.inl (hrun _ hr))
    · exact h.here x o horigin (hstray _ hs).2
  · exact Multiset.count_pos.mp
      (Nat.lt_of_lt_of_le (Multiset.count_pos.mpr hg) (hgranted x))

/-- RULE (lose): a command is no longer carried, or a child of a failed execution is not inserted. -/
theorem lose {t : Token} (ht : (∃ x, t = .carried x) ∨ ∃ n, t = .stray n)
    (h : Good { q with tokens := t ::ₘ F }) : Good { q with tokens := F } := by
  have hne : ∀ n x, Token.running n ≠ t ∧ Token.returned n x ≠ t ∧ Token.granted x ≠ t := by
    rcases ht with ⟨y, rfl⟩ | ⟨m, rfl⟩ <;> simp
  refine h.change (fun t ht => .inl (Multiset.mem_cons_of_mem ht))
    (fun n => Multiset.count_le_count_cons _ _ _)
    (fun n hn => ⟨fun hr => h.stray n (Multiset.mem_cons_of_mem hn)
      (Multiset.mem_cons_of_mem hr), .inr (Multiset.mem_cons_of_mem hn)⟩)
    (fun n x => Multiset.count_le_count_cons _ _ _) (fun x => Multiset.count_le_count_cons _ _ _)
    (fun n x _ hx => ?_) fun x o _ hx => ?_
  · exact (Multiset.mem_cons.mp hx).resolve_left (hne n x).2.1
  · exact .inr ((Multiset.mem_cons.mp hx).resolve_left (hne 0 x).2.2)

/-- RULE (refuse): a command that is granted is not queued, which does not matter for a child. -/
theorem refuse (h : Good { q with tokens := .granted x ::ₘ F })
    (hx : ∀ o, q.Chained x o → x ∈ q.handed) : Good { q with tokens := F } := by
  refine h.change (fun t ht => .inl (Multiset.mem_cons_of_mem ht))
    (fun n => Multiset.count_le_count_cons _ _ _)
    (fun n hn => ⟨fun hr => h.stray n (Multiset.mem_cons_of_mem hn)
      (Multiset.mem_cons_of_mem hr), .inr (Multiset.mem_cons_of_mem hn)⟩)
    (fun n x => Multiset.count_le_count_cons _ _ _) (fun x => Multiset.count_le_count_cons _ _ _)
    (fun n x _ hx => ?_) fun y o hchained hy => ?_
  · exact (Multiset.mem_cons.mp hx).resolve_left (by simp)
  · rcases Multiset.mem_cons.mp hy with heq | hy
    · cases heq
      exact .inl (hx o hchained)
    · exact .inr hy

/-- RULE (abandon): an execution fails. Some of its children are still inserted. -/
theorem abandon {children : Multiset ℕ} {k : ℕ}
    (h : Good { q with tokens := .running n ::ₘ (children.map (Token.returned n) + F) }) :
    Good { q with tokens := Multiset.replicate k (.stray n) + F } := by
  have hn := h.tokens (.running n) (Multiset.mem_cons_self _ _)
  have honce := h.runningOnce n
  have hnF : .running n ∉ F := by
    intro hr
    have := Multiset.count_pos.mpr hr
    simp only [Multiset.count_cons_self, Multiset.count_add] at honce
    omega
  have hle : F ≤ .running n ::ₘ (children.map (Token.returned n) + F) :=
    (Multiset.le_add_left _ _).trans (Multiset.le_cons_self _ _)
  have hcount : ∀ t, t ≠ .stray n →
      (Multiset.replicate k (Token.stray n) + F).count t = F.count t := by
    intro t ht
    rw [Multiset.count_add, Multiset.count_replicate, if_neg (Ne.symm ht), Nat.zero_add]
  have hmem : ∀ t, t ≠ .stray n → t ∈ Multiset.replicate k (Token.stray n) + F → t ∈ F := by
    intro t ht hm
    exact (Multiset.mem_add.mp hm).resolve_left fun hs => ht (Multiset.eq_of_mem_replicate hs)
  refine h.change (fun t ht => ?_) (fun m => ?_) (fun m hm => ⟨fun hr => ?_, ?_⟩)
    (fun m x => ?_) (fun x => ?_) (fun m x hr hx => ?_) fun x o _ hx => ?_
  · rcases Multiset.mem_add.mp ht with ht | ht
    · rw [Multiset.eq_of_mem_replicate ht]
      exact .inr hn
    · exact .inl (Multiset.mem_of_le hle ht)
  · rw [hcount _ (by simp)]
    exact Multiset.count_le_of_le _ hle
  · have hr := hmem _ (by simp) hr
    by_cases hmn : m = n
    · exact hnF (hmn ▸ hr)
    · have hs := hmem (.stray m) (by simpa using hmn) hm
      exact h.stray m (Multiset.mem_of_le hle hs) (Multiset.mem_of_le hle hr)
  · by_cases hmn : m = n
    · exact .inl (hmn ▸ Multiset.mem_cons_self _ _)
    · exact .inr (Multiset.mem_of_le hle (hmem (.stray m) (by simpa using hmn) hm))
  · rw [hcount _ (by simp)]
    exact Multiset.count_le_of_le _ hle
  · rw [hcount _ (by simp)]
    exact Multiset.count_le_of_le _ hle
  · have hr := hmem _ (by simp) hr
    rcases Multiset.mem_cons.mp hx with heq | hx
    · cases heq
    · rcases Multiset.mem_add.mp hx with hx | hx
      · obtain ⟨y, -, heq⟩ := Multiset.mem_map.mp hx
        cases heq
        exact absurd hr hnF
      · exact Multiset.mem_add.mpr (.inr hx)
  · rcases Multiset.mem_cons.mp hx with heq | hx
    · cases heq
    · rcases Multiset.mem_add.mp hx with hx | hx
      · obtain ⟨y, -, heq⟩ := Multiset.mem_map.mp hx
        cases heq
      · exact .inr (Multiset.mem_add.mpr (.inr hx))

/-! ### Rules for rows -/

/-- RULE (write): rows of commands that are carried are written, and rows are removed. -/
theorem write {live permanent : ℕ → Prop} (h : Good q)
    (hlive : ∀ y, live y → q.live y ∨ .carried y ∈ q.tokens)
    (hpermanent : ∀ y, permanent y → q.permanent y) :
    Good { q with live := live, permanent := permanent } := by
  refine { h with
    held := fun x o hx hchained hr => ?_
    own := fun x o hx hchained hsession hdone => ?_
    old := fun x o hx hchained hsession hdone => ?_
    permanent := fun x o hx => h.permanent x o (hpermanent x hx) }
  · rcases hlive x hx with hx | hx
    · exact h.held x o hx hchained hr
    · have hdone := (h.handed x ((h.tokens _ hx).2 o hchained)).2 o hchained
      exact absurd hdone (h.tokens _ hr).2
  · rcases hlive x hx with hx | hx
    · exact h.own x o hx hchained hsession hdone
    · exact .inl ((h.tokens _ hx).2 o hchained)
  · rcases hlive x hx with hx | hx
    · exact h.old x o hx hchained hsession hdone
    · exact .inr (.inl ((h.tokens _ hx).2 o hchained))

/-- What a new row is: of a command that is queued, of a child an execution has returned, or of a
    child of an execution that has failed. -/
inductive New (q : Custody) (T : Multiset Token) : Option Origin → Multiset Token → Prop where
  | root : New q T none {.carried q.nextId}
  | child (n : ℕ) (chained : Bool) (running : .running n ∈ T) :
      New q T (some ⟨n, q.session, chained⟩) {.returned n q.nextId}
  | stray (n : ℕ) (chained : Bool) (stray : .stray n ∈ T) :
      New q T (some ⟨n, q.session, chained⟩) 0

/-- RULE (insert): a row is inserted with a new id. -/
theorem insert {live permanent : ℕ → Prop} {origin : Option Origin} {N : Multiset Token}
    (h : Good { q with tokens := T }) (hnew : New q T origin N)
    (hlive : ∀ y, live y → q.live y ∨ y = q.nextId)
    (hpermanent : ∀ y, permanent y → q.permanent y ∨ y = q.nextId) :
    Good { q with
      live := live
      permanent := permanent
      tokens := N + T
      nextId := q.nextId + 1
      origin := Function.update q.origin q.nextId origin } := by
  have hnone : ∀ o, q.origin q.nextId ≠ some o := fun o ho => (h.origin _ o ho).1.false
  have hold : ∀ y, y ≠ q.nextId → Function.update q.origin q.nextId origin y = q.origin y :=
    fun y hy => Function.update_of_ne hy _ _
  have hchained : ∀ y o, y ≠ q.nextId →
      Function.update q.origin q.nextId origin y = some o ∧ o.chained = true → q.Chained y o :=
    fun y o hy ho => ⟨(hold y hy).symm.trans ho.1, ho.2⟩
  have hN : ∀ t ∈ N, t = .carried q.nextId ∨ ∃ n, t = .returned n q.nextId := by
    intro t ht
    cases hnew with
    | root => exact .inl (Multiset.mem_singleton.mp ht)
    | child n chained running => exact .inr ⟨n, Multiset.mem_singleton.mp ht⟩
    | stray n chained stray => cases ht
  have hT : ∀ t, t ∈ N + T → (∀ y, t ≠ .carried y) → (∀ n y, t ≠ .returned n y) → t ∈ T := by
    intro t ht hcarried hreturned
    refine (Multiset.mem_add.mp ht).resolve_left ?_
    intro htN
    rcases hN t htN with rfl | ⟨n, rfl⟩
    · exact hcarried _ rfl
    · exact hreturned _ _ rfl
  have hcount : ∀ t, (∀ y, t ≠ .carried y) → (∀ n y, t ≠ .returned n y) →
      (N + T).count t = T.count t := by
    intro t hcarried hreturned
    rw [Multiset.count_add, Multiset.count_eq_zero_of_notMem, Nat.zero_add]
    intro htN
    rcases hN t htN with rfl | ⟨n, rfl⟩
    · exact hcarried _ rfl
    · exact hreturned _ _ rfl
  have hsession : ∀ o, origin = some o → o.session = q.session ∧
      (.running o.execution ∈ T ∨ .stray o.execution ∈ T) := by
    rintro o rfl
    cases hnew with
    | child n chained running => exact ⟨rfl, .inl running⟩
    | stray n chained stray => exact ⟨rfl, .inr stray⟩
  have hopen : ∀ o, origin = some o →
      o.execution < q.nextExecution ∧ o.execution ∉ q.completed := by
    intro o ho
    rcases (hsession o ho).2 with hr | hs
    · exact h.tokens _ hr
    · exact h.tokens _ hs
  -- what is known of a row is that it is the new one, or what was known before
  have hcases : ∀ y o, Function.update q.origin q.nextId origin y = some o →
      (y = q.nextId ∧ origin = some o) ∨ (y ≠ q.nextId ∧ q.origin y = some o) := by
    intro y o hy
    by_cases hne : y = q.nextId
    · subst hne
      rw [Function.update_self] at hy
      exact .inl ⟨rfl, hy⟩
    · rw [hold y hne] at hy
      exact .inr ⟨hne, hy⟩
  have hhanded : q.nextId ∉ q.handed := fun hx => (h.handed _ hx).1.false
  constructor
  · intro t ht
    have ht' : t ∈ N ∨ t ∈ T := Multiset.mem_add.mp ht
    clear ht
    rcases ht' with ht | ht
    · cases hnew with
      | root =>
        obtain rfl := Multiset.mem_singleton.mp ht
        refine ⟨Nat.lt_succ_self _, ?_⟩
        intro o ho
        have hself : some o = none := ho.1.symm.trans (Function.update_self ..)
        cases hself
      | child n chained running =>
        obtain rfl := Multiset.mem_singleton.mp ht
        exact ⟨chained, Function.update_self ..⟩
      | stray n chained stray => cases ht
    · have hok := h.tokens t ht
      cases t with
      | carried y =>
        exact ⟨Nat.lt_succ_of_lt hok.1, fun o ho => hok.2 o (hchained y o hok.1.ne ho)⟩
      | returned n y =>
        obtain ⟨chained, hy⟩ := hok
        exact ⟨chained, (hold y fun heq => hnone _ (heq ▸ hy)).trans hy⟩
      | granted y =>
        exact ⟨Nat.lt_succ_of_lt hok.1, fun o ho => hok.2 o (hchained y o hok.1.ne ho)⟩
      | running n => exact hok
      | stray n => exact hok
  · intro y o hy
    rcases hcases y o hy with ⟨rfl, ho⟩ | ⟨-, hy⟩
    · exact ⟨Nat.lt_succ_self _, (hopen o ho).1, (hsession o ho).1.le⟩
    · obtain ⟨hlt, hrest⟩ := h.origin y o hy
      exact ⟨Nat.lt_succ_of_lt hlt, hrest⟩
  · exact h.completed
  · intro y hy
    obtain ⟨hlt, hdone⟩ := h.handed y hy
    exact ⟨Nat.lt_succ_of_lt hlt, fun o ho => hdone o (hchained y o hlt.ne ho)⟩
  · intro y hy
    obtain ⟨hlt, hdone⟩ := h.executed y hy
    exact ⟨Nat.lt_succ_of_lt hlt, fun o ho => hdone o (hchained y o hlt.ne ho)⟩
  · intro n
    rw [hcount _ (by simp) (by simp)]
    exact h.runningOnce n
  · intro n hs hr
    exact h.stray n (hT _ hs (by simp) (by simp)) (hT _ hr (by simp) (by simp))
  · intro y o hy htoken
    rcases hcases y o hy with ⟨rfl, ho⟩ | ⟨-, hy⟩
    · exact (hsession o ho).1
    · refine h.here y o hy (htoken.imp (fun ht => ?_) fun ht => ?_)
      · exact hT _ ht (by simp) (by simp)
      · exact hT _ ht (by simp) (by simp)
  · intro n y
    rw [Multiset.count_add]
    by_cases hy : y = q.nextId
    · subst hy
      have hzero : T.count (.returned n q.nextId) = 0 := by
        refine Multiset.count_eq_zero_of_notMem ?_
        intro ht
        obtain ⟨chained, hx⟩ := h.tokens _ ht
        exact hnone _ hx
      rw [hzero, Nat.add_zero]
      cases hnew with
      | root => simp
      | child m chained running =>
        rw [Multiset.count_singleton]
        split <;> omega
      | stray m chained stray => simp
    · have hzero : N.count (.returned n y) = 0 := by
        refine Multiset.count_eq_zero_of_notMem ?_
        intro ht
        rcases hN _ ht with heq | ⟨m, heq⟩
        · cases heq
        · exact hy (Token.returned.inj heq).2
      rw [hzero, Nat.zero_add]
      exact h.returnedOnce n y
  · intro y o hy
    rw [hcount _ (by simp) (by simp)]
    rcases hcases y o hy.1 with ⟨rfl, -⟩ | ⟨hne, hold'⟩
    · have hzero : T.count (.granted q.nextId) = 0 :=
        Multiset.count_eq_zero_of_notMem fun ht => (h.tokens _ ht).1.false
      rw [hzero, List.count_eq_zero_of_not_mem hhanded]
      exact Nat.zero_le _
    · exact h.once y o ⟨hold', hy.2⟩
  · intro y o hlive' hy hr
    have hr' := hT _ hr (by simp) (by simp)
    rcases hcases y o hy.1 with ⟨rfl, ho⟩ | ⟨hne, hold'⟩
    · cases hnew with
      | root => cases ho
      | child n chained running =>
        cases ho
        exact Multiset.mem_add.mpr (.inl (Multiset.mem_singleton_self _))
      | stray n chained stray =>
        cases ho
        exact absurd hr' (h.stray n stray)
    · exact Multiset.mem_add.mpr (.inr (h.held y o ((hlive y hlive').resolve_right hne)
        ⟨hold', hy.2⟩ hr'))
  · intro y o hlive' hy hsess hdone
    rcases hcases y o hy.1 with ⟨rfl, ho⟩ | ⟨hne, hold'⟩
    · exact absurd hdone (hopen o ho).2
    · exact (h.own y o ((hlive y hlive').resolve_right hne) ⟨hold', hy.2⟩ hsess hdone).imp_right
        fun ht => Multiset.mem_add.mpr (.inr ht)
  · intro y o hlive' hy hsess hdone
    rcases hcases y o hy.1 with ⟨rfl, ho⟩ | ⟨hne, hold'⟩
    · exact absurd hsess (hsession o ho).1.not_lt
    · exact (h.old y o ((hlive y hlive').resolve_right hne) ⟨hold', hy.2⟩ hsess hdone).imp_right
        fun hsec => hsec.imp_right fun ht => Multiset.mem_add.mpr (.inr ht)
  · intro y o hy hsess hpending hsec
    rcases hcases y o hy.1 with ⟨rfl, ho⟩ | ⟨-, hold'⟩
    · exact absurd hsess (hsession o ho).1.not_lt
    · exact h.unread y o ⟨hold', hy.2⟩ hsess hpending
        (hsec.imp_right fun ht => hT _ ht (by simp) (by simp))
  · intro left hleft
    obtain ⟨hnodup, hlt⟩ := h.looking left hleft
    exact ⟨hnodup, fun y hy => Nat.lt_succ_of_lt (hlt y hy)⟩
  · intro y o hperm hy
    rcases hcases y o hy with ⟨rfl, ho⟩ | ⟨hne, hold'⟩
    · exact (hsession o ho).1
    · exact h.permanent y o ((hpermanent y hperm).resolve_right hne) hold'

/-! ### Rules for executions -/

theorem mem_of_mem_cons_running {t : Token} (h : t ∈ .running n ::ₘ T) (ht : t ≠ .running n) :
    t ∈ T := (Multiset.mem_cons.mp h).resolve_left ht

/-- RULE (execute): a command that is carried is executed. -/
theorem execute (h : Good { q with tokens := T }) (hx : .carried x ∈ T) :
    Good { q with
      tokens := .running q.nextExecution ::ₘ T
      nextExecution := q.nextExecution + 1
      executed := q.executed ++ [x] } := by
  have hnew : .running q.nextExecution ∉ T := fun hr => (h.tokens _ hr).1.false
  have hcarried := h.tokens _ hx
  have hsecured : ∀ y, Secured { q with tokens := .running q.nextExecution ::ₘ T } y →
      Secured { q with tokens := T } y :=
    fun y => Or.imp_right fun ht => mem_of_mem_cons_running ht (by simp)
  refine { h with
    tokens := fun t ht => ?_
    origin := fun y o hy => ?_
    completed := fun n hn => Nat.lt_succ_of_lt (h.completed n hn)
    executed := fun y hy => ?_
    runningOnce := fun n => ?_
    stray := fun n hs hr => ?_
    here := fun y o hy htoken => ?_
    returnedOnce := fun n y => ?_
    once := fun y o hy => ?_
    held := fun y o hlive hy hr => ?_
    own := fun y o hlive hy hsession hdone =>
      (h.own y o hlive hy hsession hdone).imp_right Multiset.mem_cons_of_mem
    old := fun y o hlive hy hsession hdone =>
      (h.old y o hlive hy hsession hdone).imp_right (Or.imp_right Multiset.mem_cons_of_mem)
    unread := fun y o hy hsession hpending hsec =>
      h.unread y o hy hsession hpending (hsecured y hsec) }
  · rcases Multiset.mem_cons.mp ht with rfl | ht
    · exact ⟨Nat.lt_succ_self _, fun hdone => (h.completed _ hdone).false⟩
    · have hok := h.tokens t ht
      cases t with
      | carried y => exact hok
      | returned n y => exact hok
      | granted y => exact hok
      | running n => exact ⟨Nat.lt_succ_of_lt hok.1, hok.2⟩
      | stray n => exact ⟨Nat.lt_succ_of_lt hok.1, hok.2⟩
  · obtain ⟨hlt, hexecution, hsession⟩ := h.origin y o hy
    exact ⟨hlt, Nat.lt_succ_of_lt hexecution, hsession⟩
  · rcases List.mem_append.mp hy with hy | hy
    · exact h.executed y hy
    · obtain rfl := List.mem_singleton.mp hy
      exact ⟨hcarried.1, fun o ho => (h.handed y (hcarried.2 o ho)).2 o ho⟩
  · by_cases hn : n = q.nextExecution
    · rw [hn, Multiset.count_cons_self, Multiset.count_eq_zero_of_notMem hnew]
    · rw [Multiset.count_cons_of_ne (by simpa using hn)]
      exact h.runningOnce n
  · have hs := mem_of_mem_cons_running hs (by simp)
    rcases Multiset.mem_cons.mp hr with heq | hr
    · cases heq
      exact (h.tokens _ hs).1.false
    · exact h.stray n hs hr
  · refine h.here y o hy (htoken.imp (fun hr => ?_) fun hs => ?_)
    · refine mem_of_mem_cons_running hr ?_
      intro heq
      exact (h.origin y o hy).2.1.ne (Token.running.inj heq)
    · exact mem_of_mem_cons_running hs (by simp)
  · rw [Multiset.count_cons_of_ne (by simp)]
    exact h.returnedOnce n y
  · rw [Multiset.count_cons_of_ne (by simp)]
    exact h.once y o hy
  · refine Multiset.mem_cons_of_mem (h.held y o hlive hy (mem_of_mem_cons_running hr fun heq => ?_))
    exact (h.origin y o hy.1).2.1.ne (Token.running.inj heq)

/-- RULE (complete): an execution is completed, and its children are granted. -/
theorem complete {children : Multiset ℕ}
    (h : Good { q with tokens := .running n ::ₘ (children.map (Token.returned n) + F) })
    (hF : ∀ x, .returned n x ∉ F) :
    Good { q with
      tokens := children.map Token.granted + F
      completed := q.completed ++ [n] } := by
  have hrunning : Token.running n ∈ .running n ::ₘ (children.map (Token.returned n) + F) :=
    Multiset.mem_cons_self _ _
  obtain ⟨hlt, hopen⟩ := h.tokens _ hrunning
  have hsub : ∀ t ∈ F, t ∈ .running n ::ₘ (children.map (Token.returned n) + F) :=
    fun t ht => Multiset.mem_cons_of_mem (Multiset.mem_add.mpr (.inr ht))
  have hnF : .running n ∉ F := by
    intro hr
    have honce := h.runningOnce n
    have := Multiset.count_pos.mpr hr
    simp only [Multiset.count_cons_self, Multiset.count_add] at honce
    omega
  have hchild : ∀ x ∈ children, ∃ chained, q.origin x = some ⟨n, q.session, chained⟩ := by
    intro x hx
    exact h.tokens (.returned n x)
      (Multiset.mem_cons_of_mem (Multiset.mem_add.mpr (.inl (Multiset.mem_map_of_mem _ hx))))
  have hmem : ∀ t, t ∈ children.map Token.granted + F → (∀ x, t ≠ .granted x) → t ∈ F := by
    intro t ht hne
    refine (Multiset.mem_add.mp ht).resolve_left ?_
    intro ht
    obtain ⟨x, -, rfl⟩ := Multiset.mem_map.mp ht
    exact hne x rfl
  have hcount : ∀ t, (∀ x, t ≠ .granted x) →
      (children.map Token.granted + F).count t ≤
        (Token.running n ::ₘ (children.map (Token.returned n) + F)).count t := by
    intro t hne
    have hzero : (children.map Token.granted).count t = 0 := by
      refine Multiset.count_eq_zero_of_notMem ?_
      intro ht
      obtain ⟨x, -, rfl⟩ := Multiset.mem_map.mp ht
      exact hne x rfl
    rw [Multiset.count_add, hzero, Nat.zero_add]
    exact Multiset.count_le_of_le _ ((Multiset.le_add_left _ _).trans (Multiset.le_cons_self _ _))
  have hback : ∀ m x, m ≠ n ∨ x ∉ children →
      .returned m x ∈ Token.running n ::ₘ (children.map (Token.returned n) + F) →
      .returned m x ∈ F := by
    intro m x hne hx
    rcases Multiset.mem_add.mp (mem_of_mem_cons_running hx (by simp)) with hx | hx
    · obtain ⟨y, hy, heq⟩ := Multiset.mem_map.mp hx
      cases heq
      exact absurd hy (hne.resolve_left (absurd rfl))
    · exact hx
  have hgranted : ∀ x, .granted x ∈ Token.running n ::ₘ (children.map (Token.returned n) + F) →
      .granted x ∈ F := by
    intro x hx
    refine (Multiset.mem_add.mp (mem_of_mem_cons_running hx (by simp))).resolve_left ?_
    intro hx
    obtain ⟨y, -, heq⟩ := Multiset.mem_map.mp hx
    cases heq
  refine { h with
    tokens := fun t ht => ?_
    completed := fun m hm => ?_
    handed := fun x hx => ⟨(h.handed x hx).1, fun o ho =>
      List.mem_append.mpr (.inl ((h.handed x hx).2 o ho))⟩
    executed := fun x hx => ⟨(h.executed x hx).1, fun o ho =>
      List.mem_append.mpr (.inl ((h.executed x hx).2 o ho))⟩
    runningOnce := fun m => (hcount _ (by simp)).trans (h.runningOnce m)
    stray := fun m hs hr => h.stray m (hsub _ (hmem _ hs (by simp))) (hsub _ (hmem _ hr (by simp)))
    here := fun x o hx htoken => h.here x o hx
      (htoken.imp (fun ht => hsub _ (hmem _ ht (by simp))) fun ht => hsub _ (hmem _ ht (by simp)))
    returnedOnce := fun m x => (hcount _ (by simp)).trans (h.returnedOnce m x)
    once := fun x o hx => ?_
    held := fun x o hlive hx hr => ?_
    own := fun x o hlive hx hsession hdone => ?_
    old := fun x o hlive hx hsession hdone => ?_
    unread := fun x o hx hsession hpending hsec => ?_ }
  · by_cases hg : ∃ x, t = .granted x ∧ x ∈ children
    · obtain ⟨x, rfl, hx⟩ := hg
      obtain ⟨chained, horigin⟩ := hchild x hx
      refine ⟨(h.origin x _ horigin).1, ?_⟩
      intro o ho
      cases horigin.symm.trans ho.1
      exact List.mem_append.mpr (.inr (List.mem_singleton_self _))
    · have ht' : t ∈ F := by
        refine (Multiset.mem_add.mp ht).resolve_left ?_
        intro ht
        obtain ⟨x, hx, rfl⟩ := Multiset.mem_map.mp ht
        exact hg ⟨x, rfl, hx⟩
      have hok := h.tokens t (hsub t ht')
      have hne : ∀ m, m ∉ q.completed → m ≠ n → m ∉ q.completed ++ [n] := by
        intro m hm hmn hmem
        rcases List.mem_append.mp hmem with hmem | hmem
        · exact hm hmem
        · exact hmn (List.mem_singleton.mp hmem)
      cases t with
      | carried x => exact hok
      | returned m x => exact hok
      | granted x =>
        exact ⟨hok.1, fun o ho => List.mem_append.mpr (.inl (hok.2 o ho))⟩
      | running m => exact ⟨hok.1, hne m hok.2 fun hmn => hnF (hmn ▸ ht')⟩
      | stray m => exact ⟨hok.1, hne m hok.2 fun hmn => h.stray m (hsub _ ht') (hmn ▸ hrunning)⟩
  · rcases List.mem_append.mp hm with hm | hm
    · exact h.completed m hm
    · exact List.mem_singleton.mp hm ▸ hlt
  · have honce := h.once x o hx
    have hF' : F.count (.granted x) ≤
        (Token.running n ::ₘ (children.map (Token.returned n) + F)).count (.granted x) :=
      Multiset.count_le_of_le _ ((Multiset.le_add_left _ _).trans (Multiset.le_cons_self _ _))
    by_cases hxc : x ∈ children
    · obtain ⟨chained, horigin⟩ := hchild x hxc
      have hexecution : o.execution = n := by
        cases horigin.symm.trans hx.1
        rfl
      have hhanded : x ∉ q.handed := fun hh =>
        hopen (hexecution ▸ (h.handed x hh).2 o hx)
      have hnot : .granted x ∉ F := fun hg =>
        hopen (hexecution ▸ (h.tokens _ (hsub _ hg)).2 o hx)
      have hreturned := h.returnedOnce n x
      have hinj : Function.Injective (Token.returned n) := fun a b hab => (Token.returned.inj hab).2
      have hinj' : Function.Injective Token.granted := fun a b hab => Token.granted.inj hab
      simp only [Multiset.count_cons_of_ne (show Token.returned n x ≠ .running n by simp),
        Multiset.count_add, Multiset.count_map_eq_count' _ _ hinj] at hreturned
      simp only [Multiset.count_add, Multiset.count_map_eq_count' _ _ hinj',
        Multiset.count_eq_zero_of_notMem hnot, List.count_eq_zero_of_not_mem hhanded]
      omega
    · have hzero : (children.map Token.granted).count (.granted x) = 0 := by
        refine Multiset.count_eq_zero_of_notMem ?_
        intro ht
        obtain ⟨y, hy, heq⟩ := Multiset.mem_map.mp ht
        cases heq
        exact hxc hy
      simp only [Multiset.count_add, hzero, Nat.zero_add]
      simp only at honce
      omega
  · have hr' := hmem _ hr (by simp)
    have hne : o.execution ≠ n := fun heq => hnF (heq ▸ hr')
    exact Multiset.mem_add.mpr (.inr (hback _ x (.inl hne) (h.held x o hlive hx (hsub _ hr'))))
  · rcases List.mem_append.mp hdone with hdone | hdone
    · exact (h.own x o hlive hx hsession hdone).imp_right fun hg =>
        Multiset.mem_add.mpr (.inr (hgranted x hg))
    · obtain rfl := List.mem_singleton.mp hdone
      by_cases hxc : x ∈ children
      · exact .inr (Multiset.mem_add.mpr (.inl (Multiset.mem_map_of_mem _ hxc)))
      · exact absurd (hback _ x (.inr hxc) (h.held x o hlive hx hrunning)) (hF x)
  · rcases List.mem_append.mp hdone with hdone | hdone
    · exact (h.old x o hlive hx hsession hdone).imp_right (Or.imp_right fun hg =>
        Multiset.mem_add.mpr (.inr (hgranted x hg)))
    · obtain rfl := List.mem_singleton.mp hdone
      exact absurd hsession (h.here x o hx.1 (.inl hrunning)).not_lt
  · refine h.unread x o hx hsession hpending (hsec.imp_right fun hg => ?_)
    rcases Multiset.mem_add.mp hg with hg | hg
    · obtain ⟨y, hy, heq⟩ := Multiset.mem_map.mp hg
      cases heq
      obtain ⟨chained, horigin⟩ := hchild x hy
      cases horigin.symm.trans hx.1
      exact absurd hsession (Nat.lt_irrefl _)
    · exact hsub _ hg

/-- RULE (hand): a command that is granted is queued. -/
theorem hand (h : Good { q with tokens := .granted x ::ₘ F }) :
    Good { q with tokens := .carried x ::ₘ F, handed := q.handed ++ [x] } := by
  have hx := h.tokens _ (Multiset.mem_cons_self _ _)
  have hmem : ∀ t, t ∈ Token.carried x ::ₘ F → (∀ y, t ≠ .carried y) →
      t ∈ Token.granted x ::ₘ F := fun t ht hne =>
    Multiset.mem_cons_of_mem ((Multiset.mem_cons.mp ht).resolve_left (hne x))
  have hmem' : ∀ t, t ∈ Token.granted x ::ₘ F → (∀ y, t ≠ .granted y) →
      t ∈ Token.carried x ::ₘ F := fun t ht hne =>
    Multiset.mem_cons_of_mem ((Multiset.mem_cons.mp ht).resolve_left (hne x))
  have hcount : ∀ t, (∀ y, t ≠ .carried y) →
      (Token.carried x ::ₘ F).count t ≤ (Token.granted x ::ₘ F).count t := by
    intro t hne
    rw [Multiset.count_cons_of_ne (hne x)]
    exact Multiset.count_le_count_cons _ _ _
  have hkeep : ∀ y, Secured { q with tokens := .granted x ::ₘ F } y →
      Secured { q with tokens := .carried x ::ₘ F, handed := q.handed ++ [x] } y := by
    rintro y (hy | hy)
    · exact .inl (List.mem_append.mpr (.inl hy))
    · rcases Multiset.mem_cons.mp hy with heq | hy
      · cases heq
        exact .inl (List.mem_append.mpr (.inr (List.mem_singleton_self _)))
      · exact .inr (Multiset.mem_cons_of_mem hy)
  refine { h with
    tokens := fun t ht => ?_
    handed := fun y hy => ?_
    runningOnce := fun m => (hcount _ (by simp)).trans (h.runningOnce m)
    stray := fun m hs hr => h.stray m (hmem _ hs (by simp)) (hmem _ hr (by simp))
    here := fun y o hy htoken => h.here y o hy
      (htoken.imp (fun ht => hmem _ ht (by simp)) fun ht => hmem _ ht (by simp))
    returnedOnce := fun m y => (hcount _ (by simp)).trans (h.returnedOnce m y)
    once := fun y o hy => ?_
    held := fun y o hlive hy hr =>
      hmem' _ (h.held y o hlive hy (hmem _ hr (by simp))) (by simp)
    own := fun y o hlive hy hsession hdone => hkeep y (h.own y o hlive hy hsession hdone)
    old := fun y o hlive hy hsession hdone =>
      (h.old y o hlive hy hsession hdone).imp_right (hkeep y)
    unread := fun y o hy hsession hpending hsec =>
      h.unread y o hy hsession hpending ?_ }
  · rcases Multiset.mem_cons.mp ht with rfl | ht
    · exact ⟨hx.1, fun o _ => List.mem_append.mpr (.inr (List.mem_singleton_self _))⟩
    · have hok := h.tokens t (Multiset.mem_cons_of_mem ht)
      cases t with
      | carried y => exact ⟨hok.1, fun o ho => List.mem_append.mpr (.inl (hok.2 o ho))⟩
      | returned m y => exact hok
      | granted y => exact hok
      | running m => exact hok
      | stray m => exact hok
  · rcases List.mem_append.mp hy with hy | hy
    · exact h.handed y hy
    · exact List.mem_singleton.mp hy ▸ hx
  · have honce := h.once y o hy
    rw [Multiset.count_cons_of_ne (by simp), List.count_append]
    by_cases hyx : y = x
    · subst hyx
      simp only [Multiset.count_cons_self] at honce
      simp only [List.count_singleton_self]
      omega
    · rw [List.count_singleton, if_neg (by simpa using Ne.symm hyx)]
      have hle := Multiset.count_le_count_cons (Token.granted y) (.granted x) F
      simp only at honce
      omega
  · rcases hsec with hy' | hy'
    · rcases List.mem_append.mp hy' with hy' | hy'
      · exact .inl hy'
      · obtain rfl := List.mem_singleton.mp hy'
        exact .inr (Multiset.mem_cons_self _ _)
    · exact .inr (hmem _ hy' (by simp))

/-! ### Rules for restarts -/

/-- RULE (restart): nothing is under way, and the rows that are not permanent are to be read. -/
theorem restart (live : ℕ → Prop) (h : Good q) :
    Good { q with
      live := live
      permanent := fun _ => False
      tokens := 0
      phase := .reading
      session := q.session + 1
      handed := [] } where
  tokens t ht := absurd ht (Multiset.notMem_zero t)
  origin x o hx := by
    obtain ⟨hlt, hexecution, hsession⟩ := h.origin x o hx
    exact ⟨hlt, hexecution, Nat.le_succ_of_le hsession⟩
  completed := h.completed
  handed x hx := absurd hx List.not_mem_nil
  executed := h.executed
  runningOnce n := by simp
  stray n hs := absurd hs (Multiset.notMem_zero _)
  here x o _ htoken := by simp at htoken
  returnedOnce n x := by simp
  once x o _ := by simp
  held x o _ _ hr := absurd hr (Multiset.notMem_zero _)
  own x o _ hx hsession := by
    have := (h.origin x o hx.1).2.2
    simp only at hsession
    omega
  old x o _ _ _ _ := .inl trivial
  unread x o _ _ _ := by simp [Secured]
  looking left hleft := by cases hleft
  permanent x o hx := hx.elim

/-- RULE (read): the rows that are live are read. -/
theorem read {left : List ℕ} (h : Good q) (hphase : q.phase = .reading) (hnodup : left.Nodup)
    (hid : ∀ x ∈ left, x < q.nextId)
    (hleft : ∀ x o, q.live x → q.Chained x o → o.session < q.session → x ∈ left) :
    Good { q with phase := .looking left } := by
  refine { h with
    old := fun x o hlive hx hsession _ => .inl (hleft x o hlive hx hsession)
    unread := fun x o hx hsession _ => h.unread x o hx hsession ?_
    looking := fun left' heq => ?_ }
  · rw [hphase]
    trivial
  · cases heq
    exact ⟨hnodup, hid⟩

/-- RULE (look): a row is taken, which is right when its execution was completed before the start. -/
theorem look {left : List ℕ} {taken : Bool} (h : Good q) (hphase : q.phase = .looking (x :: left))
    (htaken : ∀ o, q.Chained x o →
      (taken = true ↔ o.execution ∈ q.completed ∧ o.session < q.session)) :
    Good { q with
      phase := .looking left
      tokens := if taken then .granted x ::ₘ q.tokens else q.tokens } := by
  obtain ⟨hnodup, hid⟩ := h.looking _ hphase
  obtain ⟨hnot, hnodup'⟩ := List.nodup_cons.mp hnodup
  have hpending : ∀ y ∈ x :: left, q.phase.Pending y := by
    intro y hy
    rw [hphase]
    exact hy
  cases taken with
  | false =>
    refine { h with
      old := fun y o hlive hy hsession hdone => ?_
      unread := fun y o hy hsession hmem =>
        h.unread y o hy hsession (hpending y (List.mem_cons_of_mem x hmem))
      looking := fun left' heq => ?_ }
    · refine (h.old y o hlive hy hsession hdone).imp_left ?_
      intro hy'
      rw [hphase] at hy'
      rcases List.mem_cons.mp hy' with rfl | hy'
      · have := (htaken o hy).mpr ⟨hdone, hsession⟩
        cases this
      · exact hy'
    · cases heq
      exact ⟨hnodup', fun y hy => hid y (List.mem_cons_of_mem x hy)⟩
  | true =>
    have hx : ∀ o, q.Chained x o → o.execution ∈ q.completed ∧ ¬ q.Secured x := by
      intro o ho
      obtain ⟨hdone, hsession⟩ := (htaken o ho).mp rfl
      exact ⟨hdone, h.unread x o ho hsession (hpending x (List.mem_cons_self ..))⟩
    have hmem : ∀ t, t ∈ Token.granted x ::ₘ q.tokens → t ≠ .granted x → t ∈ q.tokens :=
      fun t ht hne => (Multiset.mem_cons.mp ht).resolve_left hne
    refine { h with
      tokens := fun t ht => ?_
      runningOnce := fun n => ?_
      stray := fun n hs hr => h.stray n (hmem _ hs (by simp)) (hmem _ hr (by simp))
      here := fun y o hy htoken => h.here y o hy
        (htoken.imp (fun ht => hmem _ ht (by simp)) fun ht => hmem _ ht (by simp))
      returnedOnce := fun n y => ?_
      once := fun y o hy => ?_
      held := fun y o hlive hy hr =>
        Multiset.mem_cons_of_mem (h.held y o hlive hy (hmem _ hr (by simp)))
      own := fun y o hlive hy hsession hdone =>
        (h.own y o hlive hy hsession hdone).imp_right Multiset.mem_cons_of_mem
      old := fun y o hlive hy hsession hdone => ?_
      unread := fun y o hy hsession hmem' hsec => ?_
      looking := fun left' heq => ?_ }
    · rcases Multiset.mem_cons.mp ht with rfl | ht
      · exact ⟨hid x (List.mem_cons_self ..), fun o ho => (hx o ho).1⟩
      · exact h.tokens t ht
    · rw [if_pos rfl, Multiset.count_cons_of_ne (by simp)]
      exact h.runningOnce n
    · rw [if_pos rfl, Multiset.count_cons_of_ne (by simp)]
      exact h.returnedOnce n y
    · by_cases hyx : y = x
      · subst hyx
        have hsec := (hx o hy).2
        rw [Secured, not_or] at hsec
        rw [if_pos rfl, Multiset.count_cons_self, Multiset.count_eq_zero_of_notMem hsec.2,
          List.count_eq_zero_of_not_mem hsec.1]
      · rw [if_pos rfl, Multiset.count_cons_of_ne (by simpa using hyx)]
        exact h.once y o hy
    · rcases h.old y o hlive hy hsession hdone with hy' | hy'
      · rw [hphase] at hy'
        rcases List.mem_cons.mp hy' with rfl | hy'
        · exact .inr (.inr (Multiset.mem_cons_self _ _))
        · exact .inl hy'
      · exact .inr (hy'.imp_right Multiset.mem_cons_of_mem)
    · refine h.unread y o hy hsession (hpending y (List.mem_cons_of_mem x hmem')) ?_
      refine hsec.imp_right fun hg => hmem _ hg ?_
      intro heq
      exact hnot (Token.granted.inj heq ▸ hmem')
    · cases heq
      exact ⟨hnodup', fun y hy => hid y (List.mem_cons_of_mem x hy)⟩

/-- RULE (finish): no row is left. -/
theorem finish (h : Good q) (hphase : q.phase = .looking []) : Good { q with phase := .finished } := by
  refine { h with
    old := fun x o hlive hx hsession hdone => ?_
    unread := fun x o _ _ hpending => hpending.elim
    looking := fun left heq => ?_ }
  · refine (h.old x o hlive hx hsession hdone).imp_left ?_
    intro hpending
    rw [hphase] at hpending
    cases hpending
  · cases heq

end Good

end Custody

end OtNode.CommandExecutor
