import Mathlib.Data.Multiset.Count
import Mathlib.Data.Multiset.Bind
import Mathlib.Tactic.Abel

/-! Cooperative task pools: a single-threaded event loop seen as a machine.

    A task is an owner with the list of effects it has still to perform; between two effects of
    one task any other task may run. Performing an effect may change the shared state, put further
    effects in front of the rest of the task, and start new tasks; or it raises, which drops the
    rest of the task and starts what handles the error. The order of tasks in the pool says
    nothing: a schedule picks any of them, so invariants speak of the pool as a multiset. -/

namespace OtNode.Pool

/-- A task: who it runs for and the effects it has still to perform, in order. -/
structure Task (κ ε : Type) where
  owner : κ
  script : List ε
  deriving DecidableEq, Repr

/-- What performing one effect leads to: effects put in front of the rest of the task and tasks
    started, or an error that drops the rest of the task. -/
inductive Outcome (σ κ ε : Type) where
  | next (shared : σ) (todo : List ε) (spawned : List (Task κ ε))
  | raise (shared : σ) (spawned : List (Task κ ε))

/-- The shared state after an effect. -/
def Outcome.shared {σ κ ε : Type} : Outcome σ κ ε → σ
  | .next s _ _ => s
  | .raise s _ => s

/-- The same task under another owner. -/
def Task.mapOwner {κ κ' ε : Type} (f : κ → κ') (t : Task κ ε) : Task κ' ε := ⟨f t.owner, t.script⟩

/-- The same outcome under other owners. -/
def Outcome.mapOwner {σ κ κ' ε : Type} (f : κ → κ') : Outcome σ κ ε → Outcome σ κ' ε
  | .next s todo spawned => .next s todo (spawned.map (Task.mapOwner f))
  | .raise s spawned => .raise s (spawned.map (Task.mapOwner f))

@[simp] theorem Outcome.mapOwner_shared {σ κ κ' ε : Type} (f : κ → κ') (o : Outcome σ κ ε) :
    (o.mapOwner f).shared = o.shared := by
  cases o <;> rfl

/-- A machine: how an owner performs an effect under a choice of the environment. `none` means
    that the choice does not apply to the effect. -/
structure Machine (σ κ ε ι : Type) where
  perform : κ → ε → ι → σ → Option (Outcome σ κ ε)

/-- The shared state and the tasks under way. -/
structure Config (σ κ ε : Type) where
  shared : σ
  pool : List (Task κ ε)
  deriving DecidableEq, Repr

variable {σ κ ε ι : Type}

/-- The task left of an owner that has `es` still to perform: none once nothing is left. -/
def resume (k : κ) : List ε → List (Task κ ε)
  | [] => []
  | e :: es => [⟨k, e :: es⟩]

/-- One step: task number `n` performs its first effect under choice `i`. -/
def Machine.fire (M : Machine σ κ ε ι) (c : Config σ κ ε) (n : ℕ) (i : ι) :
    Option (Config σ κ ε) :=
  match c.pool[n]? with
  | some ⟨k, e :: es⟩ =>
    match M.perform k e i c.shared with
    | some (.next s todo spawned) =>
      some ⟨s, resume k (todo ++ es) ++ (c.pool.eraseIdx n ++ spawned)⟩
    | some (.raise s spawned) => some ⟨s, c.pool.eraseIdx n ++ spawned⟩
    | none => none
  | _ => none

/-- A schedule says which task moves at each step, and under which choice. It runs as far as every
    step is allowed and applies. -/
def Machine.run (M : Machine σ κ ε ι) (ok : Config σ κ ε → ℕ → ι → Bool) (c : Config σ κ ε) :
    List (ℕ × ι) → Option (Config σ κ ε)
  | [] => some c
  | a :: as => if ok c a.1 a.2 then (M.fire c a.1 a.2).bind (M.run ok · as) else none

/-- `c'` is reached from `c` by steps that `ok` allows, each seen with the state before it. -/
inductive Machine.Steps (M : Machine σ κ ε ι) (ok : Config σ κ ε → ℕ → ι → Prop) :
    Config σ κ ε → Config σ κ ε → Prop where
  | refl (c) : M.Steps ok c c
  | tail {c c' c'' n i} : M.Steps ok c c' → ok c' n i → M.fire c' n i = some c'' →
      M.Steps ok c c''

/-- The work of a task: every effect still to perform, with the owner of its task. -/
def Task.work (t : Task κ ε) : Multiset (κ × ε) := (t.script.map (Prod.mk t.owner) : List (κ × ε))

/-- The work of a list of tasks. -/
def workOf (ts : List (Task κ ε)) : Multiset (κ × ε) := (ts : Multiset (Task κ ε)).bind Task.work

/-- The work under way: the pool as a bag. -/
def Config.work (c : Config σ κ ε) : Multiset (κ × ε) := workOf c.pool

@[simp] theorem workOf_nil : workOf ([] : List (Task κ ε)) = 0 := rfl

@[simp] theorem workOf_cons (t : Task κ ε) (ts : List (Task κ ε)) :
    workOf (t :: ts) = (t.script.map (Prod.mk t.owner) : List (κ × ε)) + workOf ts := by
  simp [workOf, Task.work, ← Multiset.cons_coe]

@[simp] theorem workOf_append (ts us : List (Task κ ε)) :
    workOf (ts ++ us) = workOf ts + workOf us := by
  simp [workOf, ← Multiset.coe_add]

@[simp] theorem workOf_resume (k : κ) (es : List ε) :
    workOf (resume k es) = (es.map (Prod.mk k) : List (κ × ε)) := by
  cases es with
  | nil => rfl
  | cons e es => simp [resume]

/-- Who the work of a list of tasks runs for. -/
theorem mem_workOf {ts : List (Task κ ε)} {w : κ × ε} (h : w ∈ workOf ts) :
    ∃ t ∈ ts, w.1 = t.owner ∧ w.2 ∈ t.script := by
  simp only [workOf, Task.work, Multiset.mem_bind, Multiset.mem_coe, List.mem_map] at h
  obtain ⟨t, ht, e, he, rfl⟩ := h
  exact ⟨t, ht, rfl, he⟩

/-- The work of a pool from which task number `n` is taken out. -/
theorem workOf_eraseIdx {ts : List (Task κ ε)} {n : ℕ} {t : Task κ ε} (h : ts[n]? = some t) :
    workOf ts = (t.script.map (Prod.mk t.owner) : List (κ × ε)) + workOf (ts.eraseIdx n) := by
  obtain ⟨hn, rfl⟩ := List.getElem?_eq_some_iff.mp h
  have hperm : (ts : Multiset (Task κ ε)) = ts[n] ::ₘ (ts.eraseIdx n : List (Task κ ε)) := by
    rw [Multiset.cons_coe, Multiset.coe_eq_coe]
    exact (List.getElem_cons_eraseIdx_perm hn).symm
  rw [workOf, hperm, Multiset.cons_bind, ← workOf, Task.work]

/-- The first effect of a task in the pool is work under way. -/
theorem mem_work {c : Config σ κ ε} {n : ℕ} {k : κ} {e : ε} {es : List ε}
    (h : c.pool[n]? = some ⟨k, e :: es⟩) : (k, e) ∈ c.work := by
  rw [Config.work, workOf_eraseIdx h]
  simp

/-- What one step does: some task's first effect is performed, and either its continuation, or
    what handles the error, replaces it. -/
theorem Machine.fire_cases {M : Machine σ κ ε ι} {c c' : Config σ κ ε} {n : ℕ} {i : ι}
    (h : M.fire c n i = some c') :
    ∃ k e es, c.pool[n]? = some ⟨k, e :: es⟩ ∧
      ((∃ s todo spawned, M.perform k e i c.shared = some (.next s todo spawned) ∧
          c' = ⟨s, resume k (todo ++ es) ++ (c.pool.eraseIdx n ++ spawned)⟩) ∨
        ∃ s spawned, M.perform k e i c.shared = some (.raise s spawned) ∧
          c' = ⟨s, c.pool.eraseIdx n ++ spawned⟩) := by
  rw [Machine.fire] at h
  split at h
  · rename_i k e es hget
    refine ⟨k, e, es, hget, ?_⟩
    split at h
    · rename_i s todo spawned hp
      exact Or.inl ⟨s, todo, spawned, hp, (Option.some.inj h).symm⟩
    · rename_i s spawned hp
      exact Or.inr ⟨s, spawned, hp, (Option.some.inj h).symm⟩
    · cases h
  · cases h

/-- RUN (state and tasks): a property that every allowed step keeps holds in every configuration
    reached. -/
theorem Machine.Steps.invariant {M : Machine σ κ ε ι} {ok : Config σ κ ε → ℕ → ι → Prop}
    {I : Config σ κ ε → Prop} (hstep : ∀ c n i c', I c → ok c n i → M.fire c n i = some c' → I c')
    {c c' : Config σ κ ε} (h : M.Steps ok c c') (h0 : I c) : I c' := by
  induction h with
  | refl => exact h0
  | tail _ hok hf ih => exact hstep _ _ _ _ ih hok hf

/-- Every task of a list is as `Q` says of its owner and `R` of the effects it has to perform. -/
def Each (Q : κ → Prop) (R : κ → ε → Prop) (ts : List (Task κ ε)) : Prop :=
  ∀ t ∈ ts, Q t.owner ∧ ∀ e ∈ t.script, R t.owner e

/-- What an effect of `k` puts under way is as `Q` and `R` say. -/
def Outcome.Each (Q : κ → Prop) (R : κ → ε → Prop) (k : κ) : Outcome σ κ ε → Prop
  | .next _ todo spawned => (∀ e ∈ todo, R k e) ∧ Pool.Each Q R spawned
  | .raise _ spawned => Pool.Each Q R spawned

theorem Each.append {Q : κ → Prop} {R : κ → ε → Prop} {ts us : List (Task κ ε)}
    (hts : Each Q R ts) (hus : Each Q R us) : Each Q R (ts ++ us) := by
  intro t ht
  rcases List.mem_append.mp ht with ht | ht
  · exact hts t ht
  · exact hus t ht

theorem Each.resume {Q : κ → Prop} {R : κ → ε → Prop} {k : κ} {es : List ε} (hk : Q k)
    (hes : ∀ e ∈ es, R k e) : Each Q R (resume k es) := by
  cases es with
  | nil => simp [Pool.resume, Each]
  | cons e es => simpa [Pool.resume, Each, hk] using hes

theorem Outcome.Each.mapOwner {κ' : Type} {Q : κ' → Prop} {R : κ' → ε → Prop} {f : κ → κ'} {k : κ}
    {o : Outcome σ κ ε} (h : o.Each (fun k => Q (f k)) (fun k e => R (f k) e) k) :
    (o.mapOwner f).Each Q R (f k) := by
  have hmap : ∀ {ts : List (Task κ ε)}, Pool.Each (fun k => Q (f k)) (fun k e => R (f k) e) ts →
      Pool.Each Q R (ts.map (Task.mapOwner f)) := by
    intro ts hts t ht
    obtain ⟨t', ht', rfl⟩ := List.mem_map.mp ht
    exact hts t' ht'
  cases o with
  | next s todo spawned => exact ⟨h.1, hmap h.2⟩
  | raise s spawned => exact hmap h

/-- RUN (each task): what every effect keeps of the shared state, and makes true of each task it puts
    under way, holds in every configuration reached. -/
theorem Machine.Steps.each {M : Machine σ κ ε ι} {ok : Config σ κ ε → ℕ → ι → Prop}
    {I : σ → Prop} {Q : κ → Prop} {R : κ → ε → Prop}
    (hperform : ∀ {s k e i o}, I s → Q k → R k e → M.perform k e i s = some o →
      I o.shared ∧ o.Each Q R k)
    {c c' : Config σ κ ε} (h : M.Steps ok c c') (h0 : I c.shared) (hpool : Each Q R c.pool) :
    I c'.shared ∧ Each Q R c'.pool := by
  refine h.invariant (I := fun c => I c.shared ∧ Each Q R c.pool) ?_ ⟨h0, hpool⟩
  rintro c n i c' ⟨hI, hE⟩ - hf
  obtain ⟨k, e, es, hget, hcase⟩ := M.fire_cases hf
  obtain ⟨hk, hscript⟩ := hE _ (List.mem_of_getElem? hget)
  have hrest : Each Q R (c.pool.eraseIdx n) := fun t ht => hE t (List.mem_of_mem_eraseIdx ht)
  rcases hcase with ⟨s, todo, spawned, hp, rfl⟩ | ⟨s, spawned, hp, rfl⟩
  · obtain ⟨hI', htodo, hspawned⟩ := hperform hI hk (hscript e List.mem_cons_self) hp
    refine ⟨hI', (Each.resume hk fun e he => ?_).append (hrest.append hspawned)⟩
    rcases List.mem_append.mp he with he | he
    · exact htodo e he
    · exact hscript e (List.mem_cons_of_mem _ he)
  · obtain ⟨hI', hspawned⟩ := hperform hI hk (hscript e List.mem_cons_self) hp
    exact ⟨hI', hrest.append hspawned⟩

/-- The tasks of a configuration, as a bag. -/
def Config.tasks (c : Config σ κ ε) : Multiset (Task κ ε) := c.pool

/-- STEP (bag of tasks): a property of the shared state and the bag of tasks is kept by a step as
    soon as performing the first effect of one task of the bag keeps it, and so does raising out of
    it. `G` is what is known of the step from the state before it. -/
theorem Machine.task_step {M : Machine σ κ ε ι} {J : σ → Multiset (Task κ ε) → Prop} {i : ι}
    {G : σ → κ → ε → List ε → Multiset (Task κ ε) → Prop}
    (hnext : ∀ s k e es s' todo spawned rest, J s (⟨k, e :: es⟩ ::ₘ rest) →
      G s k e es (⟨k, e :: es⟩ ::ₘ rest) → M.perform k e i s = some (.next s' todo spawned) →
      J s' ((resume k (todo ++ es) : Multiset (Task κ ε)) + (rest + (spawned : Multiset _))))
    (hraise : ∀ s k e es s' spawned rest, J s (⟨k, e :: es⟩ ::ₘ rest) →
      G s k e es (⟨k, e :: es⟩ ::ₘ rest) → M.perform k e i s = some (.raise s' spawned) →
      J s' (rest + (spawned : Multiset _)))
    {c c' : Config σ κ ε} {n : ℕ} (hJ : J c.shared c.tasks)
    (hG : ∀ k e es, c.pool[n]? = some ⟨k, e :: es⟩ → G c.shared k e es c.tasks)
    (hf : M.fire c n i = some c') : J c'.shared c'.tasks := by
  obtain ⟨k, e, es, hget, hcase⟩ := M.fire_cases hf
  have htasks : c.tasks = ⟨k, e :: es⟩ ::ₘ (c.pool.eraseIdx n : Multiset (Task κ ε)) := by
    obtain ⟨hn, heq⟩ := List.getElem?_eq_some_iff.mp hget
    rw [Config.tasks, Multiset.cons_coe, Multiset.coe_eq_coe, ← heq]
    exact (List.getElem_cons_eraseIdx_perm hn).symm
  have hguard := hG _ _ _ hget
  rw [htasks] at hJ hguard
  rcases hcase with ⟨s, todo, spawned, hp, rfl⟩ | ⟨s, spawned, hp, rfl⟩
  · rw [Config.tasks, ← Multiset.coe_add, ← Multiset.coe_add]
    exact hnext _ _ _ _ _ _ _ _ hJ hguard hp
  · rw [Config.tasks, ← Multiset.coe_add]
    exact hraise _ _ _ _ _ _ _ hJ hguard hp

/-- STEP (bag of work): a property of the shared state and the bag of work is kept by a step as
    soon as performing one effect of the bag keeps it, and so does raising out of a task. `G` is
    what is known of the step from the state before it. -/
theorem Machine.work_step {M : Machine σ κ ε ι} {J : σ → Multiset (κ × ε) → Prop} {i : ι}
    {G : σ → κ → ε → List ε → Multiset (κ × ε) → Prop}
    (hnext : ∀ s k e es s' todo spawned rest, J s ((k, e) ::ₘ rest) →
      G s k e es ((k, e) ::ₘ rest) → M.perform k e i s = some (.next s' todo spawned) →
      J s' ((todo.map (Prod.mk k) : List (κ × ε)) + (rest + workOf spawned)))
    (hraise : ∀ s k e (es : List ε) s' spawned rest,
      J s ((k, e) ::ₘ ((es.map (Prod.mk k) : List (κ × ε)) + rest)) →
      G s k e es ((k, e) ::ₘ ((es.map (Prod.mk k) : List (κ × ε)) + rest)) →
      M.perform k e i s = some (.raise s' spawned) → J s' (rest + workOf spawned))
    {c c' : Config σ κ ε} {n : ℕ} (hJ : J c.shared c.work)
    (hG : ∀ k e es, c.pool[n]? = some ⟨k, e :: es⟩ → G c.shared k e es c.work)
    (hf : M.fire c n i = some c') : J c'.shared c'.work := by
  refine M.task_step (J := fun s T => J s (T.bind Task.work))
    (G := fun s k e es T => G s k e es (T.bind Task.work)) ?_ ?_ hJ hG hf
  · intro s k e es s' todo spawned rest hJ hG hp
    rw [Multiset.cons_bind, Task.work, List.map_cons, ← Multiset.cons_coe, Multiset.cons_add]
      at hJ hG
    have hJ' := hnext _ _ _ _ _ _ _ _ hJ hG hp
    have hresume : (resume k (todo ++ es) : Multiset (Task κ ε)).bind Task.work =
        ((todo.map (Prod.mk k) : List (κ × ε)) : Multiset (κ × ε)) +
          (es.map (Prod.mk k) : List (κ × ε)) := by
      rw [Multiset.coe_add, ← List.map_append]
      exact workOf_resume k (todo ++ es)
    rw [Multiset.add_bind, Multiset.add_bind, hresume, Multiset.add_assoc, ← Multiset.add_assoc
      ((es.map (Prod.mk k) : List (κ × ε)) : Multiset (κ × ε))]
    exact hJ'
  · intro s k e es s' spawned rest hJ hG hp
    rw [Multiset.cons_bind, Task.work, List.map_cons, ← Multiset.cons_coe, Multiset.cons_add]
      at hJ hG
    rw [Multiset.add_bind]
    exact hraise _ _ _ _ _ _ _ hJ hG hp

theorem Machine.Steps.trans {M : Machine σ κ ε ι} {ok : Config σ κ ε → ℕ → ι → Prop}
    {a b c : Config σ κ ε} (h₁ : M.Steps ok a b) (h₂ : M.Steps ok b c) : M.Steps ok a c := by
  induction h₂ with
  | refl => exact h₁
  | tail _ hok hf ih => exact ih.tail hok hf

theorem Machine.Steps.mono {M : Machine σ κ ε ι} {ok ok' : Config σ κ ε → ℕ → ι → Prop}
    (himp : ∀ c n i, ok c n i → ok' c n i) {a b : Config σ κ ε} (h : M.Steps ok a b) :
    M.Steps ok' a b := by
  induction h with
  | refl => exact .refl _
  | tail _ hok hf ih => exact ih.tail (himp _ _ _ hok) hf

/-- A step of the only task of a pool. -/
theorem Machine.Steps.alone {M : Machine σ κ ε ι} {s s' : σ} {k : κ} {e : ε} {es todo : List ε}
    {spawned : List (Task κ ε)} (i : ι) (hp : M.perform k e i s = some (.next s' todo spawned)) :
    M.Steps (fun _ _ _ => True) ⟨s, [⟨k, e :: es⟩]⟩ ⟨s', resume k (todo ++ es) ++ spawned⟩ := by
  refine (Machine.Steps.refl _).tail (n := 0) (i := i) trivial ?_
  simp [Machine.fire, hp]

/-- A schedule that runs to its end is a run. -/
theorem Machine.Steps.of_run {M : Machine σ κ ε ι} {ok : Config σ κ ε → ℕ → ι → Bool} :
    ∀ {as : List (ℕ × ι)} {c c' : Config σ κ ε}, M.run ok c as = some c' →
      M.Steps (fun c n i => ok c n i = true) c c'
  | [], c, c', h => by
    rw [Machine.run, Option.some.injEq] at h
    exact h ▸ .refl c
  | a :: as, c, c', h => by
    rw [Machine.run] at h
    split at h
    · next hok =>
      obtain ⟨d, hd, hrun⟩ := Option.bind_eq_some_iff.mp h
      have hfirst : M.Steps (fun c n i => ok c n i = true) c d :=
        (Machine.Steps.refl c).tail hok hd
      exact hfirst.trans (of_run hrun)
    · cases h

/-- A schedule that runs to its end and leads where it should. -/
theorem Machine.Steps.of_schedule {M : Machine σ κ ε ι} {ok : Config σ κ ε → ℕ → ι → Bool}
    {c : Config σ κ ε} {p : Config σ κ ε → Prop} [DecidablePred p] (as : List (ℕ × ι))
    (h : (M.run ok c as).any (p ·) = true) :
    ∃ c', M.Steps (fun c n i => ok c n i = true) c c' ∧ p c' := by
  obtain ⟨c', hrun, hp⟩ := (Option.any_eq_true _ _).mp h
  exact ⟨c', of_run hrun, of_decide_eq_true hp⟩

/-- A schedule that runs to its end, and another one from there. -/
theorem Machine.Steps.of_schedules {M : Machine σ κ ε ι} {ok : Config σ κ ε → ℕ → ι → Bool}
    {c : Config σ κ ε} {p q : Config σ κ ε → Prop} [DecidablePred p] [DecidablePred q]
    (as bs : List (ℕ × ι))
    (h : (M.run ok c as).any (fun d => decide (p d) && (M.run ok d bs).any (q ·)) = true) :
    ∃ d e, M.Steps (fun c n i => ok c n i = true) c d ∧
      M.Steps (fun c n i => ok c n i = true) d e ∧ p d ∧ q e := by
  obtain ⟨d, hrun, hd⟩ := (Option.any_eq_true _ _).mp h
  obtain ⟨hp, hq⟩ := Bool.and_eq_true_iff.mp hd
  obtain ⟨e, hsteps, hq⟩ := of_schedule bs hq
  exact ⟨d, e, of_run hrun, hsteps, of_decide_eq_true hp, hq⟩

end OtNode.Pool
