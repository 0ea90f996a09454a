import OtNode.Lib.Pool

/-! Statuses kept by a task pool: when a terminal status is final.

    A status is read off the shared state. Some effects announce, that is write a status that is not
    terminal, some close, that is write a terminal one, and some start tasks that announce. A
    terminal status is final as long as every step is orderly: when one is written no announcement
    is under way, and from then on no step starts one. -/

namespace OtNode.Pool

variable {σ κ ε ι : Type}

/-- A status kept in the shared state: which effects write it, and which steps start others that
    do. -/
structure Status (σ κ ε ι : Type) where
  terminal : σ → Bool
  announces : κ → ε → Bool
  closes : κ → ε → Bool
  starts : κ → ε → ι → σ → Bool

namespace Status

variable (S : Status σ κ ε ι) (M : Machine σ κ ε ι)

/-- Nothing of a list of effects announces. -/
def quiet (k : κ) (es : List ε) : Bool := es.all fun e => !S.announces k e

/-- Nothing of a list of tasks announces. -/
def quietTasks (ts : List (Task κ ε)) : Bool := ts.all fun t => S.quiet t.owner t.script

/-- An effect that announces nothing. -/
def Silent (k : κ) (e : ε) : Prop := S.announces k e = false

/-- An orderly step: a terminal status is written only while no announcement is under way, and no
    announcement is started then or later. -/
def orderly (c : Config σ κ ε) (n : ℕ) (i : ι) : Bool :=
  match c.pool[n]? with
  | some ⟨k, e :: _⟩ =>
    (!S.closes k e || S.quietTasks c.pool) &&
      (!(S.closes k e || S.terminal c.shared) || !S.starts k e i c.shared)
  | _ => true

/-- The effects named are the only ones that write the status, or start such effects. -/
structure Tracks : Prop where
  keeps : ∀ {k e i s o}, M.perform k e i s = some o → S.announces k e = false →
    S.terminal s = true → S.terminal o.shared = true
  closes : ∀ {k e i s o}, M.perform k e i s = some o → S.terminal s = false →
    S.terminal o.shared = true → S.closes k e = true
  starts : ∀ {k e i s o}, M.perform k e i s = some o → S.starts k e i s = false →
    o.Each (fun _ => True) S.Silent k

/-- Nothing under way announces. -/
def Quiet (W : Multiset (κ × ε)) : Prop := ∀ w ∈ W, S.announces w.1 w.2 = false

/-- The invariant: once the status is terminal, nothing under way announces. -/
def Final (s : σ) (W : Multiset (κ × ε)) : Prop := S.terminal s = true → S.Quiet W

variable {S} {M}

theorem quiet_iff {k : κ} {es : List ε} :
    S.quiet k es = true ↔ S.Quiet (es.map (Prod.mk k) : List (κ × ε)) := by
  simp [quiet, Quiet]

theorem Quiet.add {W₁ W₂ : Multiset (κ × ε)} (h₁ : S.Quiet W₁) (h₂ : S.Quiet W₂) :
    S.Quiet (W₁ + W₂) := by
  intro w hw
  rcases Multiset.mem_add.mp hw with hw | hw
  · exact h₁ w hw
  · exact h₂ w hw

theorem Quiet.mono {W₁ W₂ : Multiset (κ × ε)} (h : S.Quiet W₂) (hsub : W₁ ⊆ W₂) : S.Quiet W₁ :=
  fun w hw => h w (hsub hw)

theorem quietTasks_iff {ts : List (Task κ ε)} :
    S.quietTasks ts = true ↔ S.Quiet (workOf ts) := by
  induction ts with
  | nil => simp [quietTasks, Quiet]
  | cons t ts ih =>
    rw [workOf_cons, quietTasks, List.all_cons, Bool.and_eq_true, quiet_iff, ← quietTasks, ih]
    constructor
    · rintro ⟨ht, hts⟩
      exact ht.add hts
    · intro h
      exact ⟨h.mono (Multiset.subset_of_le (Multiset.le_add_right _ _)),
        h.mono (Multiset.subset_of_le (Multiset.le_add_left _ _))⟩

/-- Where an orderly effect leaves the status terminal, the work it was part of was quiet and it
    starts no announcement. -/
theorem Tracks.quiet_before (hS : S.Tracks M) {k : κ} {e : ε} {i : ι} {s : σ}
    {o : Outcome σ κ ε} {W : Multiset (κ × ε)} (hfinal : S.Final s W)
    (hclosed : S.closes k e = true → S.Quiet W)
    (hnone : S.closes k e = true ∨ S.terminal s = true → S.starts k e i s = false)
    (hp : M.perform k e i s = some o) (hterminal : S.terminal o.shared = true) :
    S.Quiet W ∧ o.Each (fun _ => True) S.Silent k := by
  cases hs : S.terminal s with
  | true => exact ⟨hfinal hs, hS.starts hp (hnone (Or.inr hs))⟩
  | false =>
    have hcloses : S.closes k e = true := hS.closes hp hs hterminal
    exact ⟨hclosed hcloses, hS.starts hp (hnone (Or.inl hcloses))⟩

theorem quiet_workOf {ts : List (Task κ ε)} (h : Each (fun _ => True) S.Silent ts) :
    S.Quiet (workOf ts) := by
  rintro ⟨k, e⟩ hw
  obtain ⟨t, ht, rfl, he⟩ := mem_workOf hw
  exact (h t ht).2 e he

/-- STEP: an orderly step keeps a terminal status final. -/
theorem Tracks.final_step (hS : S.Tracks M) {c c' : Config σ κ ε} {n : ℕ} {i : ι}
    (hfinal : S.Final c.shared c.work) (hok : S.orderly c n i = true)
    (hf : M.fire c n i = some c') : S.Final c'.shared c'.work := by
  refine M.work_step (J := S.Final)
    (G := fun s k e _ W => (S.closes k e = true → S.Quiet W) ∧
      (S.closes k e = true ∨ S.terminal s = true → S.starts k e i s = false))
    ?_ ?_ hfinal ?_ hf
  · rintro s k e es s' todo spawned rest hJ ⟨hclosed, hnone⟩ hp hterminal
    obtain ⟨hquiet, hstarts⟩ := hS.quiet_before hJ hclosed hnone hp hterminal
    obtain ⟨htodo, hspawned⟩ := hstarts
    have hrest : S.Quiet rest := hquiet.mono (Multiset.subset_cons _ _)
    have hput : S.Quiet (todo.map (Prod.mk k) : List (κ × ε)) := by
      simpa [Quiet, Silent] using htodo
    exact hput.add (hrest.add (quiet_workOf hspawned))
  · rintro s k e es s' spawned rest hJ ⟨hclosed, hnone⟩ hp hterminal
    obtain ⟨hquiet, hstarts⟩ := hS.quiet_before hJ hclosed hnone hp hterminal
    have hrest : S.Quiet rest := hquiet.mono fun w hw =>
      Multiset.mem_cons_of_mem (Multiset.mem_add.mpr (Or.inr hw))
    exact hrest.add (quiet_workOf hstarts)
  · intro k e es hget
    simp only [orderly, hget, Bool.and_eq_true, Bool.or_eq_true, Bool.not_eq_true',
      Bool.or_eq_false_iff] at hok
    obtain ⟨hclosed, hnone⟩ := hok
    constructor
    · intro hcloses
      exact quietTasks_iff.mp (hclosed.resolve_left (by simp [hcloses]))
    · rintro (h | h) <;> exact hnone.resolve_left (by simp [h])

/-- STEP: a final status survives any step. -/
theorem Tracks.terminal_step (hS : S.Tracks M) {c c' : Config σ κ ε} {n : ℕ} {i : ι}
    (hfinal : S.Final c.shared c.work) (hterminal : S.terminal c.shared = true)
    (hf : M.fire c n i = some c') : S.terminal c'.shared = true := by
  obtain ⟨k, e, es, hget, hcase⟩ := M.fire_cases hf
  have hsilent : S.announces k e = false := hfinal hterminal (k, e) (mem_work hget)
  rcases hcase with ⟨s, todo, spawned, hp, rfl⟩ | ⟨s, spawned, hp, rfl⟩
  · exact hS.keeps hp hsilent hterminal
  · exact hS.keeps hp hsilent hterminal

/-- RUN: in an orderly run from a status that is not terminal, a terminal status stays terminal. -/
theorem Tracks.stable (hS : S.Tracks M) {c₀ c c' : Config σ κ ε}
    (h₀ : S.terminal c₀.shared = false)
    (h : M.Steps (fun c n i => S.orderly c n i = true) c₀ c)
    (h' : M.Steps (fun c n i => S.orderly c n i = true) c c')
    (hterminal : S.terminal c.shared = true) : S.terminal c'.shared = true := by
  have hfinal : S.Final c.shared c.work :=
    h.invariant (I := fun c => S.Final c.shared c.work)
      (fun _ _ _ _ hI hok hf => hS.final_step hI hok hf) fun ht => by simp [h₀] at ht
  have hboth : S.Final c'.shared c'.work ∧ S.terminal c'.shared = true :=
    h'.invariant (I := fun c => S.Final c.shared c.work ∧ S.terminal c.shared = true)
      (fun _ _ _ _ hI hok hf =>
        ⟨hS.final_step hI.1 hok hf, hS.terminal_step hI.1 hI.2 hf⟩) ⟨hfinal, hterminal⟩
  exact hboth.2

end Status

end OtNode.Pool
