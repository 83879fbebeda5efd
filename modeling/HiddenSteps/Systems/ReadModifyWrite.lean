import Mathlib.Data.List.Perm.Basic
import Mathlib.Data.List.Basic
import Mathlib.Tactic.Common

/-!
# ReadModifyWrite — tasks that each read a shared value once and write it back once

Each task reads the shared value and later writes an update of what it read, so a write loses
whatever was written since its read.  The lineage of a run is the tasks whose updates the shared
value is made of.  When every task sets at most one field of the value, the lineage tells whether
some sequential order of the tasks has the same outcome.
-/

namespace HiddenSteps
namespace Systems
namespace ReadModifyWrite

variable {τ ω σ σ' : Type}

/-- Where a task stands. -/
inductive Phase (σ : Type) where
  | waiting
  | holding (read : σ)
  | done
  deriving DecidableEq

/-- The shared value and the phases of the tasks. -/
structure State (σ : Type) where
  shared : σ
  phases : List (Phase σ)
  deriving DecidableEq

/-- No task has begun. -/
def start (init : σ) (tasks : List τ) : State σ :=
  { shared := init, phases := tasks.map fun _ => .waiting }

/-- The next step of one task, with what its write takes from outside. -/
def step (update : τ → ω → σ → σ) (tasks : List τ) (s : State σ) (a : Nat × ω) :
    Option (State σ) :=
  match tasks[a.1]?, s.phases[a.1]? with
  | some _, some .waiting => some { s with phases := s.phases.set a.1 (.holding s.shared) }
  -- the update is made to what was read, not to what is shared by now
  | some task, some (.holding read) =>
      some { shared := update task a.2 read, phases := s.phases.set a.1 .done }
  | _, _ => none

/-- An interleaving, as the list of the tasks that step. -/
def run (update : τ → ω → σ → σ) (tasks : List τ) (s : State σ) (schedule : List (Nat × ω)) :
    Option (State σ) :=
  schedule.foldlM (step update tasks) s

/-- What every step preserves, a run preserves. -/
theorem run_invariant {update : τ → ω → σ → σ} {tasks : List τ} {P : State σ → Prop}
    (hpres : ∀ s a s', P s → step update tasks s a = some s' → P s') {s s' : State σ}
    {schedule : List (Nat × ω)} (h : P s) (hrun : run update tasks s schedule = some s') :
    P s' := by
  induction schedule generalizing s with
  | nil =>
      cases hrun
      exact h
  | cons a schedule ih =>
      simp only [run, List.foldlM_cons, bind, Option.bind_eq_some_iff] at hrun
      rcases hrun with ⟨s₁, hstep, hrun⟩
      exact ih (hpres s a s₁ h hstep) hrun

/-! ## Lineages -/

def Phase.map (h : σ → σ') : Phase σ → Phase σ'
  | waiting => .waiting
  | holding read => .holding (h read)
  | done => .done

def State.map (h : σ → σ') (s : State σ) : State σ' :=
  { shared := h s.shared, phases := s.phases.map (Phase.map h) }

theorem step_map {update : τ → ω → σ → σ} {update' : τ → ω → σ' → σ'} {h : σ → σ'}
    (hcomm : ∀ t w s, h (update t w s) = update' t w (h s)) (tasks : List τ) (s : State σ)
    (a : Nat × ω) :
    step update' tasks (s.map h) a = (step update tasks s a).map (State.map h) := by
  simp only [step, State.map, List.getElem?_map]
  cases htask : tasks[a.1]? with
  | none => simp
  | some task =>
      cases hphase : s.phases[a.1]? with
      | none => simp
      | some phase => cases phase <;> simp [Phase.map, State.map, List.map_set, hcomm]

/-- A homomorphism of the updates carries runs to runs. -/
theorem run_map {update : τ → ω → σ → σ} {update' : τ → ω → σ' → σ'} {h : σ → σ'}
    (hcomm : ∀ t w s, h (update t w s) = update' t w (h s)) (tasks : List τ) (s : State σ)
    (schedule : List (Nat × ω)) :
    run update' tasks (s.map h) schedule = (run update tasks s schedule).map (State.map h) := by
  induction schedule generalizing s with
  | nil => rfl
  | cons a schedule ih =>
      simp only [run, List.foldlM_cons] at ih ⊢
      rw [step_map hcomm]
      cases step update tasks s a with
      | none => rfl
      | some s' => exact ih s'

/-- The run in which the shared value is the list of the updates it is made of. -/
def lineageRun (tasks : List τ) (schedule : List (Nat × ω)) : Option (State (List (τ × ω))) :=
  run (fun t w l => l ++ [(t, w)]) tasks (start [] tasks) schedule

/-- The updates that the shared value is made of, first to last. -/
def lineage (tasks : List τ) (schedule : List (Nat × ω)) : List (τ × ω) :=
  match lineageRun tasks schedule with
  | some s => s.shared
  | none => []

/-- Apply updates one after the other. -/
def replay (update : τ → ω → σ → σ) (init : σ) (updates : List (τ × ω)) : σ :=
  updates.foldl (fun s u => update u.1 u.2 s) init

/-- The shared value is what its lineage makes of the initial one. -/
theorem shared_eq_replay {update : τ → ω → σ → σ} {tasks : List τ} {init : σ}
    {schedule : List (Nat × ω)} {final : State σ}
    (hrun : run update tasks (start init tasks) schedule = some final) :
    final.shared = replay update init (lineage tasks schedule) := by
  have hcomm : ∀ (t : τ) (w : ω) (l : List (τ × ω)),
      replay update init (l ++ [(t, w)]) = update t w (replay update init l) := by
    intro t w l
    simp [replay]
  -- replaying carries the run of lineages to the run of values
  have hmap := run_map hcomm tasks (start [] tasks) schedule
  have hstart : (start [] tasks).map (replay update init) = start init tasks := by
    simp [start, State.map, replay, Phase.map]
  rw [hstart, hrun] at hmap
  rcases Option.map_eq_some_iff.1 hmap.symm with ⟨s, hs, rfl⟩
  have hlineage : lineage tasks schedule = s.shared := by
    rw [lineage, show lineageRun tasks schedule = some s from hs]
  rw [hlineage]
  rfl

/-- A lineage is made of the tasks. -/
def State.MadeOf (tasks : List τ) (s : State (List (τ × ω))) : Prop :=
  (∀ u ∈ s.shared, u.1 ∈ tasks) ∧ ∀ read, .holding read ∈ s.phases → ∀ u ∈ read, u.1 ∈ tasks

theorem madeOf_step {tasks : List τ} {s s' : State (List (τ × ω))} {a : Nat × ω}
    (h : s.MadeOf tasks) (hstep : step (fun t w l => l ++ [(t, w)]) tasks s a = some s') :
    s'.MadeOf tasks := by
  simp only [step] at hstep
  split at hstep
  · -- a read holds the lineage of the moment
    cases hstep
    refine ⟨h.1, ?_⟩
    intro read hread
    rcases List.mem_or_eq_of_mem_set hread with hread | hread
    · exact h.2 read hread
    · cases hread
      exact h.1
  · -- a write adds its own task to the lineage it holds
    rename_i task read htask hphase
    cases hstep
    have hread := h.2 read (List.mem_of_getElem? hphase)
    constructor
    · intro u hu
      rcases List.mem_append.1 hu with hu | hu
      · exact hread u hu
      · rw [List.mem_singleton.1 hu]
        exact List.mem_of_getElem? htask
    · intro read' hread'
      rcases List.mem_or_eq_of_mem_set hread' with hread' | hread'
      · exact h.2 read' hread'
      · cases hread'
  · cases hstep

theorem mem_tasks_of_mem_lineage {tasks : List τ} {schedule : List (Nat × ω)} {u : τ × ω}
    (hu : u ∈ lineage tasks schedule) : u.1 ∈ tasks := by
  unfold lineage at hu
  split at hu
  · rename_i s hrun
    have hmade : s.MadeOf tasks := by
      refine run_invariant (P := State.MadeOf tasks) (fun _ _ _ => madeOf_step) ?_ hrun
      refine ⟨by simp [start], ?_⟩
      intro read hread
      rcases List.mem_map.1 hread with ⟨_, _, hphase⟩
      cases hphase
    exact hmade.1 u hu
  · cases hu

/-! ## Fields -/

section Fields

variable {φ : Type} {V : φ → Type}

/-- What is left of a field's value after the updates of tasks, each with the value it sets. -/
def fieldAfter (value : τ → (f : φ) → Option (V f)) (f : φ) (tasks : List τ) (v : V f) : V f :=
  tasks.foldl (fun v t => (value t f).getD v) v

variable {value : τ → (f : φ) → Option (V f)} {f : φ}

theorem fieldAfter_append (tasks tasks' : List τ) (v : V f) :
    fieldAfter value f (tasks ++ tasks') v =
      fieldAfter value f tasks' (fieldAfter value f tasks v) := by
  simp [fieldAfter]

theorem fieldAfter_of_none {tasks : List τ} (h : ∀ t ∈ tasks, value t f = none) (v : V f) :
    fieldAfter value f tasks v = v := by
  induction tasks generalizing v with
  | nil => rfl
  | cons t tasks ih =>
      show fieldAfter value f tasks ((value t f).getD v) = v
      rw [h t (by simp)]
      exact ih (fun t' ht' => h t' (by simp [ht'])) v

/-- A field that some task sets has the value of one that does. -/
theorem fieldAfter_of_some {tasks : List τ} (h : ∃ t ∈ tasks, (value t f).isSome) (v : V f) :
    ∃ t ∈ tasks, value t f = some (fieldAfter value f tasks v) := by
  induction tasks generalizing v with
  | nil =>
      rcases h with ⟨t, ht, _⟩
      cases ht
  | cons t tasks ih =>
      show ∃ t' ∈ t :: tasks, value t' f = some (fieldAfter value f tasks ((value t f).getD v))
      by_cases hrest : ∃ t' ∈ tasks, (value t' f).isSome
      · rcases ih hrest ((value t f).getD v) with ⟨t', ht', hvalue⟩
        exact ⟨t', by simp [ht'], hvalue⟩
      · -- no later task sets the field, so this one does
        have hnone : ∀ t' ∈ tasks, value t' f = none := by
          intro t' ht'
          by_contra hne
          exact hrest ⟨t', ht', Option.isSome_iff_ne_none.2 hne⟩
        rw [fieldAfter_of_none hnone]
        rcases h with ⟨t', ht', hsome⟩
        rcases List.mem_cons.1 ht' with rfl | ht'
        · rcases Option.isSome_iff_exists.1 hsome with ⟨w, hw⟩
          exact ⟨t', by simp, by simp [hw]⟩
        · rw [hnone t' ht'] at hsome
          cases hsome

variable {update : τ → ω → σ → σ} {get : (f : φ) → σ → V f}

theorem get_replay (hget : ∀ f t w s, get f (update t w s) = (value t f).getD (get f s))
    (s : σ) (updates : List (τ × ω)) :
    get f (replay update s updates) =
      fieldAfter value f (updates.map Prod.fst) (get f s) := by
  induction updates generalizing s with
  | nil => rfl
  | cons u updates ih =>
      show get f (replay update (update u.1 u.2 s) updates) =
        fieldAfter value f (updates.map Prod.fst) ((value u.1 f).getD (get f s))
      rw [ih, hget]

/-- The outcome is that of the tasks in some order, field by field. -/
def Serial (update : τ → ω → σ → σ) (get : (f : φ) → σ → V f) (tasks : List τ) (init : σ)
    (final : σ) : Prop :=
  ∃ order : List (τ × ω), (order.map Prod.fst).Perm tasks ∧
    ∀ f, get f final = get f (replay update init order)

/-- No field's update is lost: a field that some task sets is set in the lineage, or has had the
value of one of the tasks from the start. -/
def NoFieldLost (value : τ → (f : φ) → Option (V f)) (get : (f : φ) → σ → V f) (tasks : List τ)
    (init : σ) (lineage : List (τ × ω)) : Prop :=
  ∀ f, (∃ t ∈ tasks, (value t f).isSome) →
    (∃ u ∈ lineage, (value u.1 f).isSome) ∨ ∃ t ∈ tasks, value t f = some (get f init)

variable {tasks : List τ} {init : σ} {schedule : List (Nat × ω)} {final : State σ}

theorem get_shared (hget : ∀ f t w s, get f (update t w s) = (value t f).getD (get f s))
    (hrun : run update tasks (start init tasks) schedule = some final) :
    get f final.shared =
      fieldAfter value f ((lineage tasks schedule).map Prod.fst) (get f init) := by
  rw [shared_eq_replay hrun, get_replay hget]

/-- A field that no task of the lineage sets is as it was. -/
theorem get_shared_of_not_set
    (hget : ∀ f t w s, get f (update t w s) = (value t f).getD (get f s))
    (hrun : run update tasks (start init tasks) schedule = some final)
    (hnone : ¬ ∃ u ∈ lineage tasks schedule, (value u.1 f).isSome) :
    get f final.shared = get f init := by
  rw [get_shared hget hrun]
  refine fieldAfter_of_none ?_ _
  intro t ht
  rcases List.mem_map.1 ht with ⟨u, hu, rfl⟩
  by_contra hne
  exact hnone ⟨u, hu, Option.isSome_iff_ne_none.2 hne⟩

/-- A field that a task of the lineage sets has the value of a task. -/
theorem get_shared_of_set (hget : ∀ f t w s, get f (update t w s) = (value t f).getD (get f s))
    (hrun : run update tasks (start init tasks) schedule = some final)
    (hset : ∃ u ∈ lineage tasks schedule, (value u.1 f).isSome) :
    ∃ t ∈ tasks, value t f = some (get f final.shared) := by
  rcases hset with ⟨u, hu, hsome⟩
  obtain ⟨t, ht, hvalue⟩ :=
    fieldAfter_of_some ⟨u.1, List.mem_map_of_mem hu, hsome⟩ (get f init)
  rcases List.mem_map.1 ht with ⟨u', hu', rfl⟩
  exact ⟨u'.1, mem_tasks_of_mem_lineage hu', by rw [hvalue, get_shared hget hrun]⟩

theorem noFieldLost_of_serial
    (hget : ∀ f t w s, get f (update t w s) = (value t f).getD (get f s))
    (hrun : run update tasks (start init tasks) schedule = some final)
    (hserial : Serial update get tasks init final.shared) :
    NoFieldLost value get tasks init (lineage tasks schedule) := by
  rcases hserial with ⟨order, hperm, hfields⟩
  rintro f ⟨t, ht, hsome⟩
  by_cases hset : ∃ u ∈ lineage tasks schedule, (value u.1 f).isSome
  · exact Or.inl hset
  · -- nothing of the lineage sets the field, so the sequential order ends with the initial value
    obtain ⟨t', ht', hvalue⟩ :=
      fieldAfter_of_some ⟨t, hperm.mem_iff.2 ht, hsome⟩ (get f init)
    refine Or.inr ⟨t', hperm.mem_iff.1 ht', ?_⟩
    rw [hvalue, ← get_replay hget, ← hfields, get_shared_of_not_set hget hrun hset]

/-- Order the tasks that agree with the outcome behind all others. -/
theorem serial_of_noFieldLost [Nonempty ω]
    (hget : ∀ f t w s, get f (update t w s) = (value t f).getD (get f s))
    (hone : ∀ t f g, (value t f).isSome → (value t g).isSome → f = g)
    (hrun : run update tasks (start init tasks) schedule = some final)
    (hlost : NoFieldLost value get tasks init (lineage tasks schedule)) :
    Serial update get tasks init final.shared := by
  classical
  rcases ‹Nonempty ω› with ⟨w⟩
  let agrees : τ → Bool := fun t =>
    decide (∀ f, (value t f).isSome → value t f = some (get f final.shared))
  let order := tasks.filter (fun t => !agrees t) ++ tasks.filter agrees
  have hperm : order.Perm tasks :=
    List.perm_append_comm.trans (List.filter_append_perm agrees tasks)
  have hmap : (order.map fun t => (t, w)).map Prod.fst = order := by
    simp [List.map_map, Function.comp_def]
  refine ⟨order.map fun t => (t, w), by rw [hmap]; exact hperm, ?_⟩
  intro f
  rw [get_replay hget, hmap]
  by_cases hsome : ∃ t ∈ tasks, (value t f).isSome
  · -- a task with the final value of the field agrees with the outcome
    have hagree : ∃ t ∈ tasks, value t f = some (get f final.shared) := by
      by_cases hset : ∃ u ∈ lineage tasks schedule, (value u.1 f).isSome
      · exact get_shared_of_set hget hrun hset
      · rw [get_shared_of_not_set hget hrun hset]
        exact (hlost f hsome).resolve_left hset
    rcases hagree with ⟨t, ht, hvalue⟩
    -- it sets no other field, so it agrees with the outcome as a whole
    have hgood : agrees t = true := by
      apply decide_eq_true
      intro g hg
      obtain rfl := hone t f g (by simp [hvalue]) hg
      exact hvalue
    have hset : ∃ t ∈ tasks.filter agrees, (value t f).isSome :=
      ⟨t, List.mem_filter.2 ⟨ht, hgood⟩, by simp [hvalue]⟩
    rw [fieldAfter_append]
    -- the last task that sets the field is one of the agreeing ones
    obtain ⟨t', ht', hvalue'⟩ := fieldAfter_of_some hset
      (fieldAfter value f (tasks.filter fun t => !agrees t) (get f init))
    have hagree' := of_decide_eq_true (List.mem_filter.1 ht').2 f (by simp [hvalue'])
    rw [hvalue', Option.some.injEq] at hagree'
    exact hagree'.symm
  · -- a field that no task sets never changes
    have hnone : ∀ t ∈ tasks, value t f = none := by
      intro t ht
      by_contra hne
      exact hsome ⟨t, ht, Option.isSome_iff_ne_none.2 hne⟩
    rw [fieldAfter_of_none fun t ht => hnone t (hperm.mem_iff.1 ht)]
    apply get_shared_of_not_set hget hrun
    rintro ⟨u, hu, hset⟩
    rw [hnone u.1 (mem_tasks_of_mem_lineage hu)] at hset
    cases hset

/-- The outcome of an interleaving is a sequential one exactly if no field's update is lost. -/
theorem serial_iff_noFieldLost [Nonempty ω]
    (hget : ∀ f t w s, get f (update t w s) = (value t f).getD (get f s))
    (hone : ∀ t f g, (value t f).isSome → (value t g).isSome → f = g)
    (hrun : run update tasks (start init tasks) schedule = some final) :
    Serial update get tasks init final.shared ↔
      NoFieldLost value get tasks init (lineage tasks schedule) :=
  ⟨noFieldLost_of_serial hget hrun, serial_of_noFieldLost hget hone hrun⟩

end Fields

end ReadModifyWrite
end Systems
end HiddenSteps
