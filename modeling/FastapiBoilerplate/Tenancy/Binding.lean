import FastapiBoilerplate.Lib.Run
import FastapiBoilerplate.Lib.Lists
import FastapiBoilerplate.Tenancy.Context

/-!
# Tasks, connections and the tenant each statement runs as

Row-level security compares a row's tenant with the connection's `app.tenant_id`, and
`bind_tenant_on_begin` sets it from the context of the task that begins a transaction. The two
have lifetimes of their own: the setting lasts as long as the transaction, the task's tenant as
long as the innermost `tenant_scope`. The system here is any number of tasks that share a pool of
connections, with every interleaving of the entries and exits of scopes and of begins, statements,
commits and rollbacks.

Inside a transaction the setting is what was in scope at its begin (`Bound`). So a statement runs
as its task's tenant exactly when that is still the tenant in scope (`statements_run_as_task_iff`).
It is, when no task enters or leaves a scope while a transaction of its own is open
(`Quiet.steady`), which is how the application uses scopes: around a whole request.

`set_config` is local to the transaction, so `COMMIT` and `ROLLBACK` put back what the connection
had. That is `NULL` only on a connection that has never been given a tenant: once it has, the
setting is known to the session and reverts to the empty text. The policies read it through
`NULLIF`, for which the two are the same.
-/

namespace Tenancy

open Lib List Option

structure Transaction where
  /-- What `current_setting('app.tenant_id', true)` answers in it; `none` is `NULL`, which it is
      on a connection that has had no tenant yet. -/
  setting : Option Text
  /-- The task that began it. -/
  task : ℕ
  /-- The tenant in that task's scope at the time. Nothing in the program reads it. -/
  began : Option UUID

structure Connection where
  /-- What `current_setting` answers outside a transaction. -/
  setting : Option Text := none
  transaction : Option Transaction := none

/-- `app_current_tenant_id()` of `src/tenancy/sql.py`, as a text. -/
def appCurrentTenantId (setting : Option Text) : Option Text := setting.filter (· ≠ [])

/-- `apply_tenant`, with what `current_tenant_id()` answered. -/
def applyTenant (tenantId : Option UUID) (transaction : Transaction) : Transaction :=
  match tenantId with
  | none => transaction
  | some id => { transaction with setting := some id.str }

/-- A statement as it was executed: by which task, with which tenant in scope, and what the setting
    was on the connection it ran on. -/
structure Statement where
  task : ℕ
  tenantId : Option UUID
  setting : Option Text
deriving DecidableEq

/-- The statement runs as its task's tenant. -/
def Statement.AsTask (e : Statement) : Prop :=
  appCurrentTenantId e.setting = e.tenantId.map UUID.str

instance (e : Statement) : Decidable e.AsTask := inferInstanceAs (Decidable (_ = _))

structure Sys where
  tasks : List Context := []
  pool : List Connection
  executed : List Statement := []

inductive Action
  /-- A task is created by another, or by something that has no context of its own. -/
  | createTask (parent : Option ℕ)
  | enter (t : ℕ) (tenantId : Option UUID)
  | leave (t k : ℕ)
  | begin (t c : ℕ)
  | execute (t c : ℕ)
  | commit (c : ℕ)
  | rollback (c : ℕ)

namespace Sys

def initial (size : ℕ) : Sys := { pool := List.replicate size {} }

def setTask (s : Sys) (t : ℕ) (ctx : Context) : Sys := { s with tasks := s.tasks.set t ctx }

def setConnection (s : Sys) (c : ℕ) (conn : Connection) : Sys :=
  { s with pool := s.pool.set c conn }

/-- The end of the transaction on connection `c`, and the connection's return to the pool. A setting
    that is known reverts to the empty text. -/
def finish (s : Sys) (c : ℕ) : Option Sys :=
  match s.pool[c]? with
  | some ⟨_, some transaction⟩ =>
    some (s.setConnection c ⟨transaction.setting.map fun _ => [], none⟩)
  | _ => none

def step (s : Sys) : Action → Option Sys
  | .createTask none => some { s with tasks := s.tasks ++ [{}] }
  | .createTask (some parent) =>
    s.tasks[parent]?.map fun ctx => { s with tasks := s.tasks ++ [ctx.copy] }
  | .enter t tenantId => s.tasks[t]?.map fun ctx => s.setTask t (ctx.enter tenantId)
  | .leave t k => (s.tasks[t]?.bind (Context.leave k)).map (s.setTask t)
  | .begin t c =>
    match s.tasks[t]?, s.pool[c]? with
    | some ctx, some ⟨setting, none⟩ =>
      -- the listener runs in the context of the task that begins, before its first statement
      some (s.setConnection c
        ⟨setting, some (applyTenant ctx.current ⟨setting, t, ctx.current⟩)⟩)
    | _, _ => none
  | .execute t c =>
    match s.tasks[t]?, s.pool[c]? with
    | some ctx, some ⟨_, some transaction⟩ =>
      some { s with executed := s.executed ++ [⟨t, ctx.current, transaction.setting⟩] }
    | _, _ => none
  | .commit c => s.finish c
  | .rollback c => s.finish c

/-- The transaction open on connection `c`. -/
def openOn (s : Sys) (c : ℕ) : Option Transaction := s.pool[c]?.bind (·.transaction)

end Sys

variable {size c t : ℕ} {s s' : Sys} {a : Action} {conn : Connection}

/-! ## What a step does -/

/-- What a step does to the tasks. -/
inductive Moved (s : Sys) : Action → List Context → Prop
  | create {parent : Option ℕ} (ctx : Context) : Moved s (.createTask parent) (s.tasks ++ [ctx])
  | enter {t : ℕ} {tenantId : Option UUID} (ctx : Context) (task : s.tasks[t]? = some ctx) :
      Moved s (.enter t tenantId) (s.tasks.set t (ctx.enter tenantId))
  | leave {t k : ℕ} (ctx ctx' : Context) (task : s.tasks[t]? = some ctx)
      (left : ctx.leave k = some ctx') : Moved s (.leave t k) (s.tasks.set t ctx')

/-- What a step does to the system: the context of one task, the transaction of one connection,
    or the list of statements. -/
inductive Effect (s : Sys) : Action → Sys → Prop
  | moved {a : Action} {tasks : List Context} (moved : Moved s a tasks) :
      Effect s a { s with tasks }
  | began {t c : ℕ} (ctx : Context) (conn : Connection) (task : s.tasks[t]? = some ctx)
      (idle : s.pool[c]? = some conn) :
      Effect s (.begin t c) (s.setConnection c
        ⟨conn.setting, some (applyTenant ctx.current ⟨conn.setting, t, ctx.current⟩)⟩)
  | executed {t c : ℕ} (ctx : Context) (transaction : Transaction)
      (task : s.tasks[t]? = some ctx) (inside : s.openOn c = some transaction) :
      Effect s (.execute t c)
        { s with executed := s.executed ++ [⟨t, ctx.current, transaction.setting⟩] }
  | ended {a : Action} {c : ℕ} (transaction : Transaction) (ends : a = .commit c ∨ a = .rollback c) :
      Effect s a (s.setConnection c ⟨transaction.setting.map fun _ => [], none⟩)

theorem effect_of_finish (ends : a = .commit c ∨ a = .rollback c) (h : s.finish c = some s') :
    Effect s a s' := by
  unfold Sys.finish at h
  split at h <;> cases h
  exact .ended _ ends

theorem effect_of_step (h : s.step a = some s') : Effect s a s' := by
  cases a with
  | createTask parent =>
    cases parent with
    | none =>
      cases h
      exact .moved (.create {})
    | some =>
      obtain ⟨ctx, -, rfl⟩ := map_eq_some_iff.mp h
      exact .moved (.create ctx.copy)
  | enter =>
    obtain ⟨ctx, htask, rfl⟩ := map_eq_some_iff.mp h
    exact .moved (.enter ctx htask)
  | leave =>
    obtain ⟨ctx', hleave, rfl⟩ := map_eq_some_iff.mp h
    obtain ⟨ctx, htask, hleft⟩ := bind_eq_some_iff.mp hleave
    exact .moved (.leave ctx ctx' htask hleft)
  | begin =>
    simp only [Sys.step] at h
    split at h <;> cases h
    rename_i ctx setting htask hidle
    exact .began ctx ⟨setting, none⟩ htask hidle
  | execute =>
    simp only [Sys.step] at h
    split at h <;> cases h
    rename_i ctx setting transaction htask hconn
    exact .executed ctx transaction htask (by simp [Sys.openOn, hconn])
  | commit => exact effect_of_finish (.inl rfl) h
  | rollback => exact effect_of_finish (.inr rfl) h

/-! ## The setting of an open transaction -/

/-- A connection has no tenant of its own, and its open transaction has the one it began under. -/
structure Connection.Bound (conn : Connection) : Prop where
  clean : appCurrentTenantId conn.setting = none
  bound : ∀ transaction ∈ conn.transaction,
    appCurrentTenantId transaction.setting = transaction.began.map UUID.str

def Bound (s : Sys) : Prop := ∀ conn ∈ s.pool, conn.Bound

theorem bound_initial (size : ℕ) : Bound (Sys.initial size) := by
  intro conn hconn
  obtain ⟨-, rfl⟩ := mem_replicate.mp hconn
  exact ⟨rfl, by simp⟩

theorem setting_applyTenant {tenantId : Option UUID} {setting : Option Text}
    (hclean : appCurrentTenantId setting = none) :
    appCurrentTenantId (applyTenant tenantId ⟨setting, t, tenantId⟩).setting =
      tenantId.map UUID.str := by
  cases tenantId with
  | none => exact hclean
  | some id => exact filter_some_pos (by simp [UUID.str, lit])

@[simp] theorem began_applyTenant (tenantId : Option UUID) (transaction : Transaction) :
    (applyTenant tenantId transaction).began = transaction.began := by
  cases tenantId <;> rfl

@[simp] theorem task_applyTenant (tenantId : Option UUID) (transaction : Transaction) :
    (applyTenant tenantId transaction).task = transaction.task := by
  cases tenantId <;> rfl

theorem Bound.setConnection (h : Bound s) (hconn : conn.Bound) (c : ℕ) :
    Bound (s.setConnection c conn) :=
  forall_mem_set h hconn

theorem Bound.step (h : Bound s) (hstep : s.step a = some s') : Bound s' := by
  cases effect_of_step hstep with
  | moved => exact h
  | began ctx conn _ hidle =>
    have hclean := (h conn (mem_of_getElem? hidle)).clean
    apply h.setConnection
    refine ⟨hclean, ?_⟩
    intro transaction hmem
    obtain rfl := mem_some.mp hmem
    rw [setting_applyTenant hclean, began_applyTenant]
  | executed => exact h
  | ended transaction =>
    apply h.setConnection
    exact ⟨by cases transaction.setting <;> rfl, by simp⟩

theorem Bound.openOn (h : Bound s) {transaction : Transaction}
    (hopen : s.openOn c = some transaction) :
    appCurrentTenantId transaction.setting = transaction.began.map UUID.str := by
  obtain ⟨conn, hconn, htransaction⟩ := bind_eq_some_iff.mp hopen
  exact (h conn (mem_of_getElem? hconn)).bound transaction htransaction

/-! ## Which statements run as their task's tenant -/

/-- A statement is issued with the tenant in scope that was in scope when its transaction began. -/
def Steady (s : Sys) : Action → Prop
  | .execute t c => (s.openOn c).map (·.began) = s.tasks[t]?.map (·.current)
  | _ => True

instance (s : Sys) (a : Action) : Decidable (Steady s a) := by
  cases a <;> unfold Steady <;> infer_instance

/-- Every statement executed so far ran as its task's tenant. -/
def Isolated (s : Sys) : Prop := ∀ e ∈ s.executed, e.AsTask

instance (s : Sys) : Decidable (Isolated s) := inferInstanceAs (Decidable (∀ e ∈ _, _))

/-- The statement that a step executes runs as its task's tenant if and only if the step is
    steady; a step that executes none says nothing. -/
theorem isolated_step_iff (h : Bound s) (hstep : s.step a = some s') :
    Isolated s' ↔ Isolated s ∧ Steady s a := by
  cases effect_of_step hstep with
  | moved hmoved => cases hmoved <;> exact (and_iff_left trivial).symm
  | began => exact (and_iff_left trivial).symm
  | ended transaction hends => rcases hends with rfl | rfl <;> exact (and_iff_left trivial).symm
  | @executed t c ctx transaction htask hopen =>
    have hnew : (⟨t, ctx.current, transaction.setting⟩ : Statement).AsTask ↔
        transaction.began = ctx.current := by
      unfold Statement.AsTask
      rw [h.openOn hopen]
      exact (map_injective UUID.str_injective).eq_iff
    simp only [Isolated, Steady, hopen, htask, forall_mem_append, forall_mem_singleton,
      map_some, some.injEq, hnew]

/-- **Every statement of a run is executed as its task's tenant if and only if each was issued
    with the tenant in scope that was in scope when its transaction began.** -/
theorem statements_run_as_task_iff {actions : List Action}
    (hrun : Along Sys.step Always (Sys.initial size) actions s) :
    (∀ e ∈ s.executed, appCurrentTenantId e.setting = e.tenantId.map UUID.str) ↔
      Along Sys.step Steady (Sys.initial size) actions s := by
  constructor
  · intro hall
    have hback : Along Sys.step Steady (Sys.initial size) actions s ∧ Isolated (.initial size) :=
      hrun.strengthen (fun hbound _ hstep => Bound.step hbound hstep)
        (fun hbound _ hstep hgood => ((isolated_step_iff hbound hstep).mp hgood).symm)
        (bound_initial size) hall
    exact hback.1
  · intro hsteady
    exact hsteady.run.invariant_with (fun hbound _ => Bound.step hbound)
      (fun hbound h hok hstep => (isolated_step_iff hbound hstep).mpr ⟨h, hok⟩)
      (bound_initial size) (by simp [Isolated, Sys.initial])

/-- One task, one connection: a transaction begun, used and committed inside one scope, and a
    second one for no tenant after it. -/
theorem statements_run_as_task_iff_scopes : ∃ s, Along Sys.step Always (Sys.initial 1)
      [.createTask none, .enter 0 (some 1), .begin 0 0, .execute 0 0, .commit 0, .enter 0 none,
        .begin 0 0, .execute 0 0, .rollback 0] s ∧
    s.executed = [⟨0, some 1, some (UUID.str 1)⟩, ⟨0, none, some []⟩] ∧
    ((∀ e ∈ s.executed, appCurrentTenantId e.setting = e.tenantId.map UUID.str) ↔
      Along Sys.step Steady (Sys.initial 1)
        [.createTask none, .enter 0 (some 1), .begin 0 0, .execute 0 0, .commit 0,
          .enter 0 none, .begin 0 0, .execute 0 0, .rollback 0] s) := by
  refine Along.exists_of_replay_and _ (by decide +kernel) fun hrun _ => ?_
  exact statements_run_as_task_iff hrun

/-- A scope entered inside an open transaction does not reach the connection: the statement is
    issued for tenant 2 and runs as tenant 1. -/
theorem statement_runs_as_previous_tenant : ∃ s, Along Sys.step Always (Sys.initial 1)
      [.createTask none, .enter 0 (some 1), .begin 0 0, .execute 0 0, .enter 0 (some 2),
        .execute 0 0] s ∧
    (⟨0, some 2, some (UUID.str 1)⟩ : Statement) ∈ s.executed ∧
    ¬ ∀ e ∈ s.executed, appCurrentTenantId e.setting = e.tenantId.map UUID.str := by
  refine Along.exists_of_replay _ ?_
  decide +kernel

/-! ## Scopes around transactions -/

/-- No transaction of task `t` is open. -/
def Idle (s : Sys) (t : ℕ) : Prop :=
  ∀ conn ∈ s.pool, ∀ transaction ∈ conn.transaction, transaction.task ≠ t

/-- A task enters and leaves scopes between its transactions, and uses no other task's. -/
def Quiet (s : Sys) : Action → Prop
  | .enter t _ => Idle s t
  | .leave t _ => Idle s t
  | .execute t c => (s.openOn c).map (·.task) = some t
  | _ => True

instance (s : Sys) (a : Action) : Decidable (Quiet s a) := by
  cases a <;> unfold Quiet <;> unfold Idle <;> infer_instance

/-- The tenant in scope of a task is that of each transaction it has open. -/
def Kept (s : Sys) : Prop :=
  ∀ conn ∈ s.pool, ∀ transaction ∈ conn.transaction,
    s.tasks[transaction.task]?.map (·.current) = some transaction.began

theorem kept_initial (size : ℕ) : Kept (Sys.initial size) := by
  intro conn hconn
  obtain ⟨-, rfl⟩ := mem_replicate.mp hconn
  simp

theorem Kept.setTask (h : Kept s) (hidle : Idle s t) (ctx : Context) : Kept (s.setTask t ctx) := by
  intro conn hconn transaction htransaction
  have hne : t ≠ transaction.task := (hidle conn hconn transaction htransaction).symm
  simpa [Sys.setTask, getElem?_set_ne hne] using h conn hconn transaction htransaction

theorem Kept.setConnection (h : Kept s)
    (hconn : ∀ transaction ∈ conn.transaction,
      s.tasks[transaction.task]?.map (·.current) = some transaction.began) (c : ℕ) :
    Kept (s.setConnection c conn) :=
  forall_mem_set h hconn

theorem Kept.step (h : Kept s) (hquiet : Quiet s a) (hstep : s.step a = some s') : Kept s' := by
  cases effect_of_step hstep with
  | moved hmoved =>
    cases hmoved with
    | create =>
      intro conn hconn transaction htransaction
      have hkept := h conn hconn transaction htransaction
      obtain ⟨old, hold, hcurrent⟩ := map_eq_some_iff.mp hkept
      have hlt := lt_of_getElem? hold
      simp only [getElem?_append_left hlt, hkept]
    | enter ctx _ | leave ctx ctx' _ _ => exact h.setTask hquiet _
  | began ctx conn htask =>
    apply h.setConnection
    intro transaction hmem
    obtain rfl := mem_some.mp hmem
    rw [task_applyTenant, began_applyTenant, htask, map_some]
  | executed => exact h
  | ended =>
    apply h.setConnection
    simp

theorem Quiet.steady (hquiet : Quiet s a) (h : Kept s) : Steady s a := by
  cases a with
  | execute =>
    obtain ⟨transaction, hopen, htask⟩ := map_eq_some_iff.mp hquiet
    obtain ⟨conn, hconn, htransaction⟩ := bind_eq_some_iff.mp hopen
    have hbegan := h conn (mem_of_getElem? hconn) transaction htransaction
    simp only [Steady, hopen, map_some]
    rw [← htask, hbegan]
  | _ => trivial

/-- **When scopes are entered and left between transactions**, every statement of every task is
    executed as its task's tenant, however the tasks share the pool. -/
theorem run_as_task_of_quiet (hrun : Run Sys.step Quiet (Sys.initial size) s) :
    ∀ e ∈ s.executed, appCurrentTenantId e.setting = e.tenantId.map UUID.str := by
  have keep : ∀ {s s' a}, Bound s ∧ Kept s → Quiet s a → s.step a = some s' →
      Bound s' ∧ Kept s' := fun h hquiet hstep => ⟨h.1.step hstep, h.2.step hquiet hstep⟩
  exact hrun.invariant_with keep
    (fun h hs hquiet hstep => (isolated_step_iff h.1 hstep).mpr ⟨hs, hquiet.steady h.2⟩)
    ⟨bound_initial size, kept_initial size⟩ (by simp [Isolated, Sys.initial])

/-- Two tasks take turns on one connection, for a tenant and for none. -/
theorem run_as_task_of_quiet_turns : ∃ s, Run Sys.step Quiet (Sys.initial 1) s ∧
    s.executed = [⟨0, some 1, some (UUID.str 1)⟩, ⟨1, none, some []⟩] ∧
    ∀ e ∈ s.executed, appCurrentTenantId e.setting = e.tenantId.map UUID.str :=
  Run.exists_of_replay_and
    [.createTask none, .createTask none, .enter 0 (some 1), .begin 0 0, .execute 0 0,
      .commit 0, .begin 1 0, .execute 1 0]
    (by decide +kernel) fun hrun _ => run_as_task_of_quiet hrun

end Tenancy
