import FastapiBoilerplate.Lib.Uuid

/-!
# The tenant of a task

`_current_tenant_id` is a `ContextVar`: each task has its own value, a task that is created gets a
copy of its creator's, and `set` answers a token that remembers what it replaced. `tenant_scope`
is one `set` and, at the end of its block, the `reset` of that token. The tokens of the open blocks
are kept innermost first; blocks usually close in that order, but a block that lives in a generator
may outlast the one around it, so any of them can be reset.
-/

namespace Tenancy

open Lib

/-- One task's view of `_current_tenant_id`. -/
structure Context where
  /-- What `current_tenant_id` answers. -/
  current : Option UUID := none
  /-- What each open `tenant_scope` puts back. -/
  tokens : List (Option UUID) := []

namespace Context

/-- `tenant_scope(tenant)`, its first half. -/
def enter (tenant : Option UUID) (ctx : Context) : Context := ⟨tenant, ctx.current :: ctx.tokens⟩

/-- The end of the block that is `k` levels from the innermost. -/
def leave (k : ℕ) (ctx : Context) : Option Context :=
  ctx.tokens[k]?.map fun old => ⟨old, ctx.tokens.eraseIdx k⟩

/-- What `asyncio.create_task` gives the new task. A token only resets in the context it was made
    in, so the blocks that are open around the call are not the new task's to close. -/
def copy (ctx : Context) : Context := ⟨ctx.current, []⟩

@[simp] theorem current_enter (tenant : Option UUID) (ctx : Context) :
    (ctx.enter tenant).current = tenant := rfl

/-- A block restores what was in scope before it. -/
@[simp] theorem leave_enter (tenant : Option UUID) (ctx : Context) :
    (ctx.enter tenant).leave 0 = some ctx := rfl

end Context

end Tenancy
