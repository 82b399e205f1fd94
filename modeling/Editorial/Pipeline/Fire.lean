import Editorial.Hints.Basic
import Editorial.Pipeline.Table

/-!
# Firing operations

To fire an operation is to look it up in the hints of the handle in hand, to
find the rule for it, and to run the rule's tasks in turn. A failure stops the
pipeline. One that does not belong to the workflow is wrapped on its way out
with the operation and the task that met it; a wrapped failure belongs to the
workflow, so it is wrapped once.

A task may fire another operation on the same work. A table can be made whose
operations fire one another without end, so firing is limited to a depth, at
which the process breaks off. The standard table never gets beyond the second
level.
-/

namespace Editorial

/-- The failure that leaves the task called `task` of the operation `op`. -/
def Failure.leaving (op : Operation) (task : Task) (failure : Failure) : Failure :=
  if failure.isDomain then failure else .inTask op.name task.name failure

namespace Table

/-- Runs the tasks of a pipeline in turn. -/
def runTasks (run : Task → Act Unit) (op : Operation) : List Task → Act Unit
  | [] => return ()
  | task :: rest => do
      (run task).adapt (Failure.leaving op task)
      runTasks run op rest

/-- Fires an operation on the work in hand; operations that it fires in turn
may go `depth` levels deep. -/
def fireWithin (table : Table) (ctx : Context) : (depth : Nat) → Operation → Act Unit
  | 0, _ => monadLift (Process.broken : Process Unit)
  | depth + 1, op => do
      let h ← Act.handle
      if !(Hints.ofHandle h).allows op ctx.arguments.request then throw (.denied op)
      match table.rule? op h.record.status with
      | none => throw (.state (.noRule op h.record.status))
      | some rule => runTasks (Task.run ctx (table.fireWithin ctx depth)) op rule.tasks

/-- How deep operations may fire one another. -/
def depthLimit : Nat := 1000

/-- Fires an operation on the work in hand. -/
def fire (table : Table) (ctx : Context) (op : Operation) : Act Unit :=
  table.fireWithin ctx depthLimit op

end Table

end Editorial
