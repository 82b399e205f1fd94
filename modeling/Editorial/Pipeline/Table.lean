import Editorial.Pipeline.Task

/-!
# Transition tables

A table says which pipeline carries out an operation, depending on which
variants a document has. The first rule for the operation whose pattern covers
the status counts. A table has a rule for every operation and never two for
the same operation and pattern.

## Main results

* `exists_rule` — every operation has a rule.
-/

namespace Editorial

/-- A row of a table: for this operation, in these statuses, run these tasks. -/
structure Rule where
  operation : Operation
  pattern : Pattern
  tasks : List Task
deriving DecidableEq

namespace Rule

/-- Whether the rule is for `op` in the status `s`. -/
def applies (rule : Rule) (op : Operation) (s : Status) : Bool :=
  rule.operation = op && rule.pattern.covers s

/-- Whether two rules are for the same operation and pattern. -/
def clashes (a b : Rule) : Bool := a.operation = b.operation && a.pattern = b.pattern

/-- The first of `rules` that clashes with one before it or one of `earlier`. -/
def firstClash? (earlier : List Rule) : (rules : List Rule) → Option Rule
  | [] => none
  | rule :: rest =>
      if earlier.any rule.clashes then some rule else firstClash? (rule :: earlier) rest

/-- The operations that have no rule. -/
def uncovered (rules : List Rule) : List Operation :=
  Operation.all.filter fun op => !rules.any fun rule => rule.operation = op

/-- The rules and, for each operation without one, a rule that does nothing. -/
def covering (rules : List Rule) : List Rule :=
  rules ++ (uncovered rules).map fun op => ⟨op, .any, []⟩

end Rule

/-- Rules for all operations. -/
structure Table where
  rules : List Rule
  /-- No two rules clash. -/
  distinct : Rule.firstClash? [] rules = none
  /-- Every operation has a rule. -/
  covered : Rule.uncovered rules = []

namespace Table

/-- The table with these rules, unless two clash or an operation has none. -/
def ofRules (rules : List Rule) : Except Failure Table :=
  match hc : Rule.firstClash? [] rules with
  | some rule => .error (.duplicateRule rule.operation rule.pattern)
  | none =>
      if hu : Rule.uncovered rules = [] then .ok ⟨rules, hc, hu⟩
      else .error (.uncovered (Rule.uncovered rules))

/-- The rule that counts for `op` in the status `s`. -/
def rule? (table : Table) (op : Operation) (s : Status) : Option Rule :=
  table.rules.find? fun rule => rule.applies op s

theorem exists_rule (table : Table) (op : Operation) :
    ∃ rule ∈ table.rules, rule.operation = op := by
  have h := List.filter_eq_nil_iff.1 table.covered op op.mem_all
  simpa [List.any_eq_true] using h

theorem ofRules_rules (table : Table) : ofRules table.rules = .ok table := by
  unfold ofRules
  split
  · rename_i h; rw [table.distinct] at h; cases h
  · rw [dif_pos table.covered]

/-! ## The document workflow -/

/-- The rules of the document workflow. -/
def standardRules : List Rule :=
  [⟨.obtain, { draft := .present }, [.claimDraft, .returnVariant .draft]⟩,
   ⟨.obtain, { draft := .absent, unpublished := .present },
    [.createVariant .unpublished .draft, .returnVariant .draft]⟩,
   ⟨.obtain, { draft := .absent, unpublished := .absent, published := .present },
    [.createVariant .published .unpublished, .createVariant .unpublished .draft,
     .returnVariant .draft]⟩,
   ⟨.commit, { draft := .present, unpublished := .absent, published := .absent },
    [.changeStage .draft .unpublished, .returnVariant .unpublished]⟩,
   ⟨.commit, { draft := .present },
    [.copyContent .draft .unpublished, .removeVariant .draft, .returnVariant .unpublished]⟩,
   ⟨.dispose, { draft := .present, unpublished := .present },
    [.removeVariant .draft, .returnVariant .unpublished]⟩,
   ⟨.update, { draft := .present }, [.writeContent .draft, .returnVariant .draft]⟩,
   ⟨.unlock, { draft := .present }, [.releaseDraft]⟩,
   ⟨.publish, { unpublished := .present, published := .absent },
    [.createVariant .unpublished .published]⟩,
   ⟨.schedulePublish, .any, [.createRequest .scheduledPublication]⟩,
   ⟨.depublish, { unpublished := .present, published := .present },
    [.removeVariant .published]⟩,
   ⟨.depublish, { unpublished := .absent, published := .present },
    [.changeStage .published .unpublished]⟩,
   ⟨.scheduleDepublish, .any, [.createRequest .scheduledDepublication]⟩,
   ⟨.delete, .any, [.deleteHandle]⟩,
   ⟨.copy, .any, [.copyDocument]⟩,
   ⟨.move, .any, [.moveDocument]⟩,
   ⟨.rename, .any, [.renameDocument]⟩,
   ⟨.requestPublication, .any, [.createRequest .publication]⟩,
   ⟨.requestDepublication, .any, [.createRequest .depublication]⟩,
   ⟨.requestDeletion, .any, [.createRequest .deletion]⟩,
   ⟨.acceptRequest, .any, [.acceptRequest]⟩,
   ⟨.rejectRequest, .any, [.rejectRequest]⟩,
   ⟨.cancelRequest, .any, [.cancelRequest]⟩,
   ⟨.runScheduled, .any, [.runScheduled]⟩,
   ⟨.version, { unpublished := .present }, [.takeVersion]⟩,
   ⟨.restoreVersion, { unpublished := .present }, [.restoreVersion]⟩,
   ⟨.restoreVersionTo, { unpublished := .present }, [.restoreVersionTo]⟩,
   ⟨.listVersions, .any, []⟩,
   ⟨.retrieveVersion, .any, [.retrieveVersion]⟩]

/-- The table of the document workflow. -/
def standard : Table := ⟨standardRules, by decide, by decide⟩

end Table

end Editorial
