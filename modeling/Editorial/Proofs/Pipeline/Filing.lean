import Editorial.Proofs.Pipeline.Outcome
import Editorial.Proofs.Pipeline.Reads

/-!
# Where operations file records

Most operations leave a document in its place and touch no other. Moving and
renaming file it in a place that was looked up; copying files a new document in
such a place; and putting a version into another document writes that document
where it is. Nothing else is put anywhere.

## Main results

* `Effect.places` — each operation files records in one of these ways.
* `Effect.exists_find` — nobody else was found where a document is filed.
-/

namespace Editorial

/-- The place in which an operation on the record `r` files a document, if it does. -/
def Arguments.place? (arguments : Arguments) (op : Operation) (r : Record) : Option Location :=
  match op with
  | .copy | .move => do return ⟨← arguments.destination, ← arguments.newName⟩
  | .rename => do return ⟨(← r.location).container, ← arguments.newName⟩
  | _ => none

theorem Arguments.place?_of_resolving {kind : RequestKind} {op : Operation}
    (hop : Operation.resolving? kind = some op) (arguments : Arguments) (r : Record) :
    arguments.place? op r = none := by
  cases kind <;> cases hop <;> rfl

theorem Arguments.filed?_of_place {arguments : Arguments} {op : Operation} {r : Record}
    {place : Location} (h : arguments.place? op r = some place) : op.filed? = none := by
  cases op <;> first | rfl | cases h

/-- `Places ctx h op path location staged` lists the ways to file records: an
operation `op` on the handle `h` that takes the steps `path` may leave the record in
hand in `location` and stage the changes `staged`. -/
inductive Places (ctx : Context) (h : Handle) (op : Operation) (path : List Taken) :
    Option Location → List Change → Prop
  | stays : Places ctx h op path h.record.location []
  | moves {place : Location} {found : Option String}
      (hplace : ctx.arguments.place? op h.record = some place)
      (hfind : .find place found ∈ path) (hfree : found = none ∨ found = some h.id) :
      Places ctx h op path (some place) []
  | copies {place : Location} {found : Option String} {record : Record} (hop : op = .copy)
      (hplace : ctx.arguments.place? op h.record = some place)
      (hfind : .find place found ∈ path) (hfree : found = none ∨ found = some h.id)
      (hfresh : .fresh .handle record.id ∈ path) (hlocation : record.location = some place) :
      Places ctx h op path h.record.location [.put record none]
  | restores {target : String} {stored : Stored} {record : Record}
      (hload : .load target (some stored) ∈ path) (hid : record.id = stored.record.id)
      (hlocation : record.location = stored.record.location) :
      Places ctx h op path h.record.location [.put record (some stored.revision)]

/-- What carries a request out files records in the same way. -/
theorem Places.resolving {ctx : Context} {h : Handle} {op op' : Operation} {path : List Taken}
    {location : Option Location} {staged : List Change} {requests : List Request}
    {kind : RequestKind} (hop : Operation.resolving? kind = some op)
    (hp : Places ctx (h.withRecord { h.record with requests := requests }) op path location
      staged) : Places ctx h op' path location staged := by
  cases hp with
  | stays => exact .stays
  | moves hplace hfind hfree =>
      rw [Arguments.place?_of_resolving hop] at hplace
      cases hplace
  | copies hcopy hplace hfind hfree hfresh hlocation =>
      rw [Arguments.place?_of_resolving hop] at hplace
      cases hplace
  | restores hload hid hlocation => exact .restores hload hid hlocation

/-- How an operation files records. -/
theorem Effect.places {ctx : Context} {h : Handle} {op : Operation} {path : List Taken}
    {r : Record} {t : Transaction} (he : Effect ctx h op path r t) :
    Places ctx h op path r.location t.staged := by
  induction he with
  | copy hc hn hf hfree hv =>
      refine .copies rfl (by simp [Arguments.place?, hc, hn]) ?_ hfree ?_ rfl
      · exact List.mem_cons_of_mem _ (List.mem_cons_self ..)
      · exact List.mem_cons_of_mem _ (List.mem_cons_of_mem _ (List.mem_cons_self ..))
  | move hc hn hf hfree =>
      exact .moves (by simp [Arguments.place?, hc, hn])
        (List.mem_cons_of_mem _ (List.mem_cons_self ..)) hfree
  | rename hl hn hfree =>
      exact .moves (by simp [Arguments.place?, hl, hn]) (List.mem_cons_self ..) hfree
  | restoreOther ht hs htarget hother hv => exact .restores (List.mem_cons_self ..) rfl rfl
  | accept hid hq hnow hop hallows hrest ih => exact ih.resolving hop
  | runScheduled hq hdue hop hallows hrest ih => exact ih.resolving hop
  | _ => exact .stays

/-- An operation that files a document in a place has looked there and found nobody
else. -/
theorem Effect.exists_find {ctx : Context} {h : Handle} {op : Operation} {path : List Taken}
    {r : Record} {t : Transaction} (he : Effect ctx h op path r t) {place : Location}
    (hplace : ctx.arguments.place? op h.record = some place) :
    ∃ found, .find place found ∈ path ∧ (found = none ∨ found = some h.id) := by
  cases he with
  | copy hc hn hf hfree hv =>
      simp only [Arguments.place?, hc, hn] at hplace
      cases hplace
      exact ⟨_, List.mem_cons_of_mem _ (List.mem_cons_self ..), hfree⟩
  | move hc hn hf hfree =>
      simp only [Arguments.place?, hc, hn] at hplace
      cases hplace
      exact ⟨_, List.mem_cons_of_mem _ (List.mem_cons_self ..), hfree⟩
  | rename hl hn hfree =>
      simp only [Arguments.place?, hl, hn] at hplace
      cases hplace
      exact ⟨_, List.mem_cons_self .., hfree⟩
  | file hop =>
      rw [Arguments.filed?_of_place hplace] at hop
      cases hop
  | _ => cases hplace

/-- All that may stand in the way of filing a document in a place is the state of
things. -/
theorem Obstacle.kind_of_place {ctx : Context} {h : Handle} {told : Taken → Prop}
    {op : Operation} {f : Failure} (ho : Obstacle ctx h told op f) {place : Location}
    (hplace : ctx.arguments.place? op h.record = some place) : f.kind = .invalidState := by
  cases ho with
  | folderUnknown | folderClosed | nameTaken | renameTaken | onlyDraft => rfl
  | destination hop hc =>
      rcases hop with rfl | rfl <;> simp [Arguments.place?, hc] at hplace
  | newName hop hn =>
      rcases hop with rfl | rfl | rfl <;> simp [Arguments.place?, hn] at hplace
  | date hop =>
      rw [Arguments.filed?_of_place hplace] at hop
      cases hop
  | timestamp hop | versionMissing hop => rcases hop with rfl | rfl | rfl <;> cases hplace
  | _ => cases hplace

end Editorial
