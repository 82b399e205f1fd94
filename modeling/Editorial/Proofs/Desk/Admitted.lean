import Editorial.Proofs.Desk.Attempt
import Editorial.Proofs.Pipeline.Filing
import Editorial.Proofs.Store.Exact
import Editorial.Proofs.System.Readings

/-!
# What is prepared from the present store is admitted

An attempt that reads a store in good order and then commits to the same store is
not refused. The record it writes is at the revision it loaded. Where that stays in
its place nobody else is; a place it moves to was looked up and had nobody else in
it; and so had the place for a copy. There is one exception: a document may be
copied to where it is itself. The look-up lets that pass, as it finds no other
document there, but then two documents would stand in one place.

## Main results

* `Places.admitted` — there is room where a set of changes files its documents.
* `Prepares.admitted` — every other set of changes is admitted.
-/

namespace Editorial

/-- Where a set of changes files its documents there is room for them, if the lookups
on the way say what the store says. -/
theorem Places.admitted {s : Store} (hfiled : s.Filed) (hspread : s.Spread) {ctx : Context}
    {stored : Stored} {user : String} {op : Operation} {path : List Taken}
    {location : Option Location} {staged : List Change} {first : Change}
    (hp : Places ctx ⟨stored.record, stored.revision, user⟩ op path location staged)
    (hget : s.get? first.id = some stored) (hcurrent : s.revision? first.id = first.expected?)
    (hlocation : ∀ place, first.location? = some place → location = some place)
    (hload : ∀ {id other}, .load id (some other) ∈ path → s.get? id = some other)
    (hfind : ∀ {place found}, .find place found ∈ path → s.find? place = found)
    (hnew : ∀ name, .fresh .handle name ∈ path → s.get? name = none)
    (hcopy : op = .copy → ∀ place, ctx.arguments.place? op stored.record = some place →
      stored.record.location ≠ some place) :
    s.Admitted (first :: staged) := by
  have hid : stored.record.id = first.id := hfiled first.id stored hget
  cases hp with
  | stays =>
      exact Store.admitted_one_iff.2 ⟨hcurrent, fun place hplace =>
        hspread.hasRoom hget (hlocation place hplace)⟩
  | @moves target found hplace hfound hfree =>
      refine Store.admitted_one_iff.2 ⟨hcurrent, fun place hplace => ?_⟩
      cases hlocation place hplace
      rw [← hfind hfound] at hfree
      refine Store.hasRoom_of_find? hfiled hspread ?_
      rw [← hid]
      exact hfree
  | @copies target found record hop hplace hfound hfree hfresh hrecord =>
      have hnone : s.get? record.id = none := hnew _ hfresh
      refine Store.admitted_two hget hlocation hspread hcurrent ?_ fun place hp => ?_
      · show s.revision? record.id = none
        unfold Store.revision?
        rw [hnone]
        rfl
      · have hp' : some target = some place := hrecord.symm.trans hp
        cases hp'
        rw [← hfind hfound] at hfree
        rcases hfree with hfree | hfree
        · exact Store.hasRoom_of_find? hfiled hspread (Or.inl hfree)
        -- The document itself is found where the copy is to go.
        · obtain ⟨own, hown, hthere⟩ := hfiled.exists_of_find? hfree
          rw [show (⟨stored.record, stored.revision, user⟩ : Handle).id = first.id from hid,
            hget] at hown
          cases hown
          exact absurd hthere (hcopy hop target hplace)
  | @restores target other record hloaded hrecord hplace =>
      have hother : s.get? target = some other := hload hloaded
      have htarget : record.id = target := hrecord.trans (hfiled target other hother)
      refine Store.admitted_two hget hlocation hspread hcurrent ?_ fun place hp => ?_
      · show s.revision? record.id = some other.revision
        rw [htarget]
        exact Store.revision?_of_get? hother
      · show s.HasRoom place record.id
        rw [htarget]
        exact hspread.hasRoom hother (hplace.symm.trans hp)

namespace Desk

variable {desk : Desk} {id user : String} {op : Operation} {arguments : Arguments}

/-- What was prepared from a store in order is admitted by that store, unless it is
a copy of a document to where the document is. -/
theorem Prepares.admitted {s : System} (hwhole : s.backend = .whole) (hfiled : s.store.Filed)
    (hspread : s.store.Spread) {path : List Taken} {changes : List Change} {t : Transaction}
    (hp : desk.Prepares id user op arguments path changes t)
    (hanswered : ∀ step ∈ path, step.AnsweredBy s)
    (hnew : ∀ name, .fresh .handle name ∈ path → s.store.get? name = none)
    (hcopy : op = .copy → ∀ stored, s.store.get? id = some stored → ∀ place,
      arguments.place? op stored.record = some place → stored.record.location ≠ some place) :
    s.store.Admitted changes := by
  have hload : ∀ {id stored}, .load id (some stored) ∈ path → s.store.get? id = some stored := by
    intro id stored hm
    have hanswer : Except.ok (some stored) = s.backend.load s.store id := hanswered _ hm
    rw [hwhole] at hanswer
    exact Backend.load_whole_iff.1 hanswer.symm
  have hfind : ∀ {place found}, .find place found ∈ path → s.store.find? place = found :=
    fun hm => (Except.ok.inj (hanswered _ hm)).symm
  cases hp with
  | @loaded stored path r _ _ hallows heffect hchanges =>
      have hget : s.store.get? id = some stored := hload (List.mem_cons_self ..)
      have hid : stored.record.id = id := hfiled id stored hget
      obtain ⟨first, rfl, hfirst, hexpected, hlocation, -⟩ :=
        exists_head hchanges (heffect.id_eq.trans hid)
      have hcurrent : s.store.revision? first.id = first.expected? := by
        rw [hfirst, hexpected]
        exact Store.revision?_of_get? hget
      exact heffect.places.admitted hfiled hspread (hfirst ▸ hget) hcurrent hlocation
        (fun hm => hload (List.mem_cons_of_mem _ hm))
        (fun hm => hfind (List.mem_cons_of_mem _ hm))
        (fun name hm => hnew name (List.mem_cons_of_mem _ hm))
        fun hop => hcopy hop stored hget

end Desk

end Editorial
