/-
  TokenMachine.Proofs.Listing.Order — a table keeps first definitions, and lists them by name.

  Whatever sequence of definitions a table is offered, it holds the first of each name
  (`FunctionTable.get?_ofOffers`), and sorts what it holds by the bytes of the names, which no two
  share. A listing takes the functions as they are sorted. So where no two definitions have one
  name, neither the sorted functions nor the listing show in which order they were made
  (`FunctionTable.ofOffers_canonical`).
-/

import TokenMachine.Listing.Render
import TokenMachine.Proofs.FunctionTable
import TokenMachine.Proofs.Text.ByteOrder

namespace TokenMachine.FunctionTable

variable {fs gs : List FunctionDef}

theorem sorted_by_bytes (t : FunctionTable) :
    t.sorted.Pairwise fun f g => Text.bytes f.name < Text.bytes g.name :=
  t.sorted_increasing.imp Text.bytes_lt_iff.mpr

theorem sorted_ofOffers_of_perm (hperm : fs.Perm gs) (hnodup : (fs.map (·.name)).Nodup) :
    (ofOffers fs).sorted = (ofOffers gs).sorted := by
  have hnodup' : (gs.map (·.name)).Nodup := (hperm.map _).nodup_iff.mp hnodup
  apply sorted_of_perm
  rw [defs_ofOffers hnodup, defs_ofOffers hnodup']
  exact hperm

/-- After any sequence of definitions, a further one is refused exactly if one with its name was
accepted before; it is given back as it is, and the table is what it was. An accepted definition is
found by its name whatever is defined after it, and each name by the first definition of it. Sorted,
the accepted definitions stand in strictly increasing order of the bytes of their names. If no two
definitions have one name, sorted table and listing are the same in whatever order they are made. -/
theorem ofOffers_canonical (fs : List FunctionDef) :
    (∀ f g, (ofOffers fs).define f = .error g ↔
      (∃ e, Accepted fs e ∧ e.name = f.name) ∧ g = f) ∧
    (∀ f g, (ofOffers fs).define f = .error g → ofOffers (fs ++ [f]) = ofOffers fs) ∧
    (∀ f, Accepted fs f → ∀ later, (ofOffers (fs ++ later)).get? f.name = some f) ∧
    (∀ name, (ofOffers fs).get? name = fs.find? (·.name == name)) ∧
    (∀ f, f ∈ (ofOffers fs).sorted ↔ Accepted fs f) ∧
    (ofOffers fs).sorted.Pairwise (fun f g => Text.bytes f.name < Text.bytes g.name) ∧
    ∀ gs, fs.Perm gs → (fs.map (·.name)).Nodup →
      (ofOffers fs).sorted = (ofOffers gs).sorted ∧
      ∀ main, Listing.render ⟨main, ofOffers fs⟩ = Listing.render ⟨main, ofOffers gs⟩ := by
  refine ⟨?_, ?_, ?_, get?_ofOffers fs, ?_, sorted_by_bytes _, ?_⟩
  · intro f g
    simp only [accepted_iff, define_eq_error_iff, List.mem_map]
  · intro f g h
    rw [ofOffers_concat, offer_of_mem (define_eq_error_iff.mp h).1]
  · intro f haccepted later
    have hfirst : fs.find? (·.name == f.name) = some f := by
      rw [← get?_ofOffers]
      exact get?_eq_some_iff.mpr ⟨accepted_iff.mp haccepted, rfl⟩
    rw [get?_ofOffers, List.find?_append, hfirst]
    rfl
  · intro f
    rw [mem_sorted, accepted_iff]
  · intro gs hperm hnodup
    have hsorted := sorted_ofOffers_of_perm hperm hnodup
    refine ⟨hsorted, fun main => ?_⟩
    simp only [Listing.render, hsorted]

end TokenMachine.FunctionTable
