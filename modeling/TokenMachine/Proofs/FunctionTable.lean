/-
  TokenMachine.Proofs.FunctionTable — what looking up, defining and sorting say of a table.

  No two definitions of a table have one name, so looking a name up is membership
  (`get?_eq_some_iff`), and neither the order in which functions were defined nor
  their spans are seen by a look-up of what a definition says (`map_spelling_get?`).

  A table is offered definitions one by one (`ofOffers`). One of a new name goes to the end, one
  of a name that is taken changes nothing; so the table holds what was accepted (`accepted_iff`),
  and a name stays with the first definition that was offered for it (`get?_ofOffers`). Sorting
  sees the definitions and not their order (`sorted_of_perm`).
-/

import Mathlib.Data.List.Induction
import Mathlib.Data.List.Nodup
import Mathlib.Data.List.Sort
import Mathlib.Data.String.Basic
import TokenMachine.Program

namespace TokenMachine

def FunctionDef.spelling (f : FunctionDef) : String × List String × List String :=
  (f.name, f.params, f.body.map (·.text))

namespace FunctionTable

variable {t u : FunctionTable} {name : String} {f g : FunctionDef} {fs : List FunctionDef}

/-- Looking a name up finds the one definition of that name. -/
theorem get?_eq_some_iff : t.get? name = some f ↔ f ∈ t.defs ∧ f.name = name := by
  constructor
  · intro h
    exact ⟨List.mem_of_find?_eq_some h, by simpa using List.find?_some h⟩
  · rintro ⟨hf, rfl⟩
    cases hg : t.get? f.name with
    | none => simpa using List.find?_eq_none.mp hg f hf
    | some g =>
      have hname : g.name = f.name := by simpa using List.find?_some hg
      rw [List.inj_on_of_nodup_map t.distinct (List.mem_of_find?_eq_some hg) hf hname]

theorem mem_sorted : f ∈ t.sorted ↔ f ∈ t.defs := List.mem_mergeSort

theorem nodup_sorted (t : FunctionTable) : (t.sorted.map (·.name)).Nodup := by
  have hperm : (t.sorted.map (·.name)).Perm (t.defs.map (·.name)) :=
    (List.mergeSort_perm t.defs _).map _
  exact hperm.nodup_iff.mpr t.distinct

theorem sorted_increasing (t : FunctionTable) : t.sorted.Pairwise (·.name < ·.name) := by
  have hle : t.sorted.Pairwise (·.name ≤ ·.name) := by
    refine (List.pairwise_mergeSort ?_ ?_ t.defs).imp of_decide_eq_true
    · intro f g k hfg hgk
      exact decide_eq_true (le_trans (of_decide_eq_true hfg) (of_decide_eq_true hgk))
    · intro f g
      simpa using le_total f.name g.name
  have hne : t.sorted.Pairwise (·.name ≠ ·.name) := List.pairwise_map.mp t.nodup_sorted
  refine hle.imp₂ ?_ hne
  intro f g hfg hne
  exact lt_of_le_of_ne hfg hne

theorem sorted_of_perm (h : t.defs.Perm u.defs) : t.sorted = u.sorted := by
  have hperm : t.sorted.Perm u.sorted :=
    (List.mergeSort_perm _ _).trans (h.trans (List.mergeSort_perm _ _).symm)
  refine hperm.eq_of_pairwise ?_ t.sorted_increasing u.sorted_increasing
  intro f g _ _ hfg hgf
  exact absurd hgf (lt_asymm hfg)

/-- A definition of a new name goes to the end of the table. -/
theorem define_of_not_mem (h : f.name ∉ t.defs.map (·.name)) :
    ∃ t', t.define f = .ok t' ∧ t'.defs = t.defs ++ [f] := by
  have hc : ¬ t.contains f.name = true := fun hc => h (contains_iff.mp hc)
  simp only [define, hc]
  exact ⟨_, rfl, rfl⟩

theorem defs_of_define (h : t.define f = .ok u) : u.defs = t.defs ++ [f] := by
  unfold define at h
  split at h <;> cases h
  rfl

/-- A definition is refused if its name is taken, and what is refused is the definition itself. -/
theorem define_eq_error_iff : t.define f = .error g ↔ f.name ∈ t.defs.map (·.name) ∧ g = f := by
  by_cases h : f.name ∈ t.defs.map (·.name)
  · have hc : t.contains f.name = true := contains_iff.mpr h
    simp [define, hc, h, eq_comm]
  · obtain ⟨u, hu, -⟩ := define_of_not_mem h
    simp [hu, h]

theorem eq_of_define (h : t.define f = .error g) : g = f := (define_eq_error_iff.mp h).2

/-- Tables that define the same spellings, in whatever order, look the same up. -/
theorem map_spelling_get?
    (h : ∀ x, x ∈ t.defs.map FunctionDef.spelling ↔ x ∈ u.defs.map FunctionDef.spelling)
    (name : String) :
    (t.get? name).map FunctionDef.spelling = (u.get? name).map FunctionDef.spelling := by
  ext x
  simp only [Option.map_eq_some_iff, get?_eq_some_iff]
  constructor
  · rintro ⟨f, ⟨hf, hn⟩, rfl⟩
    obtain ⟨g, hg, hfg⟩ := List.mem_map.mp ((h _).mp (List.mem_map_of_mem hf))
    exact ⟨g, ⟨hg, (congrArg Prod.fst hfg).trans hn⟩, hfg⟩
  · rintro ⟨f, ⟨hf, hn⟩, rfl⟩
    obtain ⟨g, hg, hfg⟩ := List.mem_map.mp ((h _).mpr (List.mem_map_of_mem hf))
    exact ⟨g, ⟨hg, (congrArg Prod.fst hfg).trans hn⟩, hfg⟩

/-! ## A sequence of definitions -/

def offer (t : FunctionTable) (f : FunctionDef) : FunctionTable :=
  match t.define f with
  | .ok extended => extended
  | .error _ => t

def ofOffers (fs : List FunctionDef) : FunctionTable := fs.foldl offer .empty

def Accepted (fs : List FunctionDef) (f : FunctionDef) : Prop :=
  ∃ before after t, fs = before ++ f :: after ∧ (ofOffers before).define f = .ok t

theorem offer_of_mem (h : f.name ∈ t.defs.map (·.name)) : t.offer f = t := by
  have hrefused : t.define f = .error f := define_eq_error_iff.mpr ⟨h, rfl⟩
  rw [offer, hrefused]

theorem defs_offer_of_not_mem (h : f.name ∉ t.defs.map (·.name)) :
    (t.offer f).defs = t.defs ++ [f] := by
  obtain ⟨u, hu, hdefs⟩ := define_of_not_mem h
  rw [offer, hu, hdefs]

theorem ofOffers_concat (fs : List FunctionDef) (f : FunctionDef) :
    ofOffers (fs ++ [f]) = (ofOffers fs).offer f := by
  rw [ofOffers, List.foldl_append]
  rfl

/-- Definitions of distinct names are all taken in, in their order. -/
theorem defs_ofOffers (h : (fs.map (·.name)).Nodup) : (ofOffers fs).defs = fs := by
  induction fs using List.reverseRecOn with
  | nil => rfl
  | append_singleton fs f ih =>
    rw [List.map_append, List.nodup_append] at h
    have hdefs := ih h.1
    have hnew : f.name ∉ (ofOffers fs).defs.map (·.name) := by
      rw [hdefs]
      intro hf
      exact h.2.2 f.name hf f.name (by simp) rfl
    rw [ofOffers_concat, defs_offer_of_not_mem hnew, hdefs]

theorem get?_offer (t : FunctionTable) (f : FunctionDef) (name : String) :
    (t.offer f).get? name = (t.get? name).or ([f].find? (·.name == name)) := by
  by_cases h : f.name ∈ t.defs.map (·.name)
  · rw [offer_of_mem h]
    by_cases hname : f.name = name
    · subst hname
      obtain ⟨g, hg, hgname⟩ := List.mem_map.mp h
      rw [get?_eq_some_iff.mpr ⟨hg, hgname⟩]
      rfl
    · simp [hname]
  · rw [get?, defs_offer_of_not_mem h, List.find?_append]
    rfl

/-- A name is looked up to the first definition that was ever offered for it. -/
theorem get?_ofOffers (fs : List FunctionDef) (name : String) :
    (ofOffers fs).get? name = fs.find? (·.name == name) := by
  induction fs using List.reverseRecOn with
  | nil => rfl
  | append_singleton fs f ih => rw [ofOffers_concat, get?_offer, ih, List.find?_append]

theorem accepted_concat_iff : Accepted (fs ++ [g]) f ↔
    Accepted fs f ∨ f = g ∧ g.name ∉ (ofOffers fs).defs.map (·.name) := by
  constructor
  · intro ⟨before, after, t, hsplit, hdefine⟩
    rcases List.eq_nil_or_concat' after with rfl | ⟨after, last, rfl⟩
    · obtain ⟨rfl, hlast⟩ := List.append_inj' hsplit rfl
      obtain rfl : g = f := List.singleton_inj.mp hlast
      refine .inr ⟨rfl, fun hmem => ?_⟩
      rw [define_eq_error_iff.mpr ⟨hmem, rfl⟩] at hdefine
      cases hdefine
    · rw [← List.cons_append, ← List.append_assoc] at hsplit
      obtain ⟨rfl, -⟩ := List.append_inj' hsplit rfl
      exact .inl ⟨before, after, t, rfl, hdefine⟩
  · intro h
    rcases h with ⟨before, after, t, hsplit, hdefine⟩ | ⟨rfl, hnew⟩
    · exact ⟨before, after ++ [g], t, by simp [hsplit], hdefine⟩
    · obtain ⟨t, hdefine, -⟩ := define_of_not_mem hnew
      exact ⟨fs, [], t, rfl, hdefine⟩

/-- The table holds what was accepted. -/
theorem accepted_iff : Accepted fs f ↔ f ∈ (ofOffers fs).defs := by
  induction fs using List.reverseRecOn with
  | nil => simp [Accepted, ofOffers, empty]
  | append_singleton fs g ih =>
    rw [accepted_concat_iff, ih, ofOffers_concat]
    by_cases h : g.name ∈ (ofOffers fs).defs.map (·.name)
    · simp [offer_of_mem h, h]
    · rw [defs_offer_of_not_mem h]
      simp [h]

end FunctionTable

end TokenMachine
