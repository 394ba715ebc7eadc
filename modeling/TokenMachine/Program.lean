/-
  TokenMachine.Program — functions, the table that names them, and whole programs.

  A function table is a list of definitions in the order in which they were made,
  no two of one name. Defining a name a second time is refused and changes nothing
  (`define`). Listings take the definitions by name (`sorted`).
-/

import TokenMachine.Token

namespace TokenMachine

structure FunctionDef where
  name : String
  params : List String
  body : List Token
  span : Span
  deriving DecidableEq, Repr

def FunctionDef.arity (f : FunctionDef) : Nat := f.params.length

structure FunctionTable where
  defs : List FunctionDef
  distinct : (defs.map (·.name)).Nodup
  deriving DecidableEq

namespace FunctionTable

def empty : FunctionTable := ⟨[], by simp⟩

instance : Inhabited FunctionTable := ⟨empty⟩

def get? (t : FunctionTable) (name : String) : Option FunctionDef :=
  t.defs.find? (·.name == name)

def contains (t : FunctionTable) (name : String) : Bool := t.defs.any (·.name == name)

def size (t : FunctionTable) : Nat := t.defs.length

def isEmpty (t : FunctionTable) : Bool := t.defs.isEmpty

theorem contains_iff {t : FunctionTable} {name : String} :
    t.contains name = true ↔ name ∈ t.defs.map (·.name) := by
  simp only [contains, List.any_eq_true, beq_iff_eq, List.mem_map]

/-- Add a definition, or give it back if its name is taken. -/
def define (t : FunctionTable) (f : FunctionDef) : Except FunctionDef FunctionTable :=
  if h : t.contains f.name then .error f
  else
    .ok ⟨t.defs ++ [f], by
      rw [contains_iff] at h
      rw [List.map_append, List.nodup_append]
      refine ⟨t.distinct, by simp, ?_⟩
      intro a ha b hb
      simp only [List.map_cons, List.map_nil, List.mem_singleton] at hb
      rintro rfl
      exact h (hb ▸ ha)⟩

/-- The definitions in the order of their names, compared by code points. -/
def sorted (t : FunctionTable) : List FunctionDef :=
  t.defs.mergeSort fun f g => f.name ≤ g.name

end FunctionTable

structure Program where
  main : List Token
  functions : FunctionTable
  deriving DecidableEq, Inhabited

end TokenMachine
