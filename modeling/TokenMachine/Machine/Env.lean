/-
  TokenMachine.Machine.Env — the bindings of one frame.

  An environment binds each name at most once; binding a name again replaces its
  value. A call starts from its caller's environment, and what it binds is its own.
-/

import TokenMachine.Value

namespace TokenMachine

structure Env where
  bindings : List (String × Value)
  distinct : (bindings.map (·.1)).Nodup

namespace Env

def empty : Env := ⟨[], by simp⟩

instance : Inhabited Env := ⟨empty⟩

def lookup (env : Env) (name : String) : Option Value :=
  (env.bindings.find? (·.1 == name)).map (·.2)

def bind (env : Env) (name : String) (value : Value) : Env where
  bindings := (name, value) :: env.bindings.filter (·.1 != name)
  distinct := by
    rw [List.map_cons, List.nodup_cons]
    refine ⟨?_, (env.distinct.sublist (List.filter_sublist.map _))⟩
    simp only [List.mem_map, List.mem_filter, bne_iff_ne, ne_eq, not_exists, not_and]
    exact fun b hb hn => hb.2 hn

def size (env : Env) : Nat := env.bindings.length

def isEmpty (env : Env) : Bool := env.bindings.isEmpty

@[simp] theorem lookup_empty (name : String) : empty.lookup name = none := rfl

@[simp] theorem lookup_bind_self (env : Env) (name : String) (value : Value) :
    (env.bind name value).lookup name = some value := by
  simp [lookup, bind]

theorem lookup_bind_of_ne (env : Env) {name other : String} (value : Value) (h : other ≠ name) :
    (env.bind name value).lookup other = env.lookup other := by
  unfold lookup bind
  rw [List.find?_cons_of_neg (by simpa using h.symm), List.find?_filter]
  congr 2
  funext b
  by_cases hb : b.1 = other <;> simp [hb, h]

end Env

end TokenMachine
