/-
  TokenMachine.Proofs.Script.Lowering — the token streams of a script are well nested.

  Every expression and statement lowers to a well-nested stream, so the program of any
  script passes the check (`Script.verify_lower`). The function table of a script holds
  the lowered definitions under their names (`get?_ofDefinitions`).
-/

import TokenMachine.Proofs.Stream.Grammar
import TokenMachine.Script.Lower

namespace TokenMachine

/-! ## Expressions and statements -/

theorem Literal.wellNested_tokens (kind : Literal) (operand : String) (span : Span) :
    WellNested (kind.tokens operand span) :=
  .literal rfl .nil

theorem Action.wellNested_token {act : Action} (span : Span)
    (h : (Instr.action act).isPlain = true) : WellNested [act.token span] :=
  .plain rfl h .nil

mutual

theorem Expr.wellNested : ∀ e : Expr, WellNested e.tokens
  | .number _ _ | .boolean _ _ | .text _ _ => Literal.wellNested_tokens ..
  | .var _ span => (Literal.wellNested_tokens ..).append (Action.wellNested_token span rfl)
  | .binary _ lhs rhs span =>
    (rhs.wellNested.append lhs.wellNested).append (Action.wellNested_token span rfl)
  | .call _ _ args span =>
    ((wellNested_args args).append (Literal.wellNested_tokens ..)).append
      (Action.wellNested_token span rfl)

theorem Expr.wellNested_args : ∀ args : List Expr, WellNested (Expr.argTokens args)
  | [] => .nil
  | arg :: rest => (wellNested_args rest).append arg.wellNested

end

mutual

theorem Stmt.wellNested : ∀ s : Stmt, WellNested s.tokens
  | .expr e => e.wellNested
  | .bind _ _ value span =>
    (value.wellNested.append (Literal.wellNested_tokens ..)).append
      (Action.wellNested_token span rfl)
  | .print value span | .ret value span =>
    value.wellNested.append (Action.wellNested_token span rfl)
  | .ifThen condition thenStmt span => by
    have h := condition.wellNested.append
      (@WellNested.ifThen (Action.branch.token span) (Action.close.token span) _ _ rfl rfl
        thenStmt.wellNested .nil)
    simpa [Stmt.tokens] using h
  | .ifElse condition thenStmt elseSpan elseStmt span => by
    have h := condition.wellNested.append
      (@WellNested.ifElse (Action.branch.token span) (Action.otherwise.token elseSpan)
        (Action.close.token span) _ _ _ rfl rfl rfl thenStmt.wellNested elseStmt.wellNested .nil)
    simpa [Stmt.tokens] using h
  | .block body => wellNested_block body

theorem Stmt.wellNested_block : ∀ body : List Stmt, WellNested (Stmt.blockTokens body)
  | [] => .nil
  | stmt :: rest => stmt.wellNested.append (wellNested_block rest)

end

/-! ## Scripts -/

namespace FunctionTable

/-- Definitions of different names all stay, in their order. -/
theorem defs_ofDefinitions {ds : List Definition} (h : (ds.map (·.name)).Nodup) :
    (ofDefinitions ds).defs = ds.map Definition.lower := by
  have hoffers : ofDefinitions ds = ofOffers (ds.map Definition.lower) := by
    rw [ofOffers, List.foldl_map]
    rfl
  rw [hoffers]
  apply defs_ofOffers
  rw [List.map_map]
  exact h

theorem get?_ofDefinitions {ds : List Definition} (h : (ds.map (·.name)).Nodup) (name : String) :
    (ofDefinitions ds).get? name = (ds.find? (·.name == name)).map Definition.lower := by
  rw [get?, defs_ofDefinitions h, List.find?_map]
  rfl

end FunctionTable

/-- Every stream of a script's program is well nested. -/
theorem Script.wellNested_lower {s : Script} (h : (s.definitions.map (·.name)).Nodup) :
    WellNested s.lower.main ∧ ∀ f ∈ s.lower.functions.defs, WellNested f.body := by
  refine ⟨Stmt.wellNested_block s.main, ?_⟩
  intro f hf
  rw [lower, FunctionTable.defs_ofDefinitions h] at hf
  obtain ⟨d, -, rfl⟩ := List.mem_map.mp hf
  exact Stmt.wellNested_block d.body

/-- The program of a script is well formed. -/
theorem Script.verify_lower {s : Script} (h : (s.definitions.map (·.name)).Nodup) :
    s.lower.verify = .ok () := by
  obtain ⟨hmain, hbodies⟩ := wellNested_lower h
  exact Program.verify_eq_ok_iff.mpr
    ⟨hmain.verify_start _, fun f hf => (hbodies f hf).verify_start _⟩

end TokenMachine
