/-
  TokenMachine.Proofs.Stream.Verdict — the check accepts the grammar, and names the first fault.

  The check reads a stream from the left and remembers the branches that are open. What it
  has passed is a stream of the grammar cut off inside those branches (`Opened`): before each
  `if`, and in the branches after it, all is well nested. Where it stops, the next token is
  none that may follow, or the stream ends inside a branch (`Misfit`). So it accepts exactly
  the well-nested streams (`Cursor.verify_start_eq_ok_iff`), and its error is the first fault
  from the left (`Cursor.verify_start_eq_error_iff`); a program is checked stream by stream
  (`Program.verify_verdict`).
-/

import TokenMachine.Proofs.Stream.Grammar

namespace TokenMachine

/-! ## A stream cut off inside its branches -/

/-- What stands before a place where the branches `opens` are open, the innermost first. -/
inductive Opened : List OpenIf → List Token → Prop
  | outside {ts : List Token} : WellNested ts → Opened [] ts
  | inThen {opens : List OpenIf} {branch : Token} {ts thenPart : List Token} :
      Opened opens ts → branch.text = Action.branch.tag → WellNested thenPart →
      Opened (⟨branch.span, false⟩ :: opens) (ts ++ branch :: thenPart)
  | inElse {opens : List OpenIf} {branch otherwise : Token} {ts thenPart elsePart : List Token} :
      Opened opens ts → branch.text = Action.branch.tag → WellNested thenPart →
      otherwise.text = Action.otherwise.tag → WellNested elsePart →
      Opened (⟨branch.span, true⟩ :: opens)
        (ts ++ branch :: thenPart ++ otherwise :: elsePart)

namespace Opened

variable {opens opens' : List OpenIf} {ts us : List Token}

theorem append (h : Opened opens ts) (hu : WellNested us) : Opened opens (ts ++ us) := by
  cases h with
  | outside ht => exact .outside (ht.append hu)
  | inThen h hb ht => simpa using inThen h hb (ht.append hu)
  | inElse h hb ht ho he => simpa using inElse h hb ht ho (he.append hu)

/-- The `end` of the innermost branch puts the whole of it behind. -/
theorem close {o : OpenIf} {tag : Token} (h : Opened (o :: opens) ts)
    (htag : tag.text = Action.close.tag) : Opened opens (ts ++ [tag]) := by
  cases h with
  | inThen h hb ht => simpa using h.append (.ifThen hb htag ht .nil)
  | inElse h hb ht ho he => simpa using h.append (.ifElse hb ho htag ht he .nil)

/-- The `else` of the innermost branch, if it has none yet, begins its second part. -/
theorem otherwise {at_ : Span} {tag : Token} (h : Opened (⟨at_, false⟩ :: opens) ts)
    (htag : tag.text = Action.otherwise.tag) : Opened (⟨at_, true⟩ :: opens) (ts ++ [tag]) := by
  cases h with
  | inThen h hb ht => simpa using inElse h hb ht htag .nil

/-- One instruction that fits is passed over. -/
theorem fetch {c next : Cursor} {i : Instr} {tag : Token} (h : Opened opens ts)
    (hx : c.fetch = .ready i tag next) (hn : Cursor.Nests tag.span i opens opens') :
    ∃ taken, c.rest = taken ++ next.rest ∧ next.position = c.position + taken.length ∧
      Opened opens' (ts ++ taken) := by
  cases Cursor.Fetches.of_eq hx with
  | @literal _ _ _ operand _ htag =>
    cases hn
    exact ⟨[tag, operand], rfl, rfl, h.append (.literal htag .nil)⟩
  | action htag =>
    refine ⟨[tag], rfl, rfl, ?_⟩
    cases hn with
    | plain hi => exact h.append (.plain htag hi .nil)
    | branch => exact inThen h htag .nil
    | otherwise => exact h.otherwise htag
    | close => exact h.close htag

/-- The check comes through what is opened with these branches open. -/
theorem verify (h : Opened opens ts) (stream : StreamName) (rest : List Token) :
    (Cursor.start (ts ++ rest)).verify stream [] =
      Cursor.verify stream opens ⟨ts.length, rest⟩ := by
  induction h generalizing rest with
  | outside ht => simpa [Cursor.start] using ht.verify stream [] 0 rest
  | inThen _ hb ht ih =>
    rw [List.append_assoc, ih, List.cons_append, Cursor.verify_branch (Cursor.fetch_action hb),
      ht.verify]
    congr 2
    simp only [List.length_append, List.length_cons]
    omega
  | @inElse _ branch _ _ _ _ _ hb ht ho he ih =>
    rw [List.append_assoc, List.append_assoc, ih, List.cons_append,
      Cursor.verify_branch (Cursor.fetch_action hb), ht.verify, List.cons_append,
      Cursor.verify_otherwise (o := ⟨branch.span, false⟩) (Cursor.fetch_action ho), he.verify]
    congr 2
    simp only [List.length_append, List.length_cons]
    omega

end Opened

/-! ## Where the check stops -/

/-- Why no stream goes on with `rest` at this position, where the branches `opens` are open. -/
inductive Misfit (stream : StreamName) (position : Nat) (opens : List OpenIf) :
    List Token → VerifyError → Prop
  | unknown {tag : Token} {rest : List Token} :
      Opcode.ofTag? tag.text = none →
      Misfit stream position opens (tag :: rest) (.unknownOpcode tag.text position stream tag.span)
  | truncated {kind : Literal} {tag : Token} :
      tag.text = kind.tag →
      Misfit stream position opens [tag] (.missingOperand kind position stream tag.span)
  | stray (marker : Marker) {tag : Token} {rest : List Token} :
      tag.text = marker.action.tag → opens = [] →
      Misfit stream position opens (tag :: rest) (.strayMarker marker stream tag.span)
  | duplicate {tag : Token} {rest : List Token} {at_ : Span} {outer : List OpenIf} :
      tag.text = Action.otherwise.tag → opens = ⟨at_, true⟩ :: outer →
      Misfit stream position opens (tag :: rest) (.duplicateElse stream tag.span)
  | unclosed {innermost : OpenIf} {outer : List OpenIf} :
      opens = innermost :: outer →
      Misfit stream position opens [] (.unclosedIf stream innermost.span)

/-- The first fault of a stream from the left: all before it may stand there. -/
def FirstFault (stream : StreamName) (tokens : List Token) (e : VerifyError) : Prop :=
  ∃ passed rest opens, tokens = passed ++ rest ∧ Opened opens passed ∧
    Misfit stream passed.length opens rest e

/-- The open branches are at tokens passed. -/
theorem Opened.exists_mem {opens : List OpenIf} {ts : List Token} (h : Opened opens ts) :
    ∀ o ∈ opens, ∃ t ∈ ts, t.span = o.span := by
  induction h with
  | outside => exact nofun
  | @inThen _ branch _ _ _ _ _ ih =>
    refine List.forall_mem_cons.mpr ⟨⟨branch, by simp, rfl⟩, fun o ho => ?_⟩
    obtain ⟨t, ht, hspan⟩ := ih o ho
    exact ⟨t, by simp [ht], hspan⟩
  | @inElse _ branch _ _ _ _ _ _ _ _ _ ih =>
    refine List.forall_mem_cons.mpr ⟨⟨branch, by simp, rfl⟩, fun o ho => ?_⟩
    obtain ⟨t, ht, hspan⟩ := ih o ho
    exact ⟨t, by simp [ht], hspan⟩

/-- The first fault is at a token of the stream. -/
theorem FirstFault.exists_mem {stream : StreamName} {tokens : List Token} {e : VerifyError}
    (h : FirstFault stream tokens e) : ∃ t ∈ tokens, t.span = e.span := by
  obtain ⟨passed, rest, opens, rfl, hopened, hmisfit⟩ := h
  cases hmisfit with
  | @unknown tag | @truncated _ tag | @stray _ tag | @duplicate tag => exact ⟨tag, by simp, rfl⟩
  | @unclosed innermost _ hopens =>
    obtain ⟨t, ht, hspan⟩ := hopened.exists_mem innermost (hopens ▸ List.mem_cons_self)
    exact ⟨t, List.mem_append_left _ ht, hspan⟩

namespace Cursor

variable {c next : Cursor} {stream : StreamName} {opens : List OpenIf} {tag : Token}
  {tokens : List Token} {e : VerifyError}

theorem verify_unknown (h : c.fetch = .unknown tag) :
    c.verify stream opens = .error (.unknownOpcode tag.text c.position stream tag.span) := by
  rw [Cursor.verify.eq_def]
  split <;> simp_all

theorem verify_truncated {kind : Literal} (h : c.fetch = .truncated kind tag) :
    c.verify stream opens = .error (.missingOperand kind c.position stream tag.span) := by
  rw [Cursor.verify.eq_def]
  split <;> simp_all

theorem verify_stray {marker : Marker} (h : c.fetch = .ready (.action marker.action) tag next) :
    c.verify stream [] = .error (.strayMarker marker stream tag.span) := by
  rw [Cursor.verify.eq_def]
  cases marker <;> split <;> simp_all [Marker.action]

theorem verify_duplicate {at_ : Span} {outer : List OpenIf}
    (h : c.fetch = .ready (.action .otherwise) tag next) :
    c.verify stream (⟨at_, true⟩ :: outer) = .error (.duplicateElse stream tag.span) := by
  rw [Cursor.verify.eq_def]
  split <;> simp_all

theorem verify_unclosed {innermost : OpenIf} {outer : List OpenIf} (h : c.fetch = .exhausted) :
    c.verify stream (innermost :: outer) = .error (.unclosedIf stream innermost.span) := by
  rw [Cursor.verify.eq_def]
  split <;> simp_all

theorem verify_of_misfit {pos : Nat} {rest : List Token} (h : Misfit stream pos opens rest e) :
    verify stream opens ⟨pos, rest⟩ = .error e := by
  cases h with
  | unknown hop => exact verify_unknown (fetch_unknown hop)
  | truncated htag => exact verify_truncated (fetch_truncated htag)
  | stray marker htag ho => exact ho ▸ verify_stray (fetch_action htag)
  | duplicate htag ho => exact ho ▸ verify_duplicate (fetch_action htag)
  | unclosed ho => exact ho ▸ verify_unclosed (fetch_nil pos)

/-- At every place the stream ends with nothing open, or goes on with an instruction that fits,
or has a misfit. -/
theorem ends_or_nests_or_misfit (c : Cursor) (stream : StreamName) (opens : List OpenIf) :
    (c.rest = [] ∧ opens = []) ∨
      (∃ i tag next opens', c.fetch = .ready i tag next ∧ Nests tag.span i opens opens') ∨
      ∃ e, Misfit stream c.position opens c.rest e := by
  cases hx : c.fetch with
  | exhausted =>
    cases Fetches.of_eq hx
    cases opens with
    | nil => exact .inl ⟨rfl, rfl⟩
    | cons innermost outer => exact .inr (.inr ⟨_, .unclosed rfl⟩)
  | unknown tag =>
    cases Fetches.of_eq hx with
    | unknown hop => exact .inr (.inr ⟨_, .unknown hop⟩)
  | truncated kind tag =>
    cases Fetches.of_eq hx with
    | truncated htag => exact .inr (.inr ⟨_, .truncated htag⟩)
  | ready i tag next =>
    have fits {opens' : List OpenIf} (hn : Nests tag.span i opens opens') :
        ∃ i' tag' next' opens', Fetched.ready i tag next = .ready i' tag' next' ∧
          Nests tag'.span i' opens opens' := ⟨i, tag, next, opens', rfl, hn⟩
    rcases i.isPlain_or_marker with hi | rfl | rfl | rfl
    · exact .inr (.inl (fits (.plain hi)))
    · exact .inr (.inl (fits .branch))
    · cases Fetches.of_eq hx with
      | action htag =>
        rcases opens with _ | ⟨⟨at_, _ | _⟩, outer⟩
        · exact .inr (.inr ⟨_, .stray .otherwise htag rfl⟩)
        · exact .inr (.inl (fits .otherwise))
        · exact .inr (.inr ⟨_, .duplicate htag rfl⟩)
    · cases Fetches.of_eq hx with
      | action htag =>
        cases opens with
        | nil => exact .inr (.inr ⟨_, .stray .close htag rfl⟩)
        | cons o outer => exact .inr (.inl (fits .close))

/-- From wherever it has come to, the check accepts what is a stream of the grammar as a whole, and
else gives the first fault of it. -/
theorem verdict_of_opened {passed : List Token} (h : Opened opens passed)
    (hpos : c.position = passed.length) :
    (c.verify stream opens = .ok () ∧ WellNested (passed ++ c.rest)) ∨
      ∃ e, c.verify stream opens = .error e ∧ FirstFault stream (passed ++ c.rest) e := by
  -- An instruction that fits goes over from what remains to what is passed.
  induction c using fetch_induction generalizing opens passed with
  | step c ih =>
  rcases c.ends_or_nests_or_misfit stream opens with
    ⟨hrest, rfl⟩ | ⟨i, tag, next, opens', hx, hn⟩ | ⟨e, he⟩
  · refine .inl ⟨(verify_exhausted ?_).mpr rfl, ?_⟩
    · simp [fetch, next?, hrest]
    · cases h with
      | outside ht => simpa [hrest] using ht
  · obtain ⟨taken, hrest, hnext, h'⟩ := h.fetch hx hn
    have hwhole : passed ++ c.rest = (passed ++ taken) ++ next.rest := by
      rw [hrest, List.append_assoc]
    rw [verify_of_nests hx hn, hwhole]
    exact ih i tag next hx h' (by rw [hnext, hpos, List.length_append])
  · exact .inr ⟨e, verify_of_misfit he, passed, c.rest, opens, rfl, h, hpos ▸ he⟩

theorem verdict_start (stream : StreamName) (tokens : List Token) :
    ((start tokens).verify stream [] = .ok () ∧ WellNested tokens) ∨
      ∃ e, (start tokens).verify stream [] = .error e ∧ FirstFault stream tokens e :=
  verdict_of_opened (c := start tokens) (.outside .nil) rfl

/-- The check accepts exactly the well-nested streams. -/
theorem verify_start_eq_ok_iff :
    (start tokens).verify stream [] = .ok () ↔ WellNested tokens := by
  refine ⟨fun hv => ?_, fun h => h.verify_start stream⟩
  rcases verdict_start stream tokens with ⟨-, h⟩ | ⟨e, he, -⟩
  · exact h
  · rw [hv] at he
    cases he

/-- The check fails with exactly the first fault from the left. -/
theorem verify_start_eq_error_iff :
    (start tokens).verify stream [] = .error e ↔ FirstFault stream tokens e := by
  constructor
  · intro he
    rcases verdict_start stream tokens with ⟨hv, -⟩ | ⟨e', he', h⟩
    · rw [hv] at he
      cases he
    · rw [he] at he'
      cases he'
      exact h
  · rintro ⟨passed, rest, opens, rfl, hopened, hmisfit⟩
    rw [hopened.verify, verify_of_misfit hmisfit]

end Cursor

/-! ## Whole programs -/

/-- A loop of checks fails where the first of them does. -/
theorem forM_eq_error_iff {α ε : Type} {f : α → Except ε Unit} {l : List α} {e : ε} :
    l.forM f = .error e ↔
      ∃ before a after, l = before ++ a :: after ∧ (∀ b ∈ before, f b = .ok ()) ∧
        f a = .error e := by
  induction l with
  | nil =>
    constructor
    · intro h
      cases h
    · rintro ⟨before, a, after, hl, -⟩
      cases before <;> cases hl
  | cons b l ih =>
    have hcons : (b :: l).forM f = (f b >>= fun _ => l.forM f) := rfl
    rw [hcons]
    constructor
    · intro h
      cases hb : f b with
      | error e' =>
        rw [hb] at h
        cases h
        exact ⟨[], b, l, rfl, nofun, hb⟩
      | ok u =>
        rw [hb] at h
        obtain ⟨before, a, after, rfl, hbefore, ha⟩ := ih.mp h
        exact ⟨b :: before, a, after, rfl, List.forall_mem_cons.mpr ⟨hb, hbefore⟩, ha⟩
    · rintro ⟨before, a, after, hl, hbefore, ha⟩
      cases before with
      | nil =>
        cases hl
        rw [ha]
        rfl
      | cons b' before =>
        cases hl
        obtain ⟨hb, hbefore⟩ := List.forall_mem_cons.mp hbefore
        rw [hb]
        exact ih.mpr ⟨before, a, after, rfl, hbefore, ha⟩

namespace Program

def streams (p : Program) : List (StreamName × List Token) :=
  (.main, p.main) :: p.functions.sorted.map fun f => (.function f.name, f.body)

theorem verify_eq_forM_streams (p : Program) :
    p.verify = p.streams.forM fun s => (Cursor.start s.2).verify s.1 [] := by
  have hfunctions : ∀ fs : List FunctionDef,
      (fs.forM fun f => (Cursor.start f.body).verify (.function f.name) []) =
        (fs.map fun f => (StreamName.function f.name, f.body)).forM
          fun s => (Cursor.start s.2).verify s.1 [] := by
    intro fs
    induction fs with
    | nil => rfl
    | cons f fs ih => exact congrArg _ (funext fun _ => ih)
  exact congrArg _ (funext fun _ => hfunctions _)

/-- The check accepts a program exactly if its main stream and the bodies of its functions are of
the grammar. If it refuses one, the error is the first fault, from the left, of the first stream
that is not of the grammar, the main stream coming before the functions and these by their names. -/
theorem verify_verdict (p : Program) :
    (p.verify = .ok () ↔ WellNested p.main ∧ ∀ f ∈ p.functions.defs, WellNested f.body) ∧
    ∀ e, p.verify = .error e ↔ ∃ before stream tokens after,
      p.streams = before ++ (stream, tokens) :: after ∧ (∀ s ∈ before, WellNested s.2) ∧
        FirstFault stream tokens e := by
  refine ⟨?_, fun e => ?_⟩
  · simp only [verify_eq_ok_iff, Cursor.verify_start_eq_ok_iff]
  · simp only [verify_eq_forM_streams, forM_eq_error_iff, Cursor.verify_start_eq_ok_iff,
      Cursor.verify_start_eq_error_iff, Prod.exists]

end Program

end TokenMachine
