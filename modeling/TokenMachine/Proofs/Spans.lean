/-
  TokenMachine.Proofs.Spans — what is said of a text is said of places in it.

  The tokens of a program and the errors of every phase before it runs are at spans of the
  text that it comes from. A checked program fails only at a token of one of its streams, and
  its open calls were made at such tokens; so an error of a run has a place in the text as
  well, and so has each call of its backtrace (`Program.Placed.of_run`). All phases together:
  `Program.spans_in_text`.
-/

import TokenMachine.Proofs.Listing.Spans
import TokenMachine.Proofs.Machine.Location
import TokenMachine.Proofs.Machine.Structure
import TokenMachine.Proofs.Source
import TokenMachine.Proofs.Stream.Verdict

namespace TokenMachine

variable {text : String} {p : Program} {P : Span → Prop}

/-! ## Errors -/

namespace PipelineError

def spans : PipelineError → List Span
  | read e => [e.span]
  | compile e => e.spans
  | assemble e => [e.span]
  | verify e => [e.span]
  | run e => e.span.toList ++ e.backtrace.map (·.span)

def badEscape? : PipelineError → Option Text.BadEscape
  | read (.invalidEscape letter span) | assemble (.invalidEscape letter span) =>
    some ⟨letter, span⟩
  | _ => none

structure Placed (text : String) (e : PipelineError) : Prop where
  marks : ∀ span ∈ e.spans, span.Marks text
  escape : ∀ bad, e.badEscape? = some bad → bad.span.Covers text ['\\', bad.letter]

theorem Placed.read {e : ReadError} (h : e.Placed text) : (PipelineError.read e).Placed text := by
  refine ⟨List.forall_mem_singleton.mpr h.marks, fun bad hbad => ?_⟩
  cases e <;> cases hbad
  exact h.escape _ _ rfl

theorem Placed.assemble {e : Listing.AssembleError} (h : e.Placed text) :
    (PipelineError.assemble e).Placed text := by
  refine ⟨List.forall_mem_singleton.mpr h.marks, fun bad hbad => ?_⟩
  cases e <;> cases hbad
  exact h.escape _ _ rfl

theorem Placed.compile {e : CompileError} (h : ∀ span ∈ e.spans, span.Marks text) :
    (PipelineError.compile e).Placed text := ⟨h, nofun⟩

end PipelineError

/-- The check names a token of the program. -/
theorem Program.Placed.verify {e : VerifyError} (h : p.Placed P) (he : p.verify = .error e) :
    P e.span := by
  rw [verify_eq_forM_streams, forM_eq_error_iff] at he
  obtain ⟨before, ⟨stream, tokens⟩, after, hstreams, -, he⟩ := he
  obtain ⟨t, ht, hspan⟩ := (Cursor.verify_start_eq_error_iff.mp he).exists_mem
  have hmem : (stream, tokens) ∈ p.streams := hstreams ▸ List.mem_append_right _ List.mem_cons_self
  rw [← hspan]
  rcases List.mem_cons.mp hmem with hmain | hfunction
  · cases hmain
    exact h.1 t ht
  · obtain ⟨f, hf, heq⟩ := List.mem_map.mp hfunction
    cases heq
    exact h.2 f (FunctionTable.mem_sorted.mp hf) t ht

/-! ## Runs -/

namespace Program

theorem Placed.streamOf (h : p.Placed P) (calls : Backtrace) :
    ∀ t ∈ p.streamOf calls, P t.span := by
  cases calls with
  | nil => exact h.1
  | cons site outer =>
    cases hf : p.functions.get? site.function with
    | none => simp [Program.streamOf, hf]
    | some f =>
      rw [streamOf_cons hf]
      exact h.2 f (FunctionTable.get?_eq_some_iff.mp hf).1

/-- The open calls were made at tokens of the program. -/
theorem Placed.chained (h : p.Placed P) {calls : Backtrace} (hc : p.Chained calls) :
    ∀ call ∈ calls, P call.span := by
  induction calls with
  | nil => exact nofun
  | cons site outer ih =>
    obtain ⟨-, ⟨tag, htag, -, hspan⟩, houter⟩ := hc
    exact List.forall_mem_cons.mpr ⟨hspan ▸ h.streamOf outer tag htag, ih houter⟩

/-- The failure of a checked program is at one of its tokens, and so are the open calls. -/
theorem Placed.of_run (h : p.Placed (·.Marks text)) (hverify : p.verify = .ok ()) {config : Config}
    {e : RunError} (he : (p.run config).result = .error e) :
    (∃ span, e.span = some span ∧ span.Marks text) ∧
      ∀ call ∈ e.backtrace, call.span.Marks text := by
  obtain ⟨s, hs, hfail⟩ := exists_failed_of_run he
  have hlocated := located_of_reachable hs
  have hfails := State.step_eq_failed_iff.mp hfail
  have hback : e.backtrace = s.frames.backtrace := by cases hfails <;> rfl
  refine ⟨?_, h.chained (hback ▸ hlocated.chain)⟩
  cases hfails.pointsInto hlocated with
  | @token tag hget _ hspan =>
    have hmarks := h.streamOf e.backtrace tag (List.mem_of_getElem? hget)
    rw [if_neg hmarks.ne_dummy] at hspan
    exact ⟨tag.span, hspan, hmarks⟩
  | ending _ _ _ hfault =>
    have hnot := State.not_structural_of_failed (checked_of_reachable hverify hs) hfail
    rw [hfault] at hnot
    cases hnot

end Program

/-- An error that has a place, as all its calls have, is told by labels alone. -/
theorem RunError.labels_of_placed {e : RunError} {span : Span} (hspan : e.span = some span)
    (hcalls : ∀ call ∈ e.backtrace, call.span ≠ .dummy) :
    e.toDiagnostic.labels.length = 1 + e.backtrace.length ∧ e.toDiagnostic.notes = [] := by
  have hplaced : e.backtrace.partition (·.span = .dummy) = ([], e.backtrace) := by
    rw [List.partition_eq_filter_filter, Prod.mk.injEq]
    refine ⟨List.filter_eq_nil_iff.mpr ?_, List.filter_eq_self.mpr ?_⟩
    · intro call hcall
      simpa using hcalls call hcall
    · intro call hcall
      simpa using hcalls call hcall
  unfold toDiagnostic
  rw [hplaced, hspan]
  simp [Nat.add_comm]

/-! ## Texts -/

namespace Program

/-- What became of a text is in the text: the error, or the program with every error of every run
of it, which is told by a label for its token and one for each open call. -/
def PlacedIn (text : String) (x : Except PipelineError Program) : Prop :=
  (∀ e, x = .error e → e.Placed text) ∧
    ∀ p, x = .ok p → p.Placed (·.Marks text) ∧
      ∀ config e, (p.run config).result = .error e →
        (PipelineError.run e).Placed text ∧ e.span.isSome ∧
        (∀ call ∈ e.backtrace, call.span ≠ .dummy) ∧
        e.toDiagnostic.labels.length = 1 + e.backtrace.length ∧ e.toDiagnostic.notes = []

theorem placedIn_ok (h : p.Placed (·.Marks text)) (hverify : p.verify = .ok ()) :
    PlacedIn text (.ok p) := by
  refine ⟨nofun, ?_⟩
  rintro _ ⟨⟩
  refine ⟨h, fun config e he => ?_⟩
  obtain ⟨⟨span, hspan, hmarks⟩, hcalls⟩ := h.of_run hverify he
  have hknown : ∀ call ∈ e.backtrace, call.span ≠ .dummy := fun call hcall =>
    (hcalls call hcall).ne_dummy
  refine ⟨⟨?_, nofun⟩, by rw [hspan]; rfl, hknown, RunError.labels_of_placed hspan hknown⟩
  simp only [PipelineError.spans, hspan, Option.toList_some, List.forall_mem_append,
    List.forall_mem_singleton, List.forall_mem_map]
  exact ⟨hmarks, hcalls⟩

theorem placedIn_error {e : PipelineError} (h : e.Placed text) : PlacedIn text (.error e) := by
  refine ⟨?_, nofun⟩
  rintro _ ⟨⟩
  exact h

theorem placedIn_ofSource {source : String} (hsize : source.utf8ByteSize ≤ Span.maxOffset) :
    PlacedIn source (ofSource source) := by
  unfold ofSource
  cases hread : Form.read source with
  | error e => exact placedIn_error (.read (Form.placed_of_read_error hsize hread))
  | ok forms =>
    have hforms := Form.placed_desugarItems (fun _ _ => Span.Marks.merge)
      (Form.placed_of_read hsize hread)
    show PlacedIn source ((ofForms (Form.desugarItems forms)).mapError .compile)
    cases hp : ofForms (Form.desugarItems forms) with
    | error e => exact placedIn_error (.compile (errsAt_ofForms hforms e hp))
    | ok p => exact placedIn_ok (placed_of_ofForms hp hforms) (verify_of_ofForms hp)

theorem placedIn_ofListing {listing : String} (hsize : listing.utf8ByteSize ≤ Span.maxOffset) :
    PlacedIn listing (ofListing listing) := by
  obtain ⟨hok, herror⟩ := Listing.placed_assemble hsize
  unfold ofListing
  cases hp : Listing.assemble listing with
  | error e => exact placedIn_error (.assemble (herror e hp))
  | ok p =>
    have hplaced := hok p hp
    show PlacedIn listing (do p.verify.mapError .verify; .ok p)
    cases hverify : p.verify with
    | error e =>
      exact placedIn_error ⟨List.forall_mem_singleton.mpr (hplaced.verify hverify), nofun⟩
    | ok u => exact placedIn_ok hplaced hverify

/-- All spans are good places in a text of which each offset fits. Of a source text that is refused,
and of a listing, each span of the error begins and ends between characters, and that of a bad
escape is just the backslash and the letter. Of a program each token has such a span. So in every
run each error has one, as each call of its backtrace has, and all are labels of its diagnostic. -/
theorem spans_in_text {text : String} (hsize : text.utf8ByteSize ≤ Span.maxOffset) :
    PlacedIn text (ofSource text) ∧ PlacedIn text (ofListing text) :=
  ⟨placedIn_ofSource hsize, placedIn_ofListing hsize⟩

/-- The program of `(fn f () (return ü)) (f)`. -/
def returnsUnbound : Program where
  main := [⟨"ident", ⟨23, 24⟩⟩, ⟨"f", ⟨23, 24⟩⟩, ⟨"call", ⟨22, 25⟩⟩]
  functions := ⟨[⟨"f", [], [⟨"ident", ⟨17, 19⟩⟩, ⟨"ü", ⟨17, 19⟩⟩, ⟨"var", ⟨17, 19⟩⟩,
    ⟨"return", ⟨9, 20⟩⟩], ⟨0, 21⟩⟩], by simp⟩

/-- Two bytes of `é` are before the escape, and the unbound name takes two. -/
theorem spans_in_text_multibyte :
    ofSource "(print \"é\\q\")" = .error (.read (.invalidEscape 'q' ⟨10, 12⟩)) ∧
      Span.Covers ⟨10, 12⟩ "(print \"é\\q\")" ['\\', 'q'] ∧
      ofSource "(fn f () (return ü)) (f)" = .ok returnsUnbound ∧
      (returnsUnbound.run ⟨1⟩).result =
        .error ⟨.unboundName "ü", 2, some "var", some ⟨17, 19⟩, [⟨"f", ⟨22, 25⟩⟩]⟩ ∧
      Span.Marks ⟨17, 19⟩ "(fn f () (return ü)) (f)" := by
  have hbad : ofSource "(print \"é\\q\")" = .error (.read (.invalidEscape 'q' ⟨10, 12⟩)) := by
    decide +kernel
  have hp : ofSource "(fn f () (return ü)) (f)" = .ok returnsUnbound := by decide +kernel
  have he : (returnsUnbound.run ⟨1⟩).result =
      .error ⟨.unboundName "ü", 2, some "var", some ⟨17, 19⟩, [⟨"f", ⟨22, 25⟩⟩]⟩ := by cbv
  have hsize : "(print \"é\\q\")".utf8ByteSize ≤ Span.maxOffset := by decide +kernel
  have hsize' : "(fn f () (return ü)) (f)".utf8ByteSize ≤ Span.maxOffset := by decide +kernel
  have hescape := ((spans_in_text hsize).1.1 _ hbad).escape _ rfl
  obtain ⟨hplaced, -⟩ := ((spans_in_text hsize').1.2 _ hp).2 ⟨1⟩ _ he
  exact ⟨hbad, hescape, hp, he, hplaced.marks _ (by simp [PipelineError.spans])⟩

end Program

end TokenMachine
