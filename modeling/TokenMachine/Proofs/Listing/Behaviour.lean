/-
  TokenMachine.Proofs.Listing.Behaviour — the program that a listing keeps.

  A source text's program, written as a listing, is read back as a program of the same text
  (`Listing.assemble_of_scans`). The check of listings accepts it, as it accepts every lowered
  script, and it runs like the one that was written: a run does not look at spans
  (`Program.SameText.run`). So writing and running a listing is running the source
  (`ofListing_render_run`).
-/

import TokenMachine.Proofs.Listing.RoundTrip
import TokenMachine.Proofs.Machine.Spelling
import TokenMachine.Proofs.Source

namespace TokenMachine.Program

variable {p q : Program}

theorem ofListing_eq_ok_iff {listing : String} :
    ofListing listing = .ok q ↔ Listing.assemble listing = .ok q ∧ q.verify = .ok () := by
  constructor
  · intro h
    obtain ⟨q', hq, h⟩ := State.bind_eq_ok.mp h
    obtain ⟨u, hu, hret⟩ := State.bind_eq_ok.mp h
    cases hret
    exact ⟨mapError_eq_ok.mp hq, mapError_eq_ok.mp hu⟩
  · rintro ⟨hq, hv⟩
    refine State.bind_eq_ok.mpr ⟨q, mapError_eq_ok.mpr hq, ?_⟩
    exact State.bind_eq_ok.mpr ⟨(), mapError_eq_ok.mpr hv, rfl⟩

/-- The listing of a source text's program is accepted. What it is read back as runs like that
program at every limit on open calls: it prints the same lines, and ends with the same stack and
counters or in an error that differs in spans alone. -/
theorem ofListing_render_run {source : String} (h : ofSource source = .ok p) :
    ∃ q, ofListing (Listing.render p) = .ok q ∧ ∀ config,
      (q.run config).printed = (p.run config).printed ∧
      (q.run config).result.mapError RunError.spelling =
        (p.run config).result.mapError RunError.spelling := by
  obtain ⟨forms, hforms, -⟩ := ofForms_of_ofSource h
  have hv : p.verify = .ok () := verify_of_ofForms hforms
  obtain ⟨q, hq, hsame⟩ := Listing.assemble_of_scans (Listing.scans_render p)
  exact ⟨q, ofListing_eq_ok_iff.mpr ⟨hq, hsame.verify hv⟩, fun config => hsame.symm.run config⟩

/-- Its functions are not in the order of their names, and it fails in a call in a call. -/
def shoutsSource : String :=
  "(fn shout (s) (print \"a b\\n\") (print t)) (fn again () (shout true)) (again)"

def shouts : Program where
  main := [⟨"ident", ⟨69, 74⟩⟩, ⟨"again", ⟨69, 74⟩⟩, ⟨"call", ⟨68, 75⟩⟩]
  functions := ⟨[
    ⟨"shout", ["s"],
      [⟨"string", ⟨21, 28⟩⟩, ⟨"a b\n", ⟨21, 28⟩⟩, ⟨"print", ⟨14, 29⟩⟩, ⟨"ident", ⟨37, 38⟩⟩,
        ⟨"t", ⟨37, 38⟩⟩, ⟨"var", ⟨37, 38⟩⟩, ⟨"print", ⟨30, 39⟩⟩], ⟨0, 40⟩⟩,
    ⟨"again", [],
      [⟨"bool", ⟨61, 65⟩⟩, ⟨"true", ⟨61, 65⟩⟩, ⟨"ident", ⟨55, 60⟩⟩, ⟨"shout", ⟨55, 60⟩⟩,
        ⟨"call", ⟨54, 66⟩⟩], ⟨41, 67⟩⟩], by simp⟩

theorem shouts_render_run :
    ofSource shoutsSource = .ok shouts ∧
    ∃ q, ofListing (Listing.render shouts) = .ok q ∧ (q.run ⟨2⟩).printed = ["a b\n"] ∧
      (q.run ⟨2⟩).result.mapError RunError.spelling =
        .error (.unboundName "t", 5, some "var", ["shout", "again"]) := by
  have hp : ofSource shoutsSource = .ok shouts := by decide +kernel
  have hrun : shouts.run ⟨2⟩ = ⟨["a b\n"], .error ⟨.unboundName "t", 5, some "var",
      some ⟨37, 38⟩, [⟨"shout", ⟨54, 66⟩⟩, ⟨"again", ⟨68, 75⟩⟩]⟩⟩ := by cbv
  obtain ⟨q, hq, hsame⟩ := ofListing_render_run hp
  obtain ⟨hprinted, hresult⟩ := hsame ⟨2⟩
  rw [hrun] at hprinted hresult
  exact ⟨hp, q, hq, hprinted, hresult⟩

end TokenMachine.Program
