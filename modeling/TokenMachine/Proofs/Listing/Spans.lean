/-
  TokenMachine.Proofs.Listing.Spans — the words of a listing, and where they stand in it.

  In a listing of which each offset fits, each word marks the bytes that it was scanned from,
  and so does the error if there is one; a bad escape covers the backslash and the letter after
  it (`scanned_scanWords`). The tokens of a program are the words, and a block goes from one word
  to another: assembling makes no span but by merging two (`Assembly.Placed.takeWord`).
-/

import TokenMachine.Listing.Assemble
import TokenMachine.Proofs.FunctionTable
import TokenMachine.Proofs.Script.Spans

namespace TokenMachine.Listing

open Text (Remains byteLength)

/-! ## Words -/

variable {text : String} {offset stop : Nat} {cs word rest : List Char} {c : Char}

structure AssembleError.Placed (text : String) (e : AssembleError) : Prop where
  marks : e.span.Marks text
  escape : ∀ escape span, e = .invalidEscape escape span → span.Covers text ['\\', escape]

theorem QuotedWord.cons_eq_closed {w : QuotedWord} (h : w.cons c = .closed word stop rest) :
    ∃ word', w = .closed word' stop rest := by
  cases w <;> simp_all [QuotedWord.cons]

theorem QuotedWord.cons_eq_badEscape {w : QuotedWord} {bad : Text.BadEscape}
    (h : w.cons c = .badEscape bad) : w = .badEscape bad := by
  cases w <;> simp_all [QuotedWord.cons]

/-- An escape is read. -/
theorem remains_escape (h : Remains text offset ('\\' :: c :: rest)) :
    Remains text (offset + 1 + c.utf8Size) rest := by
  have hslash : '\\'.utf8Size = 1 := rfl
  exact hslash ▸ h.tail.tail

theorem remains_readQuoted (h : Remains text offset cs)
    (hw : readQuoted offset cs = .closed word stop rest) :
    offset < stop ∧ Remains text stop rest := by
  fun_induction readQuoted offset cs generalizing word with
  | case1 | case3 | case5 => cases hw
  | case2 offset rest =>
    cases hw
    exact ⟨Nat.lt_succ_self offset, h.tail⟩
  | case4 offset letter rest next =>
    rename_i ih
    obtain ⟨word', hw⟩ := QuotedWord.cons_eq_closed hw
    obtain ⟨hlt, hrest⟩ := ih (remains_escape h) hw
    exact ⟨by omega, hrest⟩
  | case6 offset c rest _ _ _ ih =>
    obtain ⟨word', hw⟩ := QuotedWord.cons_eq_closed hw
    obtain ⟨hlt, hrest⟩ := ih h.tail hw
    exact ⟨by omega, hrest⟩

theorem covers_readQuoted {bad : Text.BadEscape} (h : Remains text offset cs)
    (hsize : text.utf8ByteSize ≤ Span.maxOffset)
    (hw : readQuoted offset cs = .badEscape bad) : bad.span.Covers text ['\\', bad.letter] := by
  fun_induction readQuoted offset cs with
  | case1 | case2 | case3 => cases hw
  | case4 offset letter rest next _ _ ih =>
    exact ih (remains_escape h) (QuotedWord.cons_eq_badEscape hw)
  | case5 offset letter rest next _ =>
    cases hw
    have hcovers : Span.Covers ⟨offset, next⟩ text ['\\', letter] := by
      refine h.covers rfl ?_
      rw [Text.byteLength_escape, byteLength, Nat.add_zero, ← Nat.add_assoc]
    exact (Span.ofRange_of_covers hcovers hsize).symm ▸ hcovers
  | case6 offset c rest _ _ _ ih =>
    exact ih h.tail (QuotedWord.cons_eq_badEscape hw)

def Scanned (text : String) : Except WordError (List Word) → Prop
  | .ok words => ∀ w ∈ words, w.span.Marks text
  | .error e => (AssembleError.ofWordError e).Placed text

theorem Scanned.cons {w : Word} {x : Except WordError (List Word)} (h : Scanned text x)
    (hw : w.span.Marks text) : Scanned text (do .ok (w :: (← x))) := by
  cases x with
  | error e => exact h
  | ok words => exact List.forall_mem_cons.mpr ⟨hw, h⟩

theorem scanned_scanWords (h : Remains text offset cs)
    (hsize : text.utf8ByteSize ≤ Span.maxOffset) : Scanned text (scanWords offset cs) := by
  fun_induction scanWords offset cs with
  | case1 => exact nofun
  | case2 offset c rest _ ih => exact ih h.tail
  | case3 offset rest _ ih =>
    have hline := h.tail
    rw [← List.takeWhile_append_dropWhile (p := (· != '\n')) (l := rest)] at hline
    exact ih hline.past
  | case4 offset rest word stop rest' hword _ _ ih =>
    obtain ⟨hlt, hrest⟩ := remains_readQuoted h.tail hword
    have hspan : Span.Marks ⟨offset, stop⟩ text := Remains.marks h hrest (Nat.lt_of_succ_lt hlt)
    exact (ih hrest).cons (hspan.ofRange hsize)
  | case5 offset rest bad hword _ _ =>
    have hcovers := covers_readQuoted h.tail hsize hword
    refine ⟨hcovers.marks nofun, fun escape span heq => ?_⟩
    cases heq
    exact hcovers
  | case6 offset rest _ _ _ =>
    have hcovers : Span.Covers ⟨offset, offset + 1 + byteLength rest⟩ text ('"' :: rest) := by
      rw [← List.append_nil ('"' :: rest)] at h
      exact h.covers rfl (Nat.add_assoc ..)
    rw [Span.ofRange_of_covers hcovers hsize]
    exact ⟨hcovers.marks nofun, nofun⟩
  | case7 offset c rest _ _ _ word stop ih =>
    have hword : c :: rest = word ++ rest.dropWhile fun c => !Text.isBlank c :=
      congrArg _ List.takeWhile_append_dropWhile.symm
    rw [hword] at h
    have hcovers : Span.Covers ⟨offset, stop⟩ text word := h.covers rfl rfl
    exact (ih h.past).cons ((hcovers.marks nofun).ofRange hsize)

theorem scanned_ofListing {listing : String} (hsize : listing.utf8ByteSize ≤ Span.maxOffset) :
    Scanned listing (Word.ofListing listing) :=
  scanned_scanWords (Text.remains_start listing) hsize

/-! ## Assembling -/

variable {P : Span → Prop} {α β : Type} {Q : α → Prop} {R : β → Prop}

/-- What is made of words is such a thing, or the error is one of a block, at such a span. -/
def Assembles (P : Span → Prop) (Q : α → Prop) : Except AssembleError α → Prop
  | .ok a => Q a
  | .error e => P e.span ∧ ∀ escape span, e ≠ .invalidEscape escape span

theorem Assembles.bind {x : Except AssembleError α} {f : α → Except AssembleError β}
    (hx : Assembles P Q x) (hf : ∀ a, Q a → Assembles P R (f a)) : Assembles P R (x >>= f) := by
  cases x with
  | error e => exact hx
  | ok a => exact hf a hx

def OpenBlock.Placed (P : Span → Prop) : OpenBlock → Prop
  | .unnamed start | .inParams start _ _ => P start
  | .inBody start _ _ body => P start ∧ ∀ t ∈ body, P t.span

structure Assembly.Placed (P : Span → Prop) (a : Assembly) : Prop where
  main : ∀ t ∈ a.main, P t.span
  functions : ∀ f ∈ a.functions.defs, ∀ t ∈ f.body, P t.span
  block : ∀ block ∈ a.block, block.Placed P

namespace Assembly

variable {a : Assembly} {w : Word} {words : List Word}

theorem placed_empty : empty.Placed P := ⟨nofun, nofun, nofun⟩

theorem Placed.withBlock (h : a.Placed P) {block : OpenBlock} (hblock : block.Placed P) :
    Placed P { a with block := some block } where
  main := h.main
  functions := h.functions
  block := by
    rintro _ ⟨⟩
    exact hblock

theorem Placed.takeWord (h : a.Placed P) (hw : P w.span)
    (hmerge : ∀ s t, P s → P t → P (s.merge t)) :
    Assembles P (Placed P) (a.takeWord w) := by
  unfold Assembly.takeWord
  split
  · split
    · exact ⟨hw, nofun⟩
    · split
      · exact h.withBlock hw
      · exact ⟨List.forall_mem_cons.mpr ⟨hw, h.main⟩, h.functions, h.block⟩
  · next start hblock =>
    have hstart : P start := h.block _ hblock
    split
    · exact ⟨hstart, nofun⟩
    · exact h.withBlock hstart
  · next start name params hblock =>
    have hstart : P start := h.block _ hblock
    split
    · exact h.withBlock ⟨hstart, nofun⟩
    · split
      · exact ⟨hw, nofun⟩
      · exact h.withBlock hstart
  · next start name params body hblock =>
    have ⟨hstart, hbody⟩ : P start ∧ ∀ t ∈ body, P t.span := h.block _ hblock
    split
    · -- The function goes from its `.fn` to this word.
      split
      · next functions hdefine =>
        refine ⟨h.main, ?_, nofun⟩
        show ∀ f ∈ functions.defs, ∀ t ∈ f.body, P t.span
        rw [FunctionTable.defs_of_define hdefine]
        refine List.forall_mem_append.mpr ⟨h.functions, List.forall_mem_singleton.mpr ?_⟩
        exact fun t ht => hbody t (List.mem_reverse.mp ht)
      · next rejected hdefine =>
        rw [FunctionTable.eq_of_define hdefine]
        exact ⟨hmerge _ _ hstart hw, nofun⟩
    · split
      · exact ⟨hw, nofun⟩
      · exact h.withBlock ⟨hstart, List.forall_mem_cons.mpr ⟨hw, hbody⟩⟩

theorem Placed.foldlM (h : a.Placed P) (hwords : ∀ w ∈ words, P w.span)
    (hmerge : ∀ s t, P s → P t → P (s.merge t)) :
    Assembles P (Placed P) (words.foldlM Assembly.takeWord a) := by
  induction words generalizing a with
  | nil => exact h
  | cons w words ih =>
    obtain ⟨hw, hwords⟩ := List.forall_mem_cons.mp hwords
    rw [List.foldlM_cons]
    exact (h.takeWord hw hmerge).bind fun a' ha' => ih ha' hwords

theorem Placed.finish (h : a.Placed P) : Assembles P (Program.Placed P) a.finish := by
  unfold Assembly.finish
  split
  · exact ⟨fun t ht => h.main t (List.mem_reverse.mp ht), h.functions⟩
  · next hblock => exact ⟨h.block _ hblock, nofun⟩
  · next hblock => exact ⟨h.block _ hblock, nofun⟩
  · next hblock => exact ⟨(h.block _ hblock).1, nofun⟩

end Assembly

theorem assembles_ofWords {words : List Word} (h : ∀ w ∈ words, P w.span)
    (hmerge : ∀ s t, P s → P t → P (s.merge t)) :
    Assembles P (Program.Placed P) (ofWords words) :=
  (Assembly.placed_empty.foldlM h hmerge).bind fun _ ha => ha.finish

/-- What a listing spells is in the listing: each token of the program, or the error. -/
theorem placed_assemble {listing : String} (hsize : listing.utf8ByteSize ≤ Span.maxOffset) :
    (∀ p, assemble listing = .ok p → p.Placed (·.Marks listing)) ∧
      ∀ e, assemble listing = .error e → e.Placed listing := by
  have hscanned := scanned_ofListing hsize
  unfold assemble
  cases hwords : Word.ofListing listing with
  | error e =>
    rw [hwords] at hscanned
    refine ⟨nofun, ?_⟩
    rintro _ ⟨⟩
    exact hscanned
  | ok words =>
    rw [hwords] at hscanned
    have hassembles :
        Assembles (·.Marks listing) (Program.Placed (·.Marks listing)) (ofWords words) :=
      assembles_ofWords hscanned fun _ _ => Span.Marks.merge
    refine ⟨fun p hp => ?_, fun e he => ?_⟩
    · rw [show ofWords words = .ok p from hp] at hassembles
      exact hassembles
    · rw [show ofWords words = .error e from he] at hassembles
      exact ⟨hassembles.1, fun escape span heq => absurd heq (hassembles.2 escape span)⟩

end TokenMachine.Listing
