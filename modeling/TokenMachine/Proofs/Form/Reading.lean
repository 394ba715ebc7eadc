/-
  TokenMachine.Proofs.Form.Reading — the reader accepts the balanced texts, and loses nothing.

  The level of a list of lexemes is how many more lists it opens than it closes. A lexeme
  breaks the rules where it stands if it closes a list at level 0 or opens one at the
  greatest level, if an escape of it is bad, or if it is no lexeme of a form at all
  (`Lexeme.Breaks`).

  What is pending after some lexemes is all that there was in them: the finished forms
  and the items of each open list yield the lexemes passed, in their order
  (`Form.Pending.Holds`). One lexeme either keeps this or breaks the rules
  (`takeLexeme_eq_error_iff`, `Pending.Holds.takeLexeme`). So the forms that are read yield
  the lexemes of the text, and the error is that of the first lexeme that breaks a rule, or
  the innermost list that is open at the end (`read_verdict`).
-/

import Mathlib.Data.List.Induction
import TokenMachine.Form.Reader
import TokenMachine.Proofs.Form.Lexemes

namespace TokenMachine

/-! ## Levels -/

namespace Lexeme

variable {l : Lexeme} {ls inner after after' before before' : List Lexeme} {start stop : Span}

def rise : Lexeme → Int
  | opening _ => 1
  | closing _ => -1
  | quoted _ _ | unterminated _ | atom _ _ | stray _ _ => 0

/-- How many more lists are opened than closed. -/
def level : List Lexeme → Int
  | [] => 0
  | l :: ls => l.rise + level ls

@[simp] theorem level_nil : level [] = 0 := rfl

@[simp] theorem level_cons (l : Lexeme) (ls : List Lexeme) :
    level (l :: ls) = l.rise + level ls := rfl

@[simp] theorem level_append (ls ls' : List Lexeme) : level (ls ++ ls') = level ls + level ls' := by
  induction ls with
  | nil => rw [List.nil_append, level_nil, Int.zero_add]
  | cons l ls ih => rw [List.cons_append, level_cons, level_cons, ih, Int.add_assoc]

/-- Each closing parenthesis closes a list, and each list is closed. -/
structure Balanced (ls : List Lexeme) : Prop where
  nonneg : ∀ before, before <+: ls → 0 ≤ level before
  settled : level ls = 0

theorem balanced_nil : Balanced [] where
  nonneg before h := by
    rw [List.prefix_nil.mp h]
    exact Int.le_refl 0
  settled := rfl

theorem Balanced.cons (h : Balanced ls) (hl : l.rise = 0) : Balanced (l :: ls) where
  nonneg before hb := by
    rcases List.prefix_cons_iff.mp hb with rfl | ⟨before, rfl, hbefore⟩
    · exact Int.le_refl 0
    · have := h.nonneg before hbefore
      rw [level_cons]
      omega
  settled := by rw [level_cons, hl, h.settled, Int.add_zero]

/-- A whole list between its parentheses, before what is balanced. -/
theorem Balanced.list (hi : Balanced inner) (h : Balanced ls) :
    Balanced (.opening start :: (inner ++ .closing stop :: ls)) where
  nonneg before hb := by
    -- A prefix ends before the list, among its items, at its closing parenthesis, or after it.
    rcases List.prefix_cons_iff.mp hb with rfl | ⟨before, rfl, after, hafter⟩
    · exact Int.le_refl 0
    rw [level_cons]
    rcases List.append_eq_append_iff.mp hafter with ⟨rest, rfl, -⟩ | ⟨rest, rfl, hrest⟩
    · have := hi.nonneg before (List.prefix_append ..)
      simp only [rise]
      omega
    · rw [level_append, hi.settled]
      rcases List.append_eq_cons_iff.mp hrest.symm with ⟨rfl, -⟩ | ⟨rest, rfl, rfl⟩
      · simp [rise]
      · have := h.nonneg rest (List.prefix_append ..)
        simp only [level_cons, rise]
        omega
  settled := by
    simp only [level_cons, level_append, rise, hi.settled, h.settled]
    omega

/-- In what is balanced, no list is open before a part that is balanced and ends it. -/
theorem Balanced.not_opening (h : Balanced (before ++ .opening start :: after)) :
    ¬ Balanced after := by
  intro hafter
  have hnonneg := h.nonneg before (List.prefix_append ..)
  have hsettled := h.settled
  simp only [level_append, level_cons, rise, hafter.settled] at hsettled
  omega

/-- In what is balanced, no list is closed after a part that is balanced and begins it. -/
theorem Balanced.not_closing (h : Balanced (before ++ .closing stop :: after)) :
    ¬ Balanced before := by
  intro hbefore
  have hnonneg := h.nonneg (before ++ [.closing stop]) ⟨after, by simp⟩
  simp only [level_append, level_cons, level_nil, rise, hbefore.settled] at hnonneg
  omega

/-- There is one opening parenthesis at most after which all is balanced. -/
theorem Balanced.opening_unique {start' : Span} (h : Balanced after) (h' : Balanced after')
    (heq : before ++ .opening start :: after = before' ++ .opening start' :: after') :
    start = start' := by
  rcases List.append_eq_append_iff.mp heq with ⟨rest, -, hrest⟩ | ⟨rest, -, hrest⟩
  · rcases List.append_eq_cons_iff.mp hrest.symm with ⟨-, heq⟩ | ⟨rest, -, rfl⟩
    · cases heq
      rfl
    · exact (h.not_opening h').elim
  · rcases List.append_eq_cons_iff.mp hrest.symm with ⟨-, heq⟩ | ⟨rest, -, rfl⟩
    · cases heq
      rfl
    · exact (h'.not_opening h).elim

/-- There is one closing parenthesis at most before which all is balanced. -/
theorem Balanced.closing_unique {stop' : Span} (h : Balanced before) (h' : Balanced before')
    (heq : before ++ .closing stop :: after = before' ++ .closing stop' :: after') :
    before = before' ∧ stop = stop' ∧ after = after' := by
  rcases List.append_eq_append_iff.mp heq with ⟨rest, rfl, hrest⟩ | ⟨rest, rfl, hrest⟩
  · rcases List.append_eq_cons_iff.mp hrest.symm with ⟨rfl, hsame⟩ | ⟨rest, rfl, -⟩
    · obtain ⟨hstop, hafter⟩ := List.cons.inj hsame
      exact ⟨by simp, (closing.inj hstop).symm, hafter.symm⟩
    · exact (h'.not_closing h).elim
  · rcases List.append_eq_cons_iff.mp hrest.symm with ⟨rfl, hsame⟩ | ⟨rest, rfl, -⟩
    · obtain ⟨hstop, hafter⟩ := List.cons.inj hsame
      exact ⟨by simp, closing.inj hstop, hafter⟩
    · exact (h.not_closing h').elim

/-! ## Where the rules are broken -/

/-- Why no text goes on with this lexeme where so many lists are open, and the error for it. -/
inductive Breaks (level : Int) : Lexeme → ReadError → Prop
  | tooDeep {span : Span} :
      Form.maxNesting ≤ level → Breaks level (.opening span) (.nestingTooDeep Form.maxNesting span)
  | unopened {span : Span} : level ≤ 0 → Breaks level (.closing span) (.unexpectedCloseParen span)
  | badEscape {body : List Char} {span : Span} {bad : Text.BadEscape} :
      Text.FirstBadEscape (span.start + 1) body bad →
      Breaks level (.quoted body span) (.invalidEscape bad.letter bad.span)
  | unterminated {span : Span} : Breaks level (.unterminated span) (.unterminatedString span)
  | stray {c : Char} {span : Span} : Breaks level (.stray c span) (.unrecognizedCharacter c span)

def Unbroken (ls : List Lexeme) : Prop :=
  ∀ before l after e, ls = before ++ l :: after → ¬ Breaks (level before) l e

theorem unbroken_nil : Unbroken [] := by
  intro before l after e h
  cases before <;> cases h

theorem Unbroken.of_prefix (h : Unbroken ls) (hb : before <+: ls) : Unbroken before := by
  obtain ⟨after, rfl⟩ := hb
  rintro first l rest e rfl
  exact h first l (rest ++ after) e (by simp)

theorem unbroken_append_singleton :
    Unbroken (ls ++ [l]) ↔ Unbroken ls ∧ ∀ e, ¬ Breaks (level ls) l e := by
  constructor
  · intro h
    exact ⟨h.of_prefix (List.prefix_append ..), fun e => h ls l [] e rfl⟩
  · rintro ⟨h, hl⟩ before l' after e heq
    rcases List.eq_nil_or_concat after with rfl | ⟨after, l'', rfl⟩
    · obtain ⟨rfl, hlast⟩ := List.append_inj' heq rfl
      cases hlast
      exact hl e
    · have hsnoc : ls ++ [l] = (before ++ l' :: after) ++ [l''] := by simpa using heq
      obtain ⟨rfl, -⟩ := List.append_inj' hsnoc rfl
      exact h before l' after e rfl

/-- No list is closed that is not open, and never are too many open. -/
theorem Unbroken.level_mem (h : Unbroken ls) : 0 ≤ level ls ∧ level ls ≤ Form.maxNesting := by
  induction ls using List.reverseRecOn with
  | nil => simp
  | append_singleton ls l ih =>
    obtain ⟨h, hl⟩ := unbroken_append_singleton.mp h
    obtain ⟨hnonneg, hmax⟩ := ih h
    rw [level_append, level_cons, level_nil]
    cases l with
    | opening span =>
      have hroom : ¬ Form.maxNesting ≤ level ls := fun hfull => hl _ (.tooDeep hfull)
      simp only [rise]
      omega
    | closing span =>
      have hopen : ¬ level ls ≤ 0 := fun hnone => hl _ (.unopened hnone)
      simp only [rise]
      omega
    | quoted | unterminated | atom | stray =>
      simp only [rise]
      omega

structure Readable (ls : List Lexeme) : Prop where
  recognized : ∀ c span, .stray c span ∉ ls
  terminated : ∀ span, .unterminated span ∉ ls
  escaped : ∀ body span, .quoted body span ∈ ls → Text.Escaped (· ∈ Text.escapeLetters) body
  balanced : Balanced ls
  shallow : ∀ before, before <+: ls → level before ≤ Form.maxNesting

/-- The first fault of a text from the left: a lexeme that breaks the rules, where none before it
does; or, where none does, the innermost list that is open at the end. -/
inductive FirstFault (ls : List Lexeme) : ReadError → Prop
  | broken {before after : List Lexeme} {l : Lexeme} {e : ReadError} :
      ls = before ++ l :: after → Unbroken before → Breaks (level before) l e → FirstFault ls e
  | unclosed {before after : List Lexeme} {start : Span} :
      Unbroken ls → ls = before ++ .opening start :: after → Balanced after →
      FirstFault ls (.unclosedParen start)

theorem Readable.unbroken (h : Readable ls) : Unbroken ls := by
  rintro before l after e rfl hbreaks
  have hnext : level before + l.rise = level (before ++ [l]) := by simp
  have hprefix : before ++ [l] <+: before ++ l :: after := ⟨after, by simp⟩
  cases hbreaks with
  | tooDeep hfull =>
    have := h.shallow _ hprefix
    simp only [rise] at hnext
    omega
  | unopened hnone =>
    have := h.balanced.nonneg _ hprefix
    simp only [rise] at hnext
    omega
  | @badEscape body span bad hbad =>
    have hbody := h.escaped body span (by simp)
    exact Text.not_firstBadEscape_of_escaped hbody hbad
  | @unterminated span => exact h.terminated span (by simp)
  | @stray c span => exact h.recognized c span (by simp)

theorem Unbroken.readable {offset : Nat} (h : Unbroken ls) (hlexed : Lexed offset ls)
    (hlevel : level ls = 0) : Readable ls where
  recognized c span hmem := by
    obtain ⟨before, after, rfl⟩ := List.append_of_mem hmem
    exact h before _ after _ rfl .stray
  terminated span hmem := by
    obtain ⟨before, after, rfl⟩ := List.append_of_mem hmem
    exact h before _ after _ rfl .unterminated
  escaped body span hmem := by
    obtain ⟨before, after, rfl⟩ := List.append_of_mem hmem
    rcases Text.escaped_or_firstBadEscape (hlexed.formed _ hmem) (span.start + 1) with
      hbody | ⟨bad, hbad⟩
    · exact hbody
    · exact (h before _ after _ rfl (.badEscape hbad)).elim
  balanced := ⟨fun before hb => (h.of_prefix hb).level_mem.1, hlevel⟩
  shallow before hb := (h.of_prefix hb).level_mem.2

theorem FirstFault.not_readable {e : ReadError} (h : FirstFault ls e) : ¬ Readable ls := by
  intro hread
  cases h with
  | @broken before after l _ heq _ hbreaks => exact hread.unbroken before l after e heq hbreaks
  | unclosed _ heq hafter => exact (heq ▸ hread.balanced).not_opening hafter

end Lexeme

/-! ## What forms yield -/

namespace Form

open Lexeme (Balanced Breaks FirstFault Lexed Readable Unbroken level)

/-- The lexemes that forms were read from, in their order: an atom and a text from their own, a
list from the lexemes of its items between its parentheses, which it spans. -/
inductive Yields : List Form → List Lexeme → Prop
  | nil : Yields [] []
  | atom {chars : List Char} {span : Span} {forms : List Form} {ls : List Lexeme} :
      Yields forms ls → Yields (ofAtom chars span :: forms) (.atom chars span :: ls)
  | text {body chars : List Char} {span : Span} {forms : List Form} {ls : List Lexeme} :
      Text.decode (span.start + 1) body = .ok chars → Yields forms ls →
      Yields (.text (String.ofList chars) span :: forms) (.quoted body span :: ls)
  | list {items forms : List Form} {inner ls : List Lexeme} {start stop : Nat} :
      Yields items inner → Yields forms ls →
      Yields (.list items ⟨start, stop + 1⟩ :: forms)
        (.opening ⟨start, start + 1⟩ :: (inner ++ .closing ⟨stop, stop + 1⟩ :: ls))

variable {forms forms' items : List Form} {ls ls' : List Lexeme} {p q : Pending} {l : Lexeme}
  {e : ReadError} {offset : Nat}

theorem Yields.append (h : Yields forms ls) (h' : Yields forms' ls') :
    Yields (forms ++ forms') (ls ++ ls') := by
  induction h with
  | nil => exact h'
  | atom _ ih => exact .atom ih
  | text hdecode _ ih => exact .text hdecode ih
  | list hitems _ _ ih => simpa using Yields.list hitems ih

theorem Yields.balanced (h : Yields forms ls) : Balanced ls := by
  induction h with
  | nil => exact Lexeme.balanced_nil
  | atom _ ih => exact ih.cons rfl
  | text _ _ ih => exact ih.cons rfl
  | list _ _ ihitems ih => exact ihitems.list ih

/-- No other forms yield the same lexemes. -/
theorem Yields.unique (h : Yields forms ls) (h' : Yields forms' ls) : forms = forms' := by
  induction h generalizing forms' with
  | nil =>
    cases h'
    rfl
  | atom _ ih =>
    cases h' with
    | atom h' => rw [ih h']
  | text hdecode _ ih =>
    cases h' with
    | text hdecode' h' =>
      rw [hdecode] at hdecode'
      cases hdecode'
      rw [ih h']
  | @list items forms inner ls start stop hitems h ihitems ih =>
    generalize hwhole : Lexeme.opening ⟨start, start + 1⟩ ::
      (inner ++ Lexeme.closing ⟨stop, stop + 1⟩ :: ls) = whole at h'
    cases h' with
    | nil | atom | text => cases hwhole
    | list hitems' h' =>
      -- The items end at the one closing parenthesis before which all is balanced.
      obtain ⟨hstart, hrest⟩ := List.cons.inj hwhole
      obtain ⟨rfl, hstop, rfl⟩ := hitems.balanced.closing_unique hitems'.balanced hrest
      cases hstart
      cases hstop
      rw [ihitems hitems', ih h']

/-! ## What is pending -/

/-- What is pending holds all of these lexemes: the finished forms yield those that stand at the
top, the items of each open list those from its opening parenthesis on. -/
inductive Pending.Holds : Pending → List Lexeme → Prop
  | top {forms : List Form} {ls : List Lexeme} :
      Yields forms.reverse ls → Holds ⟨[], forms⟩ ls
  | inner {outer : List OpenList} {items forms : List Form} {start : Span}
      {ls inner : List Lexeme} :
      Holds ⟨outer, forms⟩ ls → Yields items.reverse inner →
      Holds ⟨⟨start, items⟩ :: outer, forms⟩ (ls ++ .opening start :: inner)

namespace Pending.Holds

theorem level_eq (h : p.Holds ls) : level ls = p.lists.length := by
  induction h with
  | top h => exact h.balanced.settled
  | inner _ h ih =>
    rw [Lexeme.level_append, Lexeme.level_cons, ih, h.balanced.settled]
    simp [Lexeme.rise]

theorem add (h : p.Holds ls) {form : Form} (hf : Yields [form] ls') :
    (p.add form).Holds (ls ++ ls') := by
  cases h with
  | top h =>
    refine .top ?_
    rw [List.reverse_cons]
    exact h.append hf
  | inner ho h =>
    rw [List.append_assoc, List.cons_append]
    refine .inner ho ?_
    rw [List.reverse_cons]
    exact h.append hf

/-- The closing parenthesis of the innermost list makes a form of it. -/
theorem close {outer : List OpenList} {start span : Span}
    (h : Holds ⟨⟨start, items⟩ :: outer, forms⟩ ls)
    (hlexed : Lexed offset (ls ++ [.closing span])) :
    (Pending.add ⟨outer, forms⟩ (.list items.reverse (start.merge span))).Holds
      (ls ++ [.closing span]) := by
  cases h with
  | @inner _ _ _ _ ls inner ho h =>
    -- The parentheses stand in order, so their spans merged are all from the one to the other.
    obtain ⟨start, stop⟩ := start
    obtain ⟨start', stop'⟩ := span
    obtain rfl : stop = start + 1 := hlexed.formed (.opening ⟨start, stop⟩) (by simp)
    obtain rfl : stop' = start' + 1 := hlexed.formed (.closing ⟨start', stop'⟩) (by simp)
    have hle : start + 1 ≤ start' :=
      (List.pairwise_append.mp hlexed.ordered).2.2 (.opening ⟨start, start + 1⟩) (by simp)
        (.closing ⟨start', start' + 1⟩) (by simp)
    have hmerge : Span.merge ⟨start, start + 1⟩ ⟨start', start' + 1⟩ = ⟨start, start' + 1⟩ := by
      simp only [Span.merge, Span.mk.injEq]
      omega
    rw [hmerge, List.append_assoc]
    exact ho.add (.list h .nil)

theorem takeLexeme (h : p.Holds ls) (hlexed : Lexed offset (ls ++ [l]))
    (ht : takeLexeme p l = .ok q) : q.Holds (ls ++ [l]) := by
  cases l with
  | opening span =>
    rw [Form.takeLexeme] at ht
    split at ht
    · cases ht
    · cases ht
      exact .inner h .nil
  | closing span =>
    obtain ⟨lists, forms⟩ := p
    cases lists with
    | nil => cases ht
    | cons innermost outer =>
      cases ht
      exact h.close hlexed
  | quoted body span =>
    rw [Form.takeLexeme] at ht
    split at ht
    · next chars hdecode =>
      cases ht
      exact h.add (.text hdecode .nil)
    · cases ht
  | atom chars span =>
    cases ht
    exact h.add (.atom .nil)
  | unterminated | stray => cases ht

end Pending.Holds

/-- A lexeme is refused exactly if it breaks the rules where it stands. -/
theorem takeLexeme_eq_error_iff (h : p.Holds ls) :
    takeLexeme p l = .error e ↔ Breaks (level ls) l e := by
  have hlevel := h.level_eq
  constructor
  · intro ht
    cases l with
    | opening span =>
      rw [takeLexeme] at ht
      split at ht
      · next hfull =>
        cases ht
        exact .tooDeep (by omega)
      · cases ht
    | closing span =>
      rw [takeLexeme] at ht
      split at ht
      · next hnone =>
        cases ht
        exact .unopened (by simp [hlevel, hnone])
      · cases ht
    | quoted body span =>
      rw [takeLexeme] at ht
      split at ht
      · cases ht
      · next bad hdecode =>
        cases ht
        exact .badEscape (Text.decode_eq_error_iff.mp hdecode)
    | atom => cases ht
    | unterminated span =>
      cases ht
      exact .unterminated
    | stray c span =>
      cases ht
      exact .stray
  · intro hbreaks
    cases hbreaks with
    | tooDeep hfull =>
      have : maxNesting ≤ p.lists.length := by omega
      rw [takeLexeme, if_pos this]
    | unopened hnone =>
      have : p.lists = [] := List.eq_nil_of_length_eq_zero (by omega)
      rw [takeLexeme, this]
    | badEscape hbad => rw [takeLexeme, Text.decode_eq_error_iff.mpr hbad]
    | unterminated | stray => rfl

/-! ## Reading -/

/-- All lexemes are taken and are pending then, or the first that breaks the rules is refused. -/
theorem foldlM_takeLexeme (hlexed : Lexed offset ls) :
    (∃ p, ls.foldlM takeLexeme .empty = .ok p ∧ p.Holds ls ∧ Unbroken ls) ∨
      ∃ before l after e, ls = before ++ l :: after ∧ Unbroken before ∧ Breaks (level before) l e ∧
        ls.foldlM takeLexeme .empty = .error e := by
  -- By the last lexeme: what is pending before it holds all the others.
  induction ls using List.reverseRecOn with
  | nil => exact .inl ⟨.empty, rfl, .top .nil, Lexeme.unbroken_nil⟩
  | append_singleton ls l ih =>
    rcases ih hlexed.of_append with ⟨p, hp, hholds, hunbroken⟩ | ⟨before, l', after, e, rfl, h⟩
    · have hstep : (ls ++ [l]).foldlM takeLexeme .empty = takeLexeme p l := by
        rw [List.foldlM_append, hp]
        exact bind_pure (takeLexeme p l)
      rw [hstep]
      cases ht : takeLexeme p l with
      | ok q =>
        refine .inl ⟨q, rfl, hholds.takeLexeme hlexed ht, ?_⟩
        refine Lexeme.unbroken_append_singleton.mpr ⟨hunbroken, fun e hbreaks => ?_⟩
        rw [(takeLexeme_eq_error_iff hholds).mpr hbreaks] at ht
        cases ht
      | error e =>
        have hbreaks := (takeLexeme_eq_error_iff hholds).mp ht
        exact .inr ⟨ls, l, [], e, rfl, hunbroken, hbreaks, rfl⟩
    · obtain ⟨hunbroken, hbreaks, he⟩ := h
      refine .inr ⟨before, l', after ++ [l], e, by simp, hunbroken, hbreaks, ?_⟩
      rw [List.foldlM_append, he]
      rfl

theorem exists_holds (hlexed : Lexed offset ls) (h : Unbroken ls) :
    ∃ p, ls.foldlM takeLexeme .empty = .ok p ∧ p.Holds ls := by
  rcases foldlM_takeLexeme hlexed with
    ⟨p, hp, hholds, -⟩ | ⟨before, l, after, e, heq, -, hbreaks, -⟩
  · exact ⟨p, hp, hholds⟩
  · exact (h before l after e heq hbreaks).elim

/-- What is read yields the lexemes, and an error is the first fault in them. -/
theorem ofLexemes_sound (hlexed : Lexed offset ls) :
    match ofLexemes ls with
    | .ok forms => Readable ls ∧ Yields forms ls
    | .error e => FirstFault ls e := by
  rcases foldlM_takeLexeme hlexed with
    ⟨p, hp, hholds, hunbroken⟩ | ⟨before, l, after, e, heq, hunbroken, hbreaks, he⟩
  · rw [ofLexemes, hp]
    cases hholds with
    | top h => exact ⟨hunbroken.readable hlexed h.balanced.settled, h⟩
    | inner _ h => exact .unclosed hunbroken rfl h.balanced
  · rw [ofLexemes, he]
    exact .broken heq hunbroken hbreaks

/-- Whatever the first fault is, it is the error. -/
theorem ofLexemes_of_firstFault (hlexed : Lexed offset ls) (h : FirstFault ls e) :
    ofLexemes ls = .error e := by
  cases h with
  | @broken before after l _ heq hunbroken hbreaks =>
    subst heq
    obtain ⟨p, hp, hholds⟩ := exists_holds hlexed.of_append hunbroken
    have ht := (takeLexeme_eq_error_iff hholds).mpr hbreaks
    rw [ofLexemes, List.foldlM_append, hp]
    simp only [bind, Except.bind, List.foldlM_cons, ht]
  | unclosed hunbroken heq hafter =>
    obtain ⟨p, hp, hholds⟩ := exists_holds hlexed hunbroken
    rw [ofLexemes, hp]
    cases hholds with
    | top h => exact ((heq ▸ h.balanced).not_opening hafter).elim
    | inner _ h =>
      rw [h.balanced.opening_unique hafter heq]
      rfl

/-- A text of which each offset fits can be read exactly if each character is recognized and each
quoted text is terminated and has the five escapes only, if the parentheses are balanced, and never
are more lists open than the greatest nesting. The forms that are read then are those, and the only
ones, that yield the lexemes of the text. Otherwise the error is the first fault from the left. -/
theorem read_verdict (source : String) (hsize : source.utf8ByteSize ≤ Span.maxOffset) :
    ((∃ forms, read source = .ok forms) ↔ Readable (Lexeme.ofSource source)) ∧
    (∀ forms, read source = .ok forms ↔
      Readable (Lexeme.ofSource source) ∧ Yields forms (Lexeme.ofSource source)) ∧
    ∀ e, read source = .error e ↔ FirstFault (Lexeme.ofSource source) e := by
  have hlexed := Lexeme.lexed_ofSource hsize
  have hsound := ofLexemes_sound hlexed
  have hok {forms : List Form} (h : read source = .ok forms) :
      Readable (Lexeme.ofSource source) ∧ Yields forms (Lexeme.ofSource source) := by
    rwa [← read, h] at hsound
  have herror {e : ReadError} (h : read source = .error e) :
      FirstFault (Lexeme.ofSource source) e := by
    rwa [← read, h] at hsound
  have hread (h : Readable (Lexeme.ofSource source)) : ∃ forms, read source = .ok forms := by
    cases hr : read source with
    | ok forms => exact ⟨forms, rfl⟩
    | error e => exact ((herror hr).not_readable h).elim
  refine ⟨⟨fun ⟨_, h⟩ => (hok h).1, hread⟩, fun forms => ⟨hok, ?_⟩, fun e => ⟨herror, ?_⟩⟩
  · rintro ⟨h, hyields⟩
    obtain ⟨forms', hr⟩ := hread h
    rw [hr, (hok hr).2.unique hyields]
  · exact ofLexemes_of_firstFault hlexed

/-- A list in a list, before a comment that opens none; and a text with two lists left open, of
which the innermost is the error. -/
theorem read_verdict_openLists :
    let source := "(a (\"é\\n\")) ; ("
    let opened := "(a (b) (c"
    read source = .ok [.list [.symbol "a" ⟨1, 2⟩, .list [.text "é\n" ⟨4, 10⟩] ⟨3, 11⟩] ⟨0, 12⟩] ∧
      Readable (Lexeme.ofSource source) ∧
      read opened = .error (.unclosedParen ⟨7, 8⟩) ∧
      FirstFault (Lexeme.ofSource opened) (.unclosedParen ⟨7, 8⟩) := by
  intro source opened
  have hread : read source =
      .ok [.list [.symbol "a" ⟨1, 2⟩, .list [.text "é\n" ⟨4, 10⟩] ⟨3, 11⟩] ⟨0, 12⟩] := by
    have hlexemes : Lexeme.ofSource source = [.opening ⟨0, 1⟩, .atom ['a'] ⟨1, 2⟩,
        .opening ⟨3, 4⟩, .quoted ['é', '\\', 'n'] ⟨4, 10⟩, .closing ⟨10, 11⟩,
        .closing ⟨11, 12⟩] := by decide +kernel
    rw [read, hlexemes]
    rfl
  have herror : read opened = .error (.unclosedParen ⟨7, 8⟩) := by
    have hlexemes : Lexeme.ofSource opened = [.opening ⟨0, 1⟩, .atom ['a'] ⟨1, 2⟩,
        .opening ⟨3, 4⟩, .atom ['b'] ⟨4, 5⟩, .closing ⟨5, 6⟩, .opening ⟨7, 8⟩,
        .atom ['c'] ⟨8, 9⟩] := by decide +kernel
    rw [read, hlexemes]
    rfl
  have hsize : source.utf8ByteSize ≤ Span.maxOffset := by decide +kernel
  have hsize' : opened.utf8ByteSize ≤ Span.maxOffset := by decide +kernel
  exact ⟨hread, (read_verdict source hsize).1.mp ⟨_, hread⟩, herror,
    ((read_verdict opened hsize').2.2 _).mp herror⟩

end Form

end TokenMachine
