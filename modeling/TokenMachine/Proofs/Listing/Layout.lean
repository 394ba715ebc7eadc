/-
  TokenMachine.Proofs.Listing.Layout — the layout of a listing carries no meaning.

  A text lays words out if it is their written forms, in order, with gaps of white space and
  comments before, between and after them (`Lays`). The scanner passes a gap, and takes a form
  for its word. So it returns the words of the layout, each at the bytes of its form if all
  offsets fit (`scanWords_of_lays`); past the largest one there are no places to tell words apart
  (`ofListing_past_maxOffset`). And whatever it passes or takes at once is the beginning of a layout
  (`exists_begins`), so only a layout is scanned to words at all (`exists_ofListing_iff`).

  Assembling moves spans about and never looks at them: to forget the spans of what was read and
  of a word commutes with taking the word (`Assembly.takeWord_unplaced`). So a listing assembles,
  but for spans, to what its words alone say (`assemble_of_lays`); two layouts of the same words
  differ in spans only (`ofListing_of_lays`).
-/

import TokenMachine.Listing.Assemble
import TokenMachine.Proofs.Listing.Scan
import TokenMachine.Proofs.Listing.Spans

namespace TokenMachine

/-! ## Forgetting spans -/

def Token.unplaced (t : Token) : Token := ⟨t.text, .dummy⟩

def FunctionDef.unplaced (f : FunctionDef) : FunctionDef :=
  { f with body := f.body.map Token.unplaced, span := .dummy }

namespace FunctionTable

theorem names_unplaced (t : FunctionTable) :
    (t.defs.map FunctionDef.unplaced).map (·.name) = t.defs.map (·.name) := by
  rw [List.map_map]
  rfl

def unplaced (t : FunctionTable) : FunctionTable :=
  ⟨t.defs.map FunctionDef.unplaced, t.names_unplaced ▸ t.distinct⟩

theorem contains_unplaced (t : FunctionTable) (name : String) :
    t.unplaced.contains name = t.contains name := by
  rw [Bool.eq_iff_iff, contains_iff, contains_iff, unplaced, names_unplaced]

theorem define_unplaced (t : FunctionTable) (f : FunctionDef) :
    t.unplaced.define f.unplaced =
      ((t.define f).map FunctionTable.unplaced).mapError FunctionDef.unplaced := by
  have hname : t.unplaced.contains f.unplaced.name = t.contains f.name := contains_unplaced t f.name
  unfold define
  by_cases h : t.contains f.name = true
  · rw [dif_pos h, dif_pos (hname.trans h)]
    rfl
  · rw [dif_neg h, dif_neg (hname ▸ h)]
    simp [unplaced, Except.map, Except.mapError]

end FunctionTable

def Program.unplaced (p : Program) : Program :=
  ⟨p.main.map Token.unplaced, p.functions.unplaced⟩

namespace Listing

open Text (byteLength isBlank Remains)

def Word.unplaced (w : Word) : Word := { w with span := .dummy }

def AssembleError.unplaced : AssembleError → AssembleError
  | unterminatedQuote _ => unterminatedQuote .dummy
  | invalidEscape escape _ => invalidEscape escape .dummy
  | malformedFunction fault _ => malformedFunction fault .dummy
  | duplicateFunction name _ => duplicateFunction name .dummy

def OpenBlock.unplaced : OpenBlock → OpenBlock
  | unnamed _ => unnamed .dummy
  | inParams _ name params => inParams .dummy name params
  | inBody _ name params body => inBody .dummy name params (body.map Token.unplaced)

def Assembly.unplaced (a : Assembly) : Assembly :=
  ⟨a.main.map Token.unplaced, a.functions.unplaced, a.block.map OpenBlock.unplaced⟩

variable {α β : Type}

/-- What is made of words, without spans: of a result `f` forgets them. -/
def unplacedBy (f : α → β) (x : Except AssembleError α) : Except AssembleError β :=
  (x.map f).mapError AssembleError.unplaced

theorem unplacedBy_bind {γ δ : Type} {f : α → γ} {g : β → δ} {k : α → Except AssembleError β}
    {k' : γ → Except AssembleError δ} (h : ∀ a, k' (f a) = unplacedBy g (k a))
    (x : Except AssembleError α) : (unplacedBy f x >>= k') = unplacedBy g (x >>= k) := by
  cases x with
  | error e => rfl
  | ok a => exact h a

/-! ## Assembling does not look at spans -/

theorem Word.isDirective_unplaced (w : Word) (directive : String) :
    w.unplaced.isDirective directive = w.isDirective directive := by
  simp only [isDirective, unplaced]

namespace Assembly

theorem takeWord_unplaced (a : Assembly) (w : Word) :
    a.unplaced.takeWord w.unplaced = unplacedBy unplaced (a.takeWord w) := by
  obtain ⟨main, functions, block⟩ := a
  cases block with
  | none =>
    simp only [takeWord, unplaced, Option.map_none, Word.isDirective_unplaced]
    split
    · rfl
    · split <;> rfl
  | some block =>
    cases block with
    | unnamed start =>
      simp only [takeWord, unplaced, Option.map_some, OpenBlock.unplaced, Word.isDirective_unplaced]
      split <;> rfl
    | inParams start name params =>
      simp only [takeWord, unplaced, Option.map_some, OpenBlock.unplaced, Word.isDirective_unplaced]
      split
      · rfl
      · split <;> rfl
    | inBody start name params body =>
      simp only [takeWord, unplaced, Option.map_some, OpenBlock.unplaced, Word.isDirective_unplaced]
      split
      · -- The block is closed: the definition without spans is the one made of parts without.
        have hdef : (⟨name, params, (body.map Token.unplaced).reverse,
            Span.dummy.merge w.unplaced.span⟩ : FunctionDef) =
            (⟨name, params, body.reverse, start.merge w.span⟩ : FunctionDef).unplaced := by
          simp [FunctionDef.unplaced, Word.unplaced, Span.merge, Span.dummy]
        rw [hdef, FunctionTable.define_unplaced]
        cases functions.define ⟨name, params, body.reverse, start.merge w.span⟩ <;> rfl
      · split <;> rfl

theorem foldlM_unplaced (words : List Word) (a : Assembly) :
    (words.map Word.unplaced).foldlM takeWord a.unplaced =
      unplacedBy unplaced (words.foldlM takeWord a) := by
  induction words generalizing a with
  | nil => rfl
  | cons w words ih =>
    rw [List.map_cons, List.foldlM_cons, List.foldlM_cons, takeWord_unplaced]
    exact unplacedBy_bind ih _

theorem finish_unplaced (a : Assembly) :
    a.unplaced.finish = unplacedBy Program.unplaced a.finish := by
  obtain ⟨main, functions, block⟩ := a
  cases block with
  | none => simp [finish, unplaced, unplacedBy, Program.unplaced, Except.map, Except.mapError]
  | some block => cases block <;> rfl

end Assembly

theorem ofWords_unplaced (words : List Word) :
    ofWords (words.map Word.unplaced) = unplacedBy Program.unplaced (ofWords words) := by
  have hfold : (words.map Word.unplaced).foldlM Assembly.takeWord .empty =
      unplacedBy Assembly.unplaced (words.foldlM Assembly.takeWord .empty) :=
    Assembly.foldlM_unplaced words .empty
  unfold ofWords
  rw [hfold]
  exact unplacedBy_bind Assembly.finish_unplaced _

/-! ## Layouts -/

inductive Gap : List Char → Prop
  | nil : Gap []
  | blank {c : Char} {gap : List Char} : isBlank c = true → Gap gap → Gap (c :: gap)
  | comment {line gap : List Char} : '\n' ∉ line → Gap gap → Gap ('#' :: (line ++ '\n' :: gap))

/-- What comes after the last word: a gap, and perhaps a comment that the text ends in. -/
inductive LastGap : List Char → Prop
  | gap {gap : List Char} : Gap gap → LastGap gap
  | comment {gap line : List Char} : Gap gap → '\n' ∉ line → LastGap (gap ++ '#' :: line)

/-- The ways to write a word: a bare one as it is, a quoted one by any body between quotes. -/
inductive FormOf : List Char → Bool → List Char → Prop
  | bare {c : Char} {word : List Char} : c ≠ '#' → c ≠ '"' → (∀ d ∈ c :: word, isBlank d = false) →
      FormOf (c :: word) false (c :: word)
  | quoted {text body : List Char} : BodyOf text body → FormOf text true ('"' :: (body ++ ['"']))

structure WrittenWord where
  text : List Char
  quoted : Bool
  form : List Char
  isForm : FormOf text quoted form

def WrittenWord.spelling (v : WrittenWord) : String × Bool := (String.ofList v.text, v.quoted)

def Word.spelled (spelling : String × Bool) (span : Span) : Word := ⟨spelling.1, spelling.2, span⟩

/-- The text is the forms of the words, in order, with gaps before, between and after them; a bare
word has white space after it, or is the end of the text. -/
inductive Lays : List WrittenWord → List Char → Prop
  | last {gap : List Char} : LastGap gap → Lays [] gap
  | word {v : WrittenWord} {vs : List WrittenWord} {gap rest : List Char} :
      Gap gap → (v.quoted = false → EndsWord rest) → Lays vs rest →
      Lays (v :: vs) (gap ++ (v.form ++ rest))

variable {v : WrittenWord} {vs : List WrittenWord} {gap rest cs : List Char} {offset : Nat}
  {listing : String}

theorem scanWords_gap (h : Gap gap) (offset : Nat) (rest : List Char) :
    scanWords offset (gap ++ rest) = scanWords (offset + byteLength gap) rest := by
  induction h generalizing offset with
  | nil => rfl
  | blank hc _ ih => rw [List.cons_append, scanWords_blank hc, ih, byteLength, Nat.add_assoc]
  | @comment line gap hline _ ih =>
    have hnewline : ∀ c ∈ ('\n' :: (gap ++ rest)).head?, c = '\n' := by simp
    rw [List.cons_append, List.append_assoc, List.cons_append, scanWords_comment hline hnewline,
      scanWords_blank (by decide), ih]
    congr 1
    simp only [byteLength, Text.byteLength_append]
    omega

theorem scanWords_lastGap (h : LastGap gap) (offset : Nat) : scanWords offset gap = .ok [] := by
  cases h with
  | gap h =>
    rw [← List.append_nil gap, scanWords_gap h, scanWords]
  | @comment gap line h hline =>
    rw [scanWords_gap h, ← List.append_nil line, scanWords_comment hline (by simp), scanWords]

theorem scanWords_form (v : WrittenWord) (hends : v.quoted = false → EndsWord rest)
    (offset : Nat) : scanWords offset (v.form ++ rest) =
      (do .ok (Word.spelled v.spelling (.ofRange offset (offset + byteLength v.form)) ::
        (← scanWords (offset + byteLength v.form) rest))) := by
  obtain ⟨text, quoted, form, hform⟩ := v
  cases hform with
  | bare hc hq hb => exact scanWords_bare hc hq hb (hends rfl) offset
  | @quoted _ body hbody =>
    have hquote : '"'.utf8Size = 1 := rfl
    have hstop : offset + byteLength ('"' :: (body ++ ['"'])) =
        offset + 1 + byteLength body + 1 := by
      simp only [byteLength, Text.byteLength_append, hquote]
      omega
    simp only [List.cons_append, List.append_assoc, List.nil_append]
    rw [scanWords_quote, readQuoted_body hbody, hstop]
    rfl

theorem WrittenWord.byteLength_form_pos (v : WrittenWord) : 0 < byteLength v.form := by
  obtain ⟨text, quoted, form, hform⟩ := v
  apply Text.byteLength_pos
  cases hform <;> exact List.cons_ne_nil _ _

/-- The words stand one after the other, from this offset on, each at the bytes of its form. -/
structure InOrder (text : String) (offset : Nat) (words : List Word) (vs : List WrittenWord) :
    Prop where
  covers : List.Forall₂ (fun w v => w.span.Covers text v.form) words vs
  bounds : ∀ w ∈ words, offset ≤ w.span.start ∧ w.span.start < w.span.stop
  apart : words.Pairwise (·.span.stop ≤ ·.span.start)

theorem InOrder.cons {words : List Word} {span : Span}
    (h : InOrder listing span.stop words vs) (hcovers : span.Covers listing v.form)
    (hoffset : offset ≤ span.start) :
    InOrder listing offset (Word.spelled v.spelling span :: words) (v :: vs) where
  covers := .cons hcovers h.covers
  bounds := by
    have hpos := v.byteLength_form_pos
    obtain ⟨before, after, -, -, hstop⟩ := hcovers
    refine List.forall_mem_cons.mpr ⟨⟨hoffset, ?_⟩, fun w hw => ?_⟩
    · show span.start < span.stop
      omega
    · obtain ⟨hstart, hlt⟩ := h.bounds w hw
      exact ⟨by omega, hlt⟩
  apart := List.pairwise_cons.mpr ⟨fun w hw => (h.bounds w hw).1, h.apart⟩

/-- A layout is scanned to its words, one after the other. -/
theorem scanWords_of_lays (h : Lays vs cs) (hr : Remains listing offset cs) :
    ∃ words, scanWords offset cs = .ok words ∧
      words.map Word.spelling = vs.map WrittenWord.spelling ∧
      (listing.utf8ByteSize ≤ Span.maxOffset → InOrder listing offset words vs) := by
  induction h generalizing offset with
  | last hgap => exact ⟨[], scanWords_lastGap hgap offset, rfl, fun _ => ⟨.nil, nofun, .nil⟩⟩
  | @word v vs gap rest hgap hends _ ih =>
    have hform := hr.past
    obtain ⟨words, hscan, hspell, horder⟩ := ih hform.past
    let span : Span := ⟨offset + byteLength gap, offset + byteLength gap + byteLength v.form⟩
    have hcovers : span.Covers listing v.form := hform.covers rfl rfl
    refine ⟨Word.spelled v.spelling (.ofRange span.start span.stop) :: words, ?_, ?_, ?_⟩
    · rw [scanWords_gap hgap, scanWords_form v hends, hscan]
      rfl
    · rw [List.map_cons, List.map_cons, hspell]
      rfl
    · intro hsize
      rw [Span.ofRange_of_covers hcovers hsize]
      exact (horder hsize).cons hcovers (Nat.le_add_right _ _)

/-! ## What is scanned is a layout -/

theorem exists_bodyOf_of_readQuoted {text : List Char} {stop : Nat}
    (h : readQuoted offset cs = .closed text stop rest) :
    ∃ body, BodyOf text body ∧ cs = body ++ '"' :: rest := by
  fun_induction readQuoted offset cs generalizing text with
  | case1 | case3 | case5 => cases h
  | case2 =>
    cases h
    exact ⟨[], .nil, rfl⟩
  | case4 offset letter cs next c hc =>
    rename_i ih
    obtain ⟨text', hw⟩ := QuotedWord.cons_eq_closed h
    obtain ⟨body, hbody, rfl⟩ := ih hw
    rw [hw] at h
    cases h
    exact ⟨'\\' :: letter :: body, .escape (Text.escapeLetter?_of_unescape? hc) hbody, rfl⟩
  | case6 offset c cs hq hlast hpair ih =>
    obtain ⟨text', hw⟩ := QuotedWord.cons_eq_closed h
    obtain ⟨body, hbody, rfl⟩ := ih hw
    rw [hw] at h
    cases h
    exact ⟨c :: body, .plain hq (Text.ne_backslash hlast hpair) hbody, rfl⟩

/-- A text begins with white space, a comment or a word; the spellings are those of the word, and
this is left of the text. -/
inductive Begins : List Char → List (String × Bool) → List Char → Prop
  | blank {c : Char} {rest : List Char} : isBlank c = true → Begins (c :: rest) [] rest
  | comment {line rest : List Char} : '\n' ∉ line → Begins ('#' :: (line ++ '\n' :: rest)) [] rest
  | lastComment {line : List Char} : '\n' ∉ line → Begins ('#' :: line) [] []
  | quoted {text body rest : List Char} : BodyOf text body →
      Begins ('"' :: (body ++ '"' :: rest)) [(String.ofList text, true)] rest
  | bare {c : Char} {word rest : List Char} : c ≠ '#' → c ≠ '"' →
      (∀ d ∈ c :: word, isBlank d = false) → EndsWord rest →
      Begins (c :: (word ++ rest)) [(String.ofList (c :: word), false)] rest

theorem Begins.length_lt {spellings : List (String × Bool)} (h : Begins cs spellings rest) :
    rest.length < cs.length := by
  cases h <;> simp only [List.length_cons, List.length_append, List.length_nil] <;> omega

theorem Lays.eq_nil (h : Lays vs []) : vs = [] := by
  generalize hcs : ([] : List Char) = cs at h
  cases h with
  | last => rfl
  | @word v _ gap rest _ _ _ =>
    have hpos := v.byteLength_form_pos
    simp only [List.nil_eq, List.append_eq_nil_iff] at hcs
    rw [hcs.2.1] at hpos
    cases hpos

/-- What a text begins with is laid before what is left of it. -/
theorem Begins.lays {spellings : List (String × Bool)} (h : Begins cs spellings rest)
    (hrest : Lays vs rest) :
    ∃ us, Lays us cs ∧ us.map WrittenWord.spelling = spellings ++ vs.map WrittenWord.spelling := by
  cases h with
  | blank hc =>
    refine ⟨vs, ?_, rfl⟩
    cases hrest with
    | last hgap =>
      cases hgap with
      | gap hgap => exact .last (.gap (.blank hc hgap))
      | comment hgap hline => exact .last (.comment (.blank hc hgap) hline)
    | word hgap hends hrest => exact .word (.blank hc hgap) hends hrest
  | comment hline =>
    refine ⟨vs, ?_, rfl⟩
    cases hrest with
    | last hgap =>
      cases hgap with
      | gap hgap => exact .last (.gap (.comment hline hgap))
      | comment hgap hline' => simpa using Lays.last (.comment (.comment hline hgap) hline')
    | word hgap hends hrest => simpa using Lays.word (.comment hline hgap) hends hrest
  | lastComment hline =>
    obtain rfl := hrest.eq_nil
    exact ⟨[], .last (.comment .nil hline), rfl⟩
  | @quoted text body _ hbody =>
    let v : WrittenWord := ⟨text, true, '"' :: (body ++ ['"']), .quoted hbody⟩
    have hquoted : v.quoted = false → EndsWord rest := fun hbare => Bool.noConfusion hbare
    exact ⟨v :: vs, by simpa [v] using Lays.word .nil hquoted hrest, rfl⟩
  | @bare c word _ hhash hquote hb hends =>
    let v : WrittenWord := ⟨c :: word, false, c :: word, .bare hhash hquote hb⟩
    exact ⟨v :: vs, .word .nil (fun _ => hends) hrest, rfl⟩

/-- What is scanned begins as a layout does, and what is left is scanned to the further words. -/
theorem exists_begins {c : Char} {words : List Word} (h : scanWords offset (c :: cs) = .ok words) :
    ∃ spellings rest offset' ws, Begins (c :: cs) spellings rest ∧
      scanWords offset' rest = .ok ws ∧
      words.map Word.spelling = spellings ++ ws.map Word.spelling := by
  by_cases hblank : isBlank c = true
  · rw [scanWords_blank hblank] at h
    exact ⟨[], cs, _, words, .blank hblank, h, rfl⟩
  by_cases hhash : c = '#'
  · subst hhash
    obtain ⟨line, rest, rfl, hline, hend⟩ := Text.exists_run (· != '\n') cs
    have hline : '\n' ∉ line := fun hmem => by simpa using hline _ hmem
    have hend : ∀ c ∈ rest.head?, c = '\n' := fun c hc => by simpa using hend c hc
    rw [scanWords_comment hline hend] at h
    cases rest with
    | nil =>
      rw [List.append_nil]
      exact ⟨[], [], _, words, .lastComment hline, h, rfl⟩
    | cons d rest =>
      obtain rfl : d = '\n' := hend d rfl
      rw [scanWords_blank (by decide)] at h
      exact ⟨[], rest, _, words, .comment hline, h, rfl⟩
  by_cases hquote : c = '"'
  · subst hquote
    rw [scanWords_quote] at h
    cases hread : readQuoted (offset + 1) cs with
    | badEscape bad =>
      rw [hread] at h
      cases h
    | unterminated =>
      rw [hread] at h
      cases h
    | closed text stop rest =>
      simp only [hread] at h
      obtain ⟨ws, hws, hret⟩ := State.bind_eq_ok.mp h
      cases hret
      obtain ⟨body, hbody, rfl⟩ := exists_bodyOf_of_readQuoted hread
      exact ⟨_, rest, stop, ws, .quoted hbody, hws, rfl⟩
  · obtain ⟨word, rest, rfl, hword, hend⟩ := Text.exists_run (fun d => !isBlank d) cs
    have hb : ∀ d ∈ c :: word, isBlank d = false :=
      List.forall_mem_cons.mpr ⟨by simpa using hblank, fun d hd => by simpa using hword d hd⟩
    have hends : EndsWord rest := fun d hd => by simpa using hend d hd
    rw [← List.cons_append, scanWords_bare hhash hquote hb hends] at h
    obtain ⟨ws, hws, hret⟩ := State.bind_eq_ok.mp h
    cases hret
    exact ⟨_, rest, _, ws, .bare hhash hquote hb hends, hws, rfl⟩

/-- What is scanned to words is a layout of words with these spellings. -/
theorem exists_lays_of_scanWords {words : List Word} (h : scanWords offset cs = .ok words) :
    ∃ vs, Lays vs cs ∧ vs.map WrittenWord.spelling = words.map Word.spelling := by
  -- What is left after a word or a gap is shorter; a comment and its line feed go together.
  induction hn : cs.length using Nat.strong_induction_on generalizing offset cs words with
  | _ n ih =>
  cases cs with
  | nil =>
    rw [scanWords] at h
    cases h
    exact ⟨[], .last (.gap .nil), rfl⟩
  | cons c cs =>
    obtain ⟨spellings, rest, _, ws, hbegins, hws, hwords⟩ := exists_begins h
    obtain ⟨vs, hlays, hspell⟩ := ih _ (hn ▸ hbegins.length_lt) hws rfl
    obtain ⟨us, hus, hall⟩ := hbegins.lays hlays
    exact ⟨us, hus, by rw [hall, hspell, hwords]⟩

/-- The texts that are scanned to words of these spellings are just the layouts of such words. -/
theorem exists_ofListing_iff {spellings : List (String × Bool)} :
    (∃ words, Word.ofListing listing = .ok words ∧ words.map Word.spelling = spellings) ↔
      ∃ vs, Lays vs listing.toList ∧ vs.map WrittenWord.spelling = spellings := by
  constructor
  · intro ⟨words, hscan, hspell⟩
    obtain ⟨vs, hlays, hsame⟩ := exists_lays_of_scanWords hscan
    exact ⟨vs, hlays, hsame.trans hspell⟩
  · intro ⟨vs, hlays, hspell⟩
    obtain ⟨words, hscan, hsame, -⟩ := scanWords_of_lays hlays (Text.remains_start listing)
    exact ⟨words, hscan, hsame.trans hspell⟩

/-! ## The words alone count -/

/-- A layout assembles, but for spans, to what words of these spellings say. -/
theorem assemble_of_lays (h : Lays vs listing.toList) :
    unplacedBy Program.unplaced (assemble listing) =
      ofWords ((vs.map WrittenWord.spelling).map (Word.spelled · .dummy)) := by
  obtain ⟨words, hscan, hspell, -⟩ := scanWords_of_lays h (Text.remains_start listing)
  have hlisting : Word.ofListing listing = .ok words := hscan
  have hwords : (words.map Word.spelling).map (Word.spelled · .dummy) =
      words.map Word.unplaced := by
    rw [List.map_map]
    rfl
  rw [← hspell, hwords, ofWords_unplaced, assemble, hlisting]
  rfl

/-- Layout carries no meaning. A text that lays words out is scanned to exactly those words, in
order and quoted where they are; and if each of its offsets fits, with spans that are not empty,
follow one another and cover the words' written forms. Any other text that lays the same words out
assembles to the same program or error, but for spans. -/
theorem ofListing_of_lays (h : Lays vs listing.toList) :
    (∃ words, Word.ofListing listing = .ok words ∧
      words.map Word.spelling = vs.map WrittenWord.spelling ∧
      (listing.utf8ByteSize ≤ Span.maxOffset →
        List.Forall₂ (fun w v => w.span.Covers listing v.form) words vs ∧
        (∀ w ∈ words, w.span.start < w.span.stop) ∧
        words.Pairwise (·.span.stop ≤ ·.span.start))) ∧
    ∀ (other : String) (us : List WrittenWord), Lays us other.toList →
      us.map WrittenWord.spelling = vs.map WrittenWord.spelling →
      unplacedBy Program.unplaced (assemble other) =
        unplacedBy Program.unplaced (assemble listing) := by
  constructor
  · obtain ⟨words, hscan, hspell, horder⟩ := scanWords_of_lays h (Text.remains_start listing)
    refine ⟨words, hscan, hspell, fun hsize => ?_⟩
    obtain ⟨hcovers, hbounds, hapart⟩ := horder hsize
    exact ⟨hcovers, fun w hw => (hbounds w hw).2, hapart⟩
  · intro other us hother hsame
    rw [assemble_of_lays hother, assemble_of_lays h, hsame]

/-- A bare word, a tab between quotes, as its escape and as it is, and a directive that a quoted
word or a comment stands next to. -/
theorem ofListing_of_lays_comments :
    let listing := "#a\npop\u00A0\"\\t\".fn"
    let other := "pop \"\t\"#a\n.fn #b"
    ∃ vs us : List WrittenWord,
      Lays vs listing.toList ∧ Lays us other.toList ∧
      us.map WrittenWord.spelling = vs.map WrittenWord.spelling ∧
      (∃ words, Word.ofListing listing = .ok words ∧
        words.map Word.spelling = [("pop", false), ("\t", true), (".fn", false)] ∧
        List.Forall₂ (fun w v => w.span.Covers listing v.form) words vs) ∧
      unplacedBy Program.unplaced (assemble other) =
        unplacedBy Program.unplaced (assemble listing) := by
  intro listing other
  let pop : WrittenWord :=
    ⟨['p', 'o', 'p'], false, ['p', 'o', 'p'],
      .bare (by decide) (by decide) (isBlank_of_all (by decide))⟩
  let escaped : WrittenWord := ⟨['\t'], true, ['"', '\\', 't', '"'], .quoted (.escape rfl .nil)⟩
  let plain : WrittenWord :=
    ⟨['\t'], true, ['"', '\t', '"'], .quoted (.plain (by decide) (by decide) .nil)⟩
  let directive : WrittenWord :=
    ⟨['.', 'f', 'n'], false, ['.', 'f', 'n'],
      .bare (by decide) (by decide) (isBlank_of_all (by decide))⟩
  have hspace : Gap [' '] := .blank (by decide) .nil
  have hnobreak : Gap ['\u00A0'] := .blank (by decide) .nil
  have hcomment : Gap ['#', 'a', '\n'] := @Gap.comment ['a'] [] (by decide) .nil
  have hlisting : Lays [pop, escaped, directive] listing.toList := by
    have htext : listing.toList = ['#', 'a', '\n'] ++ (['p', 'o', 'p'] ++ (['\u00A0'] ++
        (['"', '\\', 't', '"'] ++ ([] ++ (['.', 'f', 'n'] ++ []))))) := by decide +kernel
    rw [htext]
    have hend : Lays [directive] ([] ++ (['.', 'f', 'n'] ++ [])) :=
      .word .nil (fun _ => endsWord_nil) (.last (.gap .nil))
    have htab := Lays.word (v := escaped) hnobreak nofun hend
    exact .word hcomment (fun _ => endsWord_cons (by decide) _) htab
  have hother : Lays [pop, plain, directive] other.toList := by
    have htext : other.toList = [] ++ (['p', 'o', 'p'] ++ ([' '] ++ (['"', '\t', '"'] ++
        (['#', 'a', '\n'] ++ (['.', 'f', 'n'] ++ ([' '] ++ '#' :: ['b'])))))) := by decide +kernel
    rw [htext]
    have hend := Lays.word (v := directive) hcomment (fun _ => endsWord_cons (by decide) _)
      (.last (@LastGap.comment [' '] ['b'] hspace (by decide)))
    have htab := Lays.word (v := plain) hspace nofun hend
    exact .word .nil (fun _ => endsWord_cons (by decide) _) htab
  obtain ⟨⟨words, hscan, hwords, hspans⟩, hsame⟩ := ofListing_of_lays hlisting
  have hcovers := (hspans (by decide)).1
  exact ⟨_, _, hlisting, hother, rfl, ⟨words, hscan, hwords, hcovers⟩, hsame _ _ hother rfl⟩

theorem gap_blanks (n : Nat) :
    Gap (List.replicate n ' ') ∧ byteLength (List.replicate n ' ') = n := by
  have hsize : ' '.utf8Size = 1 := rfl
  induction n with
  | zero => exact ⟨.nil, rfl⟩
  | succ n ih =>
    refine ⟨.blank (by decide) ih.1, ?_⟩
    rw [List.replicate_succ, byteLength, ih.2, hsize, Nat.add_comm]

/-- Two words after so many blanks, and one between them. -/
theorem ofListing_after_blanks (n : Nat)
    (hl : listing.toList = List.replicate n ' ' ++ "a b".toList) :
    (∃ vs, Lays vs listing.toList ∧ vs.map WrittenWord.spelling = [("a", false), ("b", false)]) ∧
    Word.ofListing listing =
      .ok [⟨"a", false, .ofRange n (n + 1)⟩, ⟨"b", false, .ofRange (n + 2) (n + 3)⟩] := by
  have hbare {c : Char} (h : isBlank c = false) : ∀ d ∈ [c], isBlank d = false := fun d hd =>
    List.mem_singleton.mp hd ▸ h
  let a : WrittenWord := ⟨['a'], false, ['a'], .bare (by decide) (by decide) (hbare (by decide))⟩
  let b : WrittenWord := ⟨['b'], false, ['b'], .bare (by decide) (by decide) (hbare (by decide))⟩
  obtain ⟨hgap, hbytes⟩ := gap_blanks n
  have hspace : Gap [' '] := .blank (by decide) .nil
  have hends : EndsWord ([' '] ++ (b.form ++ [])) := endsWord_cons (by decide) _
  have htext : listing.toList = List.replicate n ' ' ++ (a.form ++ ([' '] ++ (b.form ++ []))) := hl
  refine ⟨⟨[a, b], ?_, rfl⟩, ?_⟩
  · rw [htext]
    exact .word hgap (fun _ => hends) (.word hspace (fun _ => endsWord_nil) (.last (.gap .nil)))
  · rw [Word.ofListing, htext, scanWords_gap hgap, hbytes, scanWords_form a fun _ => hends,
      scanWords_gap hspace, scanWords_form b fun _ => endsWord_nil, scanWords, Nat.zero_add]
    rfl

/-- Past `Span.maxOffset` all offsets are one, so the words there have the same empty span. -/
theorem ofListing_past_maxOffset :
    let listing := String.ofList (List.replicate (Span.maxOffset + 1) ' ' ++ "a b".toList)
    let span : Span := ⟨Span.maxOffset, Span.maxOffset⟩
    (∃ vs, Lays vs listing.toList ∧ vs.map WrittenWord.spelling = [("a", false), ("b", false)]) ∧
      Word.ofListing listing = .ok [⟨"a", false, span⟩, ⟨"b", false, span⟩] ∧
      ¬ span.start < span.stop := by
  intro listing span
  have hlisting : listing.toList = _ := String.toList_ofList
  obtain ⟨hlays, hscan⟩ := ofListing_after_blanks _ hlisting
  have hclamp {start stop : Nat} (h : Span.maxOffset ≤ start) (h' : Span.maxOffset ≤ stop) :
      Span.ofRange start stop = span := by
    rw [Span.ofRange, Nat.min_eq_right h, Nat.min_eq_right h']
  rw [hclamp (by omega) (by omega), hclamp (by omega) (by omega)] at hscan
  exact ⟨hlays, hscan, Nat.lt_irrefl _⟩

end Listing

end TokenMachine
