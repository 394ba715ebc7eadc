/-
  TokenMachine.Proofs.Listing.RoundTrip — a program's listing spells the program.

  The words of a listing are known from the program (`scans_render`): the directives
  stand bare, and every name, parameter and token is a written word. A bare written word
  begins with neither `.` nor `:`, so it is never a directive, and reading the words back
  gives the streams and functions they were written from, their spans aside
  (`assemble_render`).
-/

import TokenMachine.Listing.Render
import TokenMachine.Proofs.FunctionTable
import TokenMachine.Proofs.Listing.Scan

namespace TokenMachine

/-- Two programs that differ in spans alone, and in the order in which functions were defined. -/
def Program.SameText (p q : Program) : Prop :=
  p.main.map (·.text) = q.main.map (·.text) ∧
    ∀ name, (p.functions.get? name).map FunctionDef.spelling =
      (q.functions.get? name).map FunctionDef.spelling

namespace Listing

open Text

/-! ## The words of a listing -/

theorem isBlank_space : isBlank ' ' = true := by decide

theorem isBlank_newline : isBlank '\n' = true := by decide

theorem scans_streamLines (indent : List Char) (hi : ∀ c ∈ indent, isBlank c = true)
    (tokens : List Token) {rest : List Char} {ws : List (String × Bool)} (h : Scans rest ws) :
    Scans (streamLines indent tokens ++ rest) (tokens.map (fun t => spell t.text) ++ ws) := by
  -- What ends a line: a word and its newline.
  have last {tail : List Char} {ws' : List (String × Bool)} (h' : Scans tail ws') (t : Token) :
      Scans (written t.text.toList ++ '\n' :: tail) (spell t.text :: ws') :=
    scans_written (endsWord_cons isBlank_newline _) (scans_blank isBlank_newline h')
  fun_induction streamLines indent tokens with
  | case1 => exact h
  | case2 tag => simpa using scans_blanks hi (last h tag)
  | case3 tag operand tokens kind _ ih =>
    have hoperand := scans_blank isBlank_space (last ih operand)
    have htag := scans_written (s := tag.text) (endsWord_cons isBlank_space _) hoperand
    simpa using scans_blanks hi htag
  | case4 tag next tokens _ ih => simpa using scans_blanks hi (last ih tag)

theorem endsWord_words (words : List String) {rest : List Char} (he : EndsWord rest) :
    EndsWord (words.flatMap (fun word => ' ' :: written word.toList) ++ rest) := by
  cases words with
  | nil => exact he
  | cons => exact endsWord_cons isBlank_space _

theorem scans_words (words : List String) {rest : List Char} {ws : List (String × Bool)}
    (he : EndsWord rest) (h : Scans rest ws) :
    Scans (words.flatMap (fun word => ' ' :: written word.toList) ++ rest)
      (words.map spell ++ ws) := by
  induction words with
  | nil => exact h
  | cons word words ih =>
    rw [List.flatMap_cons, List.append_assoc, List.cons_append, List.map_cons, List.cons_append]
    exact scans_blank isBlank_space (scans_written (endsWord_words words he) ih)

/-- A directive is read back bare. -/
theorem scans_directive {d : String} (hd : d ∈ [fnDirective, endDirective, paramsEnd])
    {rest : List Char} {ws : List (String × Bool)} (he : EndsWord rest) (h : Scans rest ws) :
    Scans (d.toList ++ rest) ((d, false) :: ws) := by
  rcases List.mem_cons.mp hd with rfl | hd
  · exact scans_plain '.' ['f', 'n'] (by decide) (by decide) (isBlank_of_all (by decide)) he h
  rcases List.mem_cons.mp hd with rfl | hd
  · exact scans_plain '.' ['e', 'n', 'd', 'f', 'n'] (by decide) (by decide)
      (isBlank_of_all (by decide)) he h
  · rcases List.mem_singleton.mp hd with rfl
    exact scans_plain ':' [] (by decide) (by decide) (isBlank_of_all (by decide)) he h

def blockSpellings (f : FunctionDef) : List (String × Bool) :=
  (fnDirective, false) :: ((f.name :: f.params).map spell ++
    (paramsEnd, false) :: (f.body.map (fun t => spell t.text) ++ [(endDirective, false)]))

theorem scans_functionBlock (f : FunctionDef) {rest : List Char} {ws : List (String × Bool)}
    (h : Scans rest ws) : Scans (functionBlock f ++ rest) (blockSpellings f ++ ws) := by
  have hend := scans_directive (d := endDirective) (by simp) (endsWord_cons isBlank_newline _)
    (scans_blank isBlank_newline (scans_blank isBlank_newline h))
  have hbody := scans_streamLines [' ', ' ', ' ', ' '] (List.all_eq_true.mp (by decide)) f.body hend
  have hcolon := scans_directive (d := paramsEnd) (by simp) (endsWord_cons isBlank_newline _)
    (scans_blank isBlank_newline hbody)
  have hgap := endsWord_cons isBlank_space (paramsEnd.toList ++ '\n' ::
    (streamLines [' ', ' ', ' ', ' '] f.body ++ (endDirective.toList ++ '\n' :: '\n' :: rest)))
  have hhead := scans_words (f.name :: f.params) hgap (scans_blank isBlank_space hcolon)
  have hfn := scans_directive (d := fnDirective) (by simp)
    (endsWord_words (f.name :: f.params) hgap) hhead
  simpa only [functionBlock, headWords, blockSpellings, List.append_assoc, List.cons_append,
    List.nil_append] using hfn

def spellings (p : Program) : List (String × Bool) :=
  p.functions.sorted.flatMap blockSpellings ++ p.main.map fun t => spell t.text

theorem scans_render (p : Program) : Scans (render p).toList (spellings p) := by
  have hmain := scans_streamLines [] nofun p.main scans_nil
  rw [List.append_nil, List.append_nil] at hmain
  unfold render spellings
  rw [String.toList_ofList]
  induction p.functions.sorted with
  | nil => exact hmain
  | cons f fs ih =>
    rw [List.flatMap_cons, List.flatMap_cons, List.append_assoc, List.append_assoc]
    exact scans_functionBlock f ih

/-! ## Reading the words back -/

variable {w : Word} {s d : String}

/-- A written word is no directive: bare, it would begin with neither `.` nor `:`. -/
theorem isDirective_of_spell (h : w.spelling = spell s)
    (hd : d ∈ [fnDirective, endDirective, paramsEnd]) : w.isDirective d = false := by
  obtain ⟨rfl, hq⟩ := Prod.mk.inj h
  unfold Word.isDirective
  cases hw : w.quoted with
  | true => rfl
  | false =>
    rw [hw] at hq
    obtain ⟨c, rest, hc, -, hdot, hcolon, -⟩ := needsQuotes_eq_false hq.symm
    have hne : w.text ≠ d := by
      rintro rfl
      simp only [List.mem_cons, List.not_mem_nil, or_false] at hd
      rcases hd with hd | hd | hd <;> rw [hd] at hc <;> cases hc
      · exact hdot rfl
      · exact hdot rfl
      · exact hcolon rfl
    simpa using hne

/-- A bare word is the directive that it spells. -/
theorem isDirective_of_bare (h : w.spelling = (s, false)) : w.isDirective d = (s == d) := by
  obtain ⟨rfl, hq⟩ := Prod.mk.inj h
  simp [Word.isDirective, hq]

theorem foldlM_cons_of_ok {words : List Word} {a b : Assembly} (h : a.takeWord w = .ok b) :
    (w :: words).foldlM Assembly.takeWord a = words.foldlM Assembly.takeWord b := by
  rw [List.foldlM_cons, h]
  rfl

theorem foldlM_append_of_ok {words words' : List Word} {a b : Assembly}
    (h : words.foldlM Assembly.takeWord a = .ok b) :
    (words ++ words').foldlM Assembly.takeWord a = words'.foldlM Assembly.takeWord b := by
  rw [List.foldlM_append, h]
  rfl

theorem foldlM_main {words : List Word} {tokens : List Token} {a : Assembly} (ha : a.block = none)
    (h : words.map Word.spelling = tokens.map fun t => spell t.text) :
    ∃ main, words.foldlM Assembly.takeWord a = .ok { a with main } ∧
      main.map (·.text) = (tokens.map (·.text)).reverse ++ a.main.map (·.text) := by
  induction tokens generalizing words a with
  | nil =>
    rw [List.map_nil, List.map_eq_nil_iff] at h
    subst h
    exact ⟨a.main, rfl, rfl⟩
  | cons t tokens ih =>
    obtain ⟨w, words, rfl, hw, hws⟩ := List.map_eq_cons_iff.mp h
    have htake : a.takeWord w = .ok { a with main := w.token :: a.main } := by
      simp [Assembly.takeWord, ha, isDirective_of_spell hw]
    obtain ⟨main, hfold, hmain⟩ := ih (a := { a with main := w.token :: a.main }) ha hws
    refine ⟨main, ?_, ?_⟩
    · rw [foldlM_cons_of_ok htake]; exact hfold
    · have htext : w.text = t.text := congrArg Prod.fst hw
      simp [hmain, Word.token, htext]

theorem foldlM_params {words : List Word} {names : List String} {a : Assembly} {start : Span}
    {name : String} {params : List String} (ha : a.block = some (.inParams start name params))
    (h : words.map Word.spelling = names.map spell) :
    words.foldlM Assembly.takeWord a =
      .ok { a with block := some (.inParams start name (names.reverse ++ params)) } := by
  induction names generalizing words a params with
  | nil =>
    rw [List.map_nil, List.map_eq_nil_iff] at h
    subst h
    obtain ⟨main, functions, block⟩ := a
    cases ha
    rfl
  | cons s names ih =>
    obtain ⟨w, words, rfl, hw, hws⟩ := List.map_eq_cons_iff.mp h
    have htext : w.text = s := congrArg Prod.fst hw
    have htake : a.takeWord w =
        .ok { a with block := some (.inParams start name (s :: params)) } := by
      simp [Assembly.takeWord, ha, isDirective_of_spell hw, htext]
    rw [foldlM_cons_of_ok htake, List.reverse_cons, List.append_assoc]
    exact ih (a := { a with block := some (.inParams start name (s :: params)) }) rfl hws

theorem foldlM_body {words : List Word} {tokens : List Token} {a : Assembly} {start : Span}
    {name : String} {params : List String} {body : List Token}
    (ha : a.block = some (.inBody start name params body))
    (h : words.map Word.spelling = tokens.map fun t => spell t.text) :
    ∃ body', words.foldlM Assembly.takeWord a =
        .ok { a with block := some (.inBody start name params body') } ∧
      body'.map (·.text) = (tokens.map (·.text)).reverse ++ body.map (·.text) := by
  induction tokens generalizing words a body with
  | nil =>
    rw [List.map_nil, List.map_eq_nil_iff] at h
    subst h
    obtain ⟨main, functions, block⟩ := a
    cases ha
    exact ⟨body, rfl, rfl⟩
  | cons t tokens ih =>
    obtain ⟨w, words, rfl, hw, hws⟩ := List.map_eq_cons_iff.mp h
    have htake : a.takeWord w =
        .ok { a with block := some (.inBody start name params (w.token :: body)) } := by
      simp [Assembly.takeWord, ha, isDirective_of_spell hw]
    obtain ⟨body', hfold, hbody⟩ :=
      ih (a := { a with block := some (.inBody start name params (w.token :: body)) }) rfl hws
    refine ⟨body', ?_, ?_⟩
    · rw [foldlM_cons_of_ok htake]; exact hfold
    · have htext : w.text = t.text := congrArg Prod.fst hw
      simp [hbody, Word.token, htext]

/-- A block read back adds its function, if the name is new, and nothing else. -/
theorem foldlM_block {words : List Word} {f : FunctionDef} {a : Assembly} (ha : a.block = none)
    (hnew : f.name ∉ a.functions.defs.map (·.name))
    (h : words.map Word.spelling = blockSpellings f) :
    ∃ functions, words.foldlM Assembly.takeWord a = .ok { a with functions } ∧
      functions.defs.map FunctionDef.spelling =
        a.functions.defs.map FunctionDef.spelling ++ [f.spelling] := by
  obtain ⟨fn, words, rfl, hfn, h1⟩ := List.map_eq_cons_iff.mp h
  obtain ⟨head, tail, rfl, hhead, h2⟩ := List.map_eq_append_iff.mp h1
  obtain ⟨nameWord, paramWords, rfl, hname, hparams⟩ := List.map_eq_cons_iff.mp hhead
  obtain ⟨colon, tail, rfl, hcolon, h3⟩ := List.map_eq_cons_iff.mp h2
  obtain ⟨bodyWords, last, rfl, hbody, h4⟩ := List.map_eq_append_iff.mp h3
  obtain ⟨endfn, rest, rfl, hend, h5⟩ := List.map_eq_cons_iff.mp h4
  obtain rfl := List.map_eq_nil_iff.mp h5
  have opened : a.takeWord fn = .ok { a with block := some (.unnamed fn.span) } := by
    simp only [Assembly.takeWord, ha, isDirective_of_bare hfn]
    rfl
  have named : ({ a with block := some (.unnamed fn.span) } : Assembly).takeWord nameWord =
      .ok { a with block := some (.inParams fn.span f.name []) } := by
    have htext : nameWord.text = f.name := congrArg Prod.fst hname
    simp [Assembly.takeWord, isDirective_of_spell hname, htext]
  have params :=
    foldlM_params (a := { a with block := some (.inParams fn.span f.name []) }) rfl hparams
  rw [List.append_nil] at params
  have started : Assembly.takeWord
      { a with block := some (.inParams fn.span f.name f.params.reverse) } colon =
      .ok { a with block := some (.inBody fn.span f.name f.params []) } := by
    simp [Assembly.takeWord, isDirective_of_bare hcolon]
  obtain ⟨body, hfold, htexts⟩ :=
    foldlM_body (a := { a with block := some (.inBody fn.span f.name f.params []) }) rfl hbody
  obtain ⟨functions, hdefine, hdefs⟩ := FunctionTable.define_of_not_mem
    (f := ⟨f.name, f.params, body.reverse, fn.span.merge endfn.span⟩) hnew
  have closed :
      ({ a with block := some (.inBody fn.span f.name f.params body) } : Assembly).takeWord endfn =
      .ok { a with functions } := by
    simp [Assembly.takeWord, isDirective_of_bare hend, hdefine, ha]
  refine ⟨functions, ?_, ?_⟩
  · rw [foldlM_cons_of_ok opened, List.cons_append, foldlM_cons_of_ok named,
      foldlM_append_of_ok params, foldlM_cons_of_ok started, foldlM_append_of_ok hfold,
      foldlM_cons_of_ok closed]
    rfl
  · rw [hdefs, List.map_append, List.map_singleton]
    simp [FunctionDef.spelling, htexts]

theorem foldlM_blocks {fs : List FunctionDef} {words : List Word} {a : Assembly}
    (ha : a.block = none) (hnodup : (a.functions.defs.map (·.name) ++ fs.map (·.name)).Nodup)
    (h : words.map Word.spelling = fs.flatMap blockSpellings) :
    ∃ functions, words.foldlM Assembly.takeWord a = .ok { a with functions } ∧
      functions.defs.map FunctionDef.spelling =
        a.functions.defs.map FunctionDef.spelling ++ fs.map FunctionDef.spelling := by
  induction fs generalizing words a with
  | nil =>
    rw [List.flatMap_nil, List.map_eq_nil_iff] at h
    subst h
    exact ⟨a.functions, rfl, by simp⟩
  | cons f fs ih =>
    obtain ⟨block, words, rfl, hblock, hrest⟩ := List.map_eq_append_iff.mp h
    have hnew : f.name ∉ a.functions.defs.map (·.name) := by
      intro hmem
      exact (List.nodup_append.mp hnodup).2.2 f.name hmem f.name (by simp) rfl
    obtain ⟨functions, hfold, hdefs⟩ := foldlM_block ha hnew hblock
    have hnames : functions.defs.map (·.name) = a.functions.defs.map (·.name) ++ [f.name] := by
      simpa [FunctionDef.spelling, Function.comp_def] using congrArg (List.map Prod.fst) hdefs
    have hnodup' : (functions.defs.map (·.name) ++ fs.map (·.name)).Nodup := by
      simpa [hnames] using hnodup
    obtain ⟨functions', hfold', hdefs'⟩ := ih (a := { a with functions }) ha hnodup' hrest
    refine ⟨functions', ?_, ?_⟩
    · rw [foldlM_append_of_ok hfold]; exact hfold'
    · rw [hdefs', hdefs, List.map_cons, List.append_assoc, List.singleton_append]

/-- A text of the words of a program's listing, whatever its layout, spells the program. -/
theorem assemble_of_scans {listing : String} {p : Program}
    (h : Scans listing.toList (spellings p)) : ∃ q, assemble listing = .ok q ∧ p.SameText q := by
  obtain ⟨words, hscan, hwords⟩ := h 0
  obtain ⟨blocks, mainWords, rfl, hblocks, hmainWords⟩ := List.map_eq_append_iff.mp hwords
  have hnodup : (Assembly.empty.functions.defs.map (·.name) ++
      p.functions.sorted.map (·.name)).Nodup := by
    simpa [Assembly.empty, FunctionTable.empty] using p.functions.nodup_sorted
  obtain ⟨functions, hfold, hdefs⟩ := foldlM_blocks (a := .empty) rfl hnodup hblocks
  obtain ⟨main, hfold', hmain⟩ :=
    foldlM_main (a := { Assembly.empty with functions }) rfl hmainWords
  refine ⟨⟨main.reverse, functions⟩, ?_, ?_, ?_⟩
  · have hread : Word.ofListing listing = .ok (blocks ++ mainWords) := hscan
    rw [assemble, hread]
    show ofWords _ = _
    rw [ofWords, foldlM_append_of_ok hfold, hfold']
    rfl
  · simp [hmain, Assembly.empty]
  · refine FunctionTable.map_spelling_get? fun x => ?_
    rw [hdefs]
    simp [Assembly.empty, FunctionTable.empty, FunctionTable.mem_sorted]

/-- Writing a program as a listing and reading it back gives the program, its spans aside: the
same main stream, the same function names, and for each the same parameters and body. It holds of
every program: words may be empty, hold white space, quotes and backslashes, or spell a directive
or a comment, and streams need not be well formed. -/
theorem assemble_render (p : Program) : ∃ q, assemble (render p) = .ok q ∧ p.SameText q :=
  assemble_of_scans (scans_render p)

end Listing

end TokenMachine
