/-
  TokenMachine.Proofs.Listing.Blocks — a listing is cut into tokens and function blocks.

  Whatever words are assembled, those read so far are whole items, and the beginning of a block
  if one is open (`Assembly.Reads`): a word keeps this or is refused (`Assembly.Reads.takeWord`).
  So the words of a program are tokens of its main stream and blocks, one for each function
  (`exists_spells_of_ofWords`). An unquoted `.fn` or `.endfn` begins or ends a block, or it is the
  name of one: they alternate exactly if none is a name (`assemble_blocks`).
-/

import TokenMachine.Listing.Assemble
import TokenMachine.Proofs.FunctionTable

namespace TokenMachine.Listing

/-! ## Directives -/

namespace Word

variable {w : Word}

def bounds (w : Word) : Bool := w.isDirective fnDirective || w.isDirective endDirective

theorem isDirective_of_ne {d d' : String} (h : w.isDirective d = true) (hne : d ≠ d') :
    w.isDirective d' = false := by
  simp only [isDirective, Bool.and_eq_true, beq_iff_eq] at h
  simp [isDirective, h.2, hne]

theorem bounds_eq_false_iff :
    w.bounds = false ↔ w.isDirective fnDirective = false ∧ w.isDirective endDirective = false :=
  Bool.or_eq_false_iff

theorem bounds_of_fn (h : w.isDirective fnDirective = true) : w.bounds = true := by
  rw [bounds, h, Bool.true_or]

theorem bounds_of_end (h : w.isDirective endDirective = true) : w.bounds = true := by
  rw [bounds, h, Bool.or_true]

def isParam (w : Word) : Bool := !w.bounds && !w.isDirective paramsEnd

end Word

/-- A `.fn` and an `.endfn`, and so on. -/
inductive Alternates : List Word → Prop
  | nil : Alternates []
  | pair {start stop : Word} {ws : List Word} :
      start.isDirective fnDirective = true → stop.isDirective endDirective = true →
      Alternates ws → Alternates (start :: stop :: ws)

/-! ## Items -/

/-- How a block begins: any word but `:` can be its name. -/
structure Head where
  start : Word
  name : Word
  params : List Word
  start_eq : start.isDirective fnDirective = true
  name_ne : name.isDirective paramsEnd = false
  params_plain : ∀ w ∈ params, w.isParam = true

structure Block extends Head where
  colon : Word
  body : List Word
  stop : Word
  colon_eq : colon.isDirective paramsEnd = true
  body_plain : ∀ w ∈ body, w.bounds = false
  stop_eq : stop.isDirective endDirective = true

/-- A word of a listing is a token of the main stream, or several are a function. -/
inductive Item where
  | token (w : Word) (plain : w.bounds = false)
  | block (b : Block)

namespace Head

def words (h : Head) : List Word := h.start :: h.name :: h.params

def param (h : Head) (w : Word) (hw : w.isParam = true) : Head where
  start := h.start
  name := h.name
  params := h.params ++ [w]
  start_eq := h.start_eq
  name_ne := h.name_ne
  params_plain := List.forall_mem_append.mpr ⟨h.params_plain, List.forall_mem_singleton.mpr hw⟩

end Head

namespace Block

def words (b : Block) : List Word := b.toHead.words ++ b.colon :: (b.body ++ [b.stop])

def function (b : Block) : FunctionDef :=
  ⟨b.name.text, b.params.map (·.text), b.body.map Word.token, b.start.span.merge b.stop.span⟩

end Block

namespace Item

def words : Item → List Word
  | token w _ => [w]
  | block b => b.words

def token? : Item → Option Token
  | token w _ => some w.token
  | block _ => none

def block? : Item → Option Block
  | token _ _ => none
  | block b => some b

end Item

structure Spells (items : List Item) (words : List Word) (main : List Token)
    (functions : List FunctionDef) : Prop where
  words_eq : words = items.flatMap Item.words
  main_eq : main = items.filterMap Item.token?
  functions_eq : functions = (items.filterMap Item.block?).map Block.function

namespace Spells

variable {items : List Item} {words : List Word} {main : List Token}
  {functions : List FunctionDef}

theorem nil : Spells [] [] [] [] := ⟨rfl, rfl, rfl⟩

theorem token (h : Spells items words main functions) {w : Word} (hw : w.bounds = false) :
    Spells (items ++ [.token w hw]) (words ++ [w]) (main ++ [w.token]) functions := by
  obtain ⟨rfl, rfl, rfl⟩ := h
  constructor <;> simp [Item.words, Item.token?, Item.block?]

theorem block (h : Spells items words main functions) (b : Block) :
    Spells (items ++ [.block b]) (words ++ b.words) main (functions ++ [b.function]) := by
  obtain ⟨rfl, rfl, rfl⟩ := h
  constructor <;> simp [Item.words, Item.token?, Item.block?]

end Spells

/-! ## Assembling -/

inductive OpenBlock.Reads : Option OpenBlock → List Word → Prop
  | none : Reads none []
  | unnamed {start : Word} :
      start.isDirective fnDirective = true → Reads (some (.unnamed start.span)) [start]
  | inParams (h : Head) :
      Reads (some (.inParams h.start.span h.name.text (h.params.map (·.text)).reverse)) h.words
  | inBody (h : Head) {colon : Word} {body : List Word} :
      colon.isDirective paramsEnd = true → (∀ w ∈ body, w.bounds = false) →
      Reads (some (.inBody h.start.span h.name.text (h.params.map (·.text))
        (body.map Word.token).reverse)) (h.words ++ colon :: body)

namespace OpenBlock.Reads

variable {w colon : Word} {body : List Word}

theorem param (h : Head) (hw : w.isParam = true) :
    Reads (some (.inParams h.start.span h.name.text
      (w.text :: (h.params.map (·.text)).reverse))) (h.words ++ [w]) := by
  have hparam := inParams (h.param w hw)
  rwa [Head.param, List.map_append, List.reverse_append] at hparam

theorem bodyToken (h : Head) (hcolon : colon.isDirective paramsEnd = true)
    (hbody : ∀ w ∈ body, w.bounds = false) (hw : w.bounds = false) :
    Reads (some (.inBody h.start.span h.name.text (h.params.map (·.text))
      (w.token :: (body.map Word.token).reverse))) (h.words ++ colon :: body ++ [w]) := by
  have hplain : ∀ w' ∈ body ++ [w], w'.bounds = false :=
    List.forall_mem_append.mpr ⟨hbody, List.forall_mem_singleton.mpr hw⟩
  have htoken := inBody h hcolon hplain
  rw [List.map_append, List.reverse_append] at htoken
  rwa [List.append_assoc, List.cons_append]

end OpenBlock.Reads

namespace Assembly

variable {a a' : Assembly} {w : Word} {ws ws' : List Word}

/-- These words were read: whole items, and then those of the open block. -/
def Reads (a : Assembly) (ws : List Word) : Prop :=
  ∃ items whole rest, ws = whole ++ rest ∧
    Spells items whole a.main.reverse a.functions.defs ∧ OpenBlock.Reads a.block rest

theorem reads_empty : empty.Reads [] := ⟨[], [], [], rfl, .nil, .none⟩

theorem Reads.takeWord (h : a.Reads ws) (hw : a.takeWord w = .ok a') :
    a'.Reads (ws ++ [w]) := by
  obtain ⟨items, whole, rest, rfl, hspells, hblock⟩ := h
  obtain ⟨main, functions, block⟩ := a
  -- A word that the open block takes.
  have push {block : OpenBlock} (hblock : OpenBlock.Reads (some block) (rest ++ [w])) :
      Reads ⟨main, functions, some block⟩ (whole ++ rest ++ [w]) :=
    ⟨items, whole, rest ++ [w], List.append_assoc .., hspells, hblock⟩
  cases hblock with
  | none =>
    simp only [Assembly.takeWord] at hw
    split at hw
    · cases hw
    · next hend =>
      split at hw
      · next hfn =>
        cases hw
        exact push (.unnamed hfn)
      · next hfn =>
        cases hw
        have hplain : w.bounds = false := by simp [Word.bounds, hfn, hend]
        have htoken := hspells.token hplain
        rw [← List.reverse_cons] at htoken
        exact ⟨_, _, [], by simp, htoken, .none⟩
  | @unnamed start hstart =>
    simp only [Assembly.takeWord] at hw
    split at hw
    · cases hw
    · next hcolon =>
      cases hw
      exact push (.inParams ⟨start, w, [], hstart, by simpa using hcolon, by simp⟩)
  | inParams head =>
    simp only [Assembly.takeWord] at hw
    split at hw
    · next hcolon =>
      cases hw
      rw [List.reverse_reverse]
      exact push (@OpenBlock.Reads.inBody head w [] hcolon (by simp))
    · next hcolon =>
      split at hw
      · cases hw
      · next hplain =>
        cases hw
        have hparam : w.isParam = true := by simp_all [Word.isParam, Word.bounds]
        exact push (.param head hparam)
  | @inBody head colon body hcolon hbody =>
    simp only [Assembly.takeWord] at hw
    split at hw
    · next hend =>
      -- The block is a function.
      split at hw
      · next functions' hdefine =>
        cases hw
        have hclosed := hspells.block ⟨head, colon, body, w, hcolon, hbody, hend⟩
        have hfunctions := FunctionTable.defs_of_define hdefine
        rw [List.reverse_reverse] at hfunctions
        refine ⟨_, _, [], ?_, hfunctions ▸ hclosed, .none⟩
        simp [Block.words]
      · cases hw
    · next hend =>
      split at hw
      · cases hw
      · next hfn =>
        cases hw
        have hplain : w.bounds = false := by simp [Word.bounds, hfn, hend]
        exact push (.bodyToken head hcolon hbody hplain)

theorem Reads.foldlM (h : a.Reads ws) (hfold : ws'.foldlM Assembly.takeWord a = .ok a') :
    a'.Reads (ws ++ ws') := by
  induction ws' generalizing ws a with
  | nil =>
    cases hfold
    rwa [List.append_nil]
  | cons w ws' ih =>
    rw [List.foldlM_cons] at hfold
    cases hw : a.takeWord w with
    | error e =>
      rw [hw] at hfold
      cases hfold
    | ok next =>
      rw [hw] at hfold
      have hnext := ih (h.takeWord hw) hfold
      rwa [List.append_assoc] at hnext

/-- When a program is finished no block is open. -/
theorem Reads.finish {p : Program} (h : a.Reads ws) (hp : a.finish = .ok p) :
    ∃ items, Spells items ws p.main p.functions.defs := by
  obtain ⟨items, whole, rest, rfl, hspells, hblock⟩ := h
  obtain ⟨main, functions, block⟩ := a
  cases hblock with
  | none =>
    cases hp
    rw [List.append_nil]
    exact ⟨items, hspells⟩
  | unnamed | inParams | inBody => cases hp

end Assembly

variable {words : List Word} {p : Program} {items : List Item} {main : List Token}
  {functions : List FunctionDef}

/-- The words of a program are its tokens and its functions. -/
theorem exists_spells_of_ofWords (h : ofWords words = .ok p) :
    ∃ items, Spells items words p.main p.functions.defs := by
  unfold ofWords at h
  cases hfold : words.foldlM Assembly.takeWord .empty with
  | error e =>
    rw [hfold] at h
    cases h
  | ok a =>
    rw [hfold] at h
    exact (Assembly.reads_empty.foldlM hfold).finish h

/-! ## Where a directive stands -/

def blocks (items : List Item) : List Block := items.filterMap Item.block?

@[simp] theorem blocks_token {w : Word} {hw : w.bounds = false} :
    blocks (.token w hw :: items) = blocks items := rfl

@[simp] theorem blocks_block {b : Block} : blocks (.block b :: items) = b :: blocks items := rfl

/-- In a block a directive can stand at its ends, or be its name. -/
theorem Block.filter_bounds (b : Block) :
    b.words.filter Word.bounds = b.start :: ([b.name].filter Word.bounds ++ [b.stop]) := by
  have hparams : b.params.filter Word.bounds = [] := by
    refine List.filter_eq_nil_iff.mpr fun w hw => ?_
    have hplain := b.params_plain w hw
    simp only [Word.isParam, Bool.and_eq_true, Bool.not_eq_true'] at hplain
    simp [hplain.1]
  have hcolon : b.colon.bounds = false :=
    Word.bounds_eq_false_iff.mpr ⟨Word.isDirective_of_ne b.colon_eq (by decide),
      Word.isDirective_of_ne b.colon_eq (by decide)⟩
  have hbody : b.body.filter Word.bounds = [] :=
    List.filter_eq_nil_iff.mpr fun w hw => by simp [b.body_plain w hw]
  have hstart := Word.bounds_of_fn b.start_eq
  have hstop := Word.bounds_of_end b.stop_eq
  have hrest : (b.params ++ b.colon :: (b.body ++ [b.stop])).filter Word.bounds = [b.stop] := by
    simp [hparams, hcolon, hbody, hstop]
  show (b.start :: ([b.name] ++ (b.params ++ b.colon :: (b.body ++ [b.stop])))).filter _ = _
  rw [List.filter_cons_of_pos hstart, List.filter_append, hrest]

theorem Alternates.not_of_ends {start stop w : Word} {ws : List Word}
    (hw : w.isDirective endDirective = true) : ¬ Alternates (start :: stop :: w :: ws) := by
  intro h
  cases h with
  | pair _ _ h =>
    cases h with
    | pair hfn _ _ =>
      rw [Word.isDirective_of_ne hfn (by decide)] at hw
      cases hw

/-- The directives alternate exactly if none of them is the name of a block. -/
theorem alternates_iff (items : List Item) :
    Alternates ((items.flatMap Item.words).filter Word.bounds) ↔
      ∀ b ∈ blocks items, b.name.bounds = false := by
  induction items with
  | nil => exact ⟨nofun, fun _ => .nil⟩
  | cons item items ih =>
    rw [List.flatMap_cons, List.filter_append]
    cases item with
    | token w hw => simpa [Item.words, hw] using ih
    | block b =>
      rw [Item.words, b.filter_bounds, blocks_block, List.forall_mem_cons, ← ih]
      by_cases hname : b.name.bounds = true
      · rw [List.filter_cons_of_pos hname]
        refine ⟨fun h => absurd h (Alternates.not_of_ends b.stop_eq), fun h => ?_⟩
        rw [hname] at h
        cases h.1
      · have hname : b.name.bounds = false := by simpa using hname
        rw [List.filter_cons_of_neg (by simp [hname])]
        constructor
        · intro h
          cases h with
          | pair _ _ h => exact ⟨hname, h⟩
        · intro h
          exact .pair b.start_eq b.stop_eq h.2

/-- There is a `.fn` for each function, and one for each that is named by a `.fn`. -/
theorem countP_fn (items : List Item) :
    (items.flatMap Item.words).countP (·.isDirective fnDirective) =
      (blocks items).length + (blocks items).countP (·.name.isDirective fnDirective) := by
  -- No other word counts.
  have hfilter (ws : List Word) : ws.countP (·.isDirective fnDirective) =
      (ws.filter Word.bounds).countP (·.isDirective fnDirective) := by
    rw [List.countP_filter]
    refine List.countP_congr fun w _ => ?_
    simp +contextual [Word.bounds]
  induction items with
  | nil => rfl
  | cons item items ih =>
    rw [List.flatMap_cons, List.countP_append, ih]
    cases item with
    | token w hw =>
      have := (Word.bounds_eq_false_iff.mp hw).1
      simp [Item.words, this]
    | block b =>
      have hstop : b.stop.isDirective fnDirective = false :=
        Word.isDirective_of_ne b.stop_eq (by decide)
      rw [Item.words, hfilter, b.filter_bounds, List.countP_cons, List.countP_append, ← hfilter,
        blocks_block, List.length_cons, List.countP_cons]
      simp only [b.start_eq, List.countP_cons, List.countP_nil, hstop, Bool.false_eq_true,
        if_true, if_false]
      omega

/-- The words of a listing that is assembled are tokens of the main stream and blocks of one
function each. No token and no parameter is an unquoted `.fn` or `.endfn`: such a word begins a
block, ends one, or is the name in one. So they alternate exactly if no name is one of them, and
there are as many `.fn` as functions, and as functions that it names. -/
theorem assemble_blocks {listing : String} (h : assemble listing = .ok p) :
    ∃ words items, Word.ofListing listing = .ok words ∧
      Spells items words p.main p.functions.defs ∧
      (Alternates (words.filter Word.bounds) ↔ ∀ b ∈ blocks items, b.name.bounds = false) ∧
      words.countP (·.isDirective fnDirective) =
        p.functions.size + (blocks items).countP (·.name.isDirective fnDirective) := by
  unfold assemble at h
  cases hwords : Word.ofListing listing with
  | error e =>
    rw [hwords] at h
    cases h
  | ok words =>
    rw [hwords] at h
    obtain ⟨items, hspells⟩ := exists_spells_of_ofWords h
    refine ⟨words, items, rfl, hspells, ?_, ?_⟩
    · rw [hspells.words_eq]
      exact alternates_iff items
    · rw [hspells.words_eq, countP_fn, FunctionTable.size, hspells.functions_eq, List.length_map,
        blocks]

/-- A block that a quoted `.fn` names, with a quoted `.endfn` as its parameter and in its body;
another block, and tokens around them. -/
theorem assemble_blocks_quoted :
    let listing := "a .fn \".fn\" \".endfn\" : \".endfn\" .endfn b .fn f : .endfn c"
    ∃ p words items, assemble listing = .ok p ∧ Word.ofListing listing = .ok words ∧
      Spells items words p.main p.functions.defs ∧ p.functions.size = 2 ∧
      words.countP (·.isDirective fnDirective) = 2 ∧
      ∀ b ∈ blocks items, b.name.bounds = false := by
  intro listing
  let p : Program := {
    main := [⟨"a", ⟨0, 1⟩⟩, ⟨"b", ⟨39, 40⟩⟩, ⟨"c", ⟨56, 57⟩⟩]
    functions := ⟨[⟨".fn", [".endfn"], [⟨".endfn", ⟨23, 31⟩⟩], ⟨2, 38⟩⟩, ⟨"f", [], [], ⟨41, 55⟩⟩],
      by simp⟩ }
  let words : List Word := [⟨"a", false, ⟨0, 1⟩⟩, ⟨".fn", false, ⟨2, 5⟩⟩, ⟨".fn", true, ⟨6, 11⟩⟩,
    ⟨".endfn", true, ⟨12, 20⟩⟩, ⟨":", false, ⟨21, 22⟩⟩, ⟨".endfn", true, ⟨23, 31⟩⟩,
    ⟨".endfn", false, ⟨32, 38⟩⟩, ⟨"b", false, ⟨39, 40⟩⟩, ⟨".fn", false, ⟨41, 44⟩⟩,
    ⟨"f", false, ⟨45, 46⟩⟩, ⟨":", false, ⟨47, 48⟩⟩, ⟨".endfn", false, ⟨49, 55⟩⟩,
    ⟨"c", false, ⟨56, 57⟩⟩]
  have hp : assemble listing = .ok p := by decide +kernel
  have hread : Word.ofListing listing = .ok words := by decide +kernel
  obtain ⟨words', items, hwords, hspells, hnames, hcount⟩ := assemble_blocks hp
  obtain rfl : words = words' := Except.ok.inj (hread.symm.trans hwords)
  have halternates : Alternates (words.filter Word.bounds) :=
    .pair (by decide) (by decide) (.pair (by decide) (by decide) .nil)
  exact ⟨p, words, items, hp, hread, hspells, rfl, by decide, hnames.mp halternates⟩

/-- A function that an unquoted `.fn` names: two `.fn`, one `.endfn`, and one function. -/
theorem fn_names_function :
    let listing := ".fn .fn : .endfn"
    let words : List Word := [⟨".fn", false, ⟨0, 3⟩⟩, ⟨".fn", false, ⟨4, 7⟩⟩,
      ⟨":", false, ⟨8, 9⟩⟩, ⟨".endfn", false, ⟨10, 16⟩⟩]
    assemble listing = .ok ⟨[], ⟨[⟨".fn", [], [], ⟨0, 16⟩⟩], by simp⟩⟩ ∧
      Word.ofListing listing = .ok words ∧ words.countP (·.isDirective fnDirective) = 2 ∧
      ¬ Alternates (words.filter Word.bounds) := by
  refine ⟨by decide +kernel, by decide +kernel, by decide, fun h => ?_⟩
  cases h with
  | pair _ hend _ => cases hend

end TokenMachine.Listing
