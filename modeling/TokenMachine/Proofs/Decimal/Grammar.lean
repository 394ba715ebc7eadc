/-
  TokenMachine.Proofs.Decimal.Grammar — the grammar of numerals.

  A numeral is a sign or none, a mantissa, and an exponent or none (`Numeral`). Each part begins
  with a character that cannot go on with the part before it, so splitting a text from the left
  takes exactly these parts off, and what is parsed is the grammar (`parse?_eq_some_iff`).

  An atom is a number by its first character, by all its characters, and by the float that it
  spells. The first two checks let pass what is no numeral, and the third takes infinities and NaN
  by their names, but these are not finite; so the three together are the grammar and the limit on
  finite floats. And what passes has a value where the machine executes it
  (`isNumeral_iff_numeral`).
-/

import TokenMachine.Proofs.Decimal.Overflow
import TokenMachine.Proofs.Machine.Effect
import TokenMachine.Proofs.Text.Places

namespace TokenMachine.Decimal

variable {negative : Bool} {c : Char} {e : Int} {d : Decimal}
  {cs sign whole fraction mantissa exponent rest : List Char}

/-! ## The grammar -/

def IsDigits (cs : List Char) : Prop := cs ≠ [] ∧ ∀ c ∈ cs, c.isDigit = true

/-- A sign, or none, which is plus. -/
inductive SignOf : Bool → List Char → Prop
  | none : SignOf false []
  | plus : SignOf false ['+']
  | minus : SignOf true ['-']

/-- The digits before and after the point, and how both are written. -/
inductive Mantissa : List Char → List Char → List Char → Prop
  | whole {ds : List Char} : IsDigits ds → Mantissa ds [] ds
  | point {ds : List Char} : IsDigits ds → Mantissa ds [] (ds ++ ['.'])
  | both {ds fs : List Char} : IsDigits ds → IsDigits fs → Mantissa ds fs (ds ++ '.' :: fs)
  | fraction {fs : List Char} : IsDigits fs → Mantissa [] fs ('.' :: fs)

/-- An exponent, or none, which is zero. -/
inductive ExponentOf : Int → List Char → Prop
  | none : ExponentOf 0 []
  | written {mark : Char} {negative : Bool} {sign ds : List Char} :
      mark = 'e' ∨ mark = 'E' → SignOf negative sign → IsDigits ds →
      ExponentOf (if negative then -(ofDigits ds : Int) else ofDigits ds) (mark :: (sign ++ ds))

inductive Numeral : Decimal → List Char → Prop
  | mk {negative : Bool} {e : Int} {sign whole fraction mantissa exponent : List Char} :
      SignOf negative sign → Mantissa whole fraction mantissa → ExponentOf e exponent →
      Numeral ⟨negative, ofDigits (whole ++ fraction), e - fraction.length⟩
        (sign ++ (mantissa ++ exponent))

theorem ne_of_isDigit (h : c.isDigit = true) {mark : Char} (hmark : mark ∈ numeralMarks) :
    c ≠ mark := by
  rintro rfl
  have hnone : numeralMarks.all (fun c => !c.isDigit) = true := by decide
  have hnot := List.all_eq_true.mp hnone _ hmark
  rw [h] at hnot
  cases hnot

theorem Mantissa.exists_cons (h : Mantissa whole fraction mantissa) :
    ∃ c rest, mantissa = c :: rest ∧ (c.isDigit = true ∨ c = '.') := by
  have first {ds : List Char} (hd : IsDigits ds) : ∃ c rest, ds = c :: rest ∧ c.isDigit = true := by
    obtain ⟨c, rest, rfl⟩ := List.exists_cons_of_ne_nil hd.1
    exact ⟨c, rest, rfl, hd.2 c List.mem_cons_self⟩
  cases h with
  | whole hd | point hd | both hd =>
    obtain ⟨c, rest, rfl, hc⟩ := first hd
    exact ⟨c, _, rfl, .inl hc⟩
  | fraction => exact ⟨'.', _, rfl, .inr rfl⟩

/-! ## Splitting -/

def NoDigit (rest : List Char) : Prop := ∀ c ∈ rest.head?, c.isDigit = false

theorem splitDigits_append (h : ∀ c ∈ cs, c.isDigit = true) (hrest : NoDigit rest) :
    splitDigits (cs ++ rest) = (cs, rest) := by
  rw [splitDigits, Text.takeWhile_run h hrest, Text.dropWhile_run h hrest]

theorem splitSign_append (h : SignOf negative sign)
    (hrest : ∀ c ∈ rest.head?, c ≠ '+' ∧ c ≠ '-') :
    splitSign (sign ++ rest) = (negative, rest) := by
  cases h with
  | plus | minus => rfl
  | none =>
    rw [List.nil_append, splitSign.eq_def]
    split
    · exact absurd rfl (hrest _ rfl).2
    · exact absurd rfl (hrest _ rfl).1
    · rfl

theorem exists_signOf (cs : List Char) :
    ∃ negative sign rest, splitSign cs = (negative, rest) ∧ SignOf negative sign ∧
      cs = sign ++ rest := by
  unfold splitSign
  split
  · exact ⟨true, ['-'], _, rfl, .minus, rfl⟩
  · exact ⟨false, ['+'], _, rfl, .plus, rfl⟩
  · exact ⟨false, [], _, rfl, .none, rfl⟩

theorem splitFraction_of_ne (h : ∀ c ∈ rest.head?, c ≠ '.') : splitFraction rest = ([], rest) := by
  unfold splitFraction
  split
  · exact absurd rfl (h _ rfl)
  · rfl

theorem ExponentOf.noDigit (h : ExponentOf e exponent) : NoDigit exponent := by
  cases h with
  | none => exact nofun
  | written hmark =>
    intro c hc
    cases hc
    rcases hmark with rfl | rfl <;> rfl

theorem ExponentOf.ne_point (h : ExponentOf e exponent) : ∀ c ∈ exponent.head?, c ≠ '.' := by
  cases h with
  | none => exact nofun
  | written hmark =>
    intro c hc
    cases hc
    rcases hmark with rfl | rfl <;> decide

/-- A mantissa is split at its point, in front of an exponent. -/
theorem Mantissa.split (h : Mantissa whole fraction mantissa) (he : ExponentOf e exponent) :
    ∃ after, splitDigits (mantissa ++ exponent) = (whole, after) ∧
      splitFraction after = (fraction, exponent) := by
  have hpoint (rest : List Char) : NoDigit ('.' :: rest) := by
    intro c hc
    cases hc
    rfl
  cases h with
  | whole hd =>
    exact ⟨exponent, splitDigits_append hd.2 he.noDigit, splitFraction_of_ne he.ne_point⟩
  | point hd =>
    rw [List.append_assoc]
    exact ⟨_, splitDigits_append hd.2 (hpoint _), splitDigits_append nofun he.noDigit⟩
  | both hd hf =>
    rw [List.append_assoc]
    exact ⟨_, splitDigits_append hd.2 (hpoint _), splitDigits_append hf.2 he.noDigit⟩
  | fraction hf =>
    have hwhole : ∀ c ∈ ([] : List Char), c.isDigit = true := nofun
    exact ⟨_, splitDigits_append hwhole (hpoint _), splitDigits_append hf.2 he.noDigit⟩

/-! ## Parsing -/

theorem parseExponent?_eq_some_iff : parseExponent? cs = some e ↔ ExponentOf e cs := by
  constructor
  · intro h
    cases cs with
    | nil =>
      cases h
      exact .none
    | cons mark rest =>
      obtain ⟨negative, sign, ds, hsplit, hsign, rfl⟩ := exists_signOf rest
      simp only [parseExponent?, hsplit] at h
      split at h
      · next hwritten =>
        obtain ⟨hmark, hne, hdigits⟩ := hwritten
        cases h
        exact .written hmark hsign ⟨hne, List.all_eq_true.mp hdigits⟩
      · cases h
  · intro h
    cases h with
    | none => rfl
    | @written mark negative sign ds hmark hsign hd =>
      have hunsigned : ∀ c ∈ ds.head?, c ≠ '+' ∧ c ≠ '-' := by
        intro c hc
        have hdigit := hd.2 c (List.mem_of_mem_head? hc)
        exact ⟨ne_of_isDigit hdigit (by decide), ne_of_isDigit hdigit (by decide)⟩
      simp only [parseExponent?, splitSign_append hsign hunsigned]
      rw [if_pos ⟨hmark, hd.1, List.all_eq_true.mpr hd.2⟩]

theorem Mantissa.unsigned (h : Mantissa whole fraction mantissa) (rest : List Char) :
    ∀ c ∈ (mantissa ++ rest).head?, c ≠ '+' ∧ c ≠ '-' := by
  obtain ⟨first, cs, rfl, hfirst⟩ := h.exists_cons
  intro c hc
  cases hc
  rcases hfirst with hdigit | rfl
  · exact ⟨ne_of_isDigit hdigit (by decide), ne_of_isDigit hdigit (by decide)⟩
  · exact ⟨by decide, by decide⟩

theorem Mantissa.ne_nil (h : Mantissa whole fraction mantissa) :
    ¬ (whole = [] ∧ fraction = []) := by
  cases h with
  | whole hd | point hd | both hd => exact fun hnil => hd.1 hnil.1
  | fraction hf => exact fun hnil => hf.1 hnil.2

/-- What is split off as digits and a fraction, not both empty, is a mantissa. -/
theorem exists_mantissa (unsigned : List Char) :
    ∃ whole after fraction rest mantissa, splitDigits unsigned = (whole, after) ∧
      splitFraction after = (fraction, rest) ∧ unsigned = mantissa ++ rest ∧
      (¬ (whole = [] ∧ fraction = []) → Mantissa whole fraction mantissa) := by
  obtain ⟨whole, after, rfl, hwhole, hafter⟩ := Text.exists_run Char.isDigit unsigned
  have hdigits : splitDigits (whole ++ after) = (whole, after) := splitDigits_append hwhole hafter
  by_cases hpoint : after.head? = some '.'
  · obtain ⟨tail, rfl⟩ := List.head?_eq_some_iff.mp hpoint
    obtain ⟨fraction, rest, rfl, hfraction, hrest⟩ := Text.exists_run Char.isDigit tail
    refine ⟨whole, _, fraction, rest, whole ++ '.' :: fraction, hdigits,
      splitDigits_append hfraction hrest, by simp, fun hne => ?_⟩
    by_cases hw : whole = []
    · subst hw
      exact .fraction ⟨fun hf => hne ⟨rfl, hf⟩, hfraction⟩
    · by_cases hf : fraction = []
      · subst hf
        exact .point ⟨hw, hwhole⟩
      · exact .both ⟨hw, hwhole⟩ ⟨hf, hfraction⟩
  · have hnone : ∀ c ∈ after.head?, c ≠ '.' := by
      rintro c hc rfl
      exact hpoint hc
    exact ⟨whole, after, [], after, whole, hdigits, splitFraction_of_ne hnone, rfl,
      fun hne => .whole ⟨fun hw => hne ⟨hw, rfl⟩, hwhole⟩⟩

/-- What is parsed is just the grammar, with its value. -/
theorem parse?_eq_some_iff : parse? cs = some d ↔ Numeral d cs := by
  constructor
  · intro h
    obtain ⟨negative, sign, unsigned, hsplit, hsign, rfl⟩ := exists_signOf cs
    obtain ⟨whole, after, fraction, rest, mantissa, hdigits, hfraction, rfl, hmantissa⟩ :=
      exists_mantissa unsigned
    simp only [parse?, hsplit, hdigits, hfraction] at h
    split at h
    · cases h
    · next hne =>
      obtain ⟨e, he, rfl⟩ := Option.map_eq_some_iff.mp h
      exact .mk hsign (hmantissa hne) (parseExponent?_eq_some_iff.mp he)
  · intro h
    cases h with
    | mk hsign hmantissa he =>
      obtain ⟨after, hdigits, hfraction⟩ := hmantissa.split he
      simp only [parse?, splitSign_append hsign (hmantissa.unsigned _), hdigits, hfraction,
        parseExponent?_eq_some_iff.mpr he]
      rw [if_neg hmantissa.ne_nil]
      rfl

/-! ## Number atoms -/

/-- The library parser takes infinities and NaN by their names, and none of them is finite. -/
theorem not_isFinite_of_special {name : String} {x : Float} (h : special? name = some x) :
    x.isFinite = false := by
  unfold special? at h
  split at h
  · cases h
    decide
  · split at h
    · cases h
      decide
    · cases h

theorem floatOfText?_of_numeral {text : String} (h : Numeral d text.toList) :
    floatOfText? text = some d.toFloat := by
  unfold floatOfText?
  rw [parse?_eq_some_iff.mpr h]

/-- What spells a finite float is a numeral. -/
theorem exists_numeral_of_floatOfText? {text : String} {x : Float} (h : floatOfText? text = some x)
    (hfinite : x.isFinite = true) : ∃ d, Numeral d text.toList ∧ x = d.toFloat := by
  unfold floatOfText? at h
  split at h
  · next d hd =>
    cases h
    exact ⟨d, parse?_eq_some_iff.mp hd, rfl⟩
  · obtain ⟨negative, sign, name, hsplit, -, -⟩ := exists_signOf text.toList
    simp only [hsplit] at h
    obtain ⟨y, hy, rfl⟩ := Option.map_eq_some_iff.mp h
    have hspecial := not_isFinite_of_special hy
    cases negative with
    | true =>
      rw [if_pos rfl, isFinite_neg, hspecial] at hfinite
      cases hfinite
    | false =>
      rw [if_neg Bool.false_ne_true, hspecial] at hfinite
      cases hfinite

theorem SignOf.mem (h : SignOf negative sign) (hc : c ∈ sign) : c ∈ numeralMarks := by
  cases h with
  | none => cases hc
  | plus | minus =>
    rw [List.mem_singleton.mp hc]
    decide

theorem Mantissa.mem (h : Mantissa whole fraction mantissa) (hc : c ∈ mantissa) :
    c.isDigit = true ∨ c ∈ numeralMarks := by
  have hpoint : '.' ∈ numeralMarks := by decide
  cases h with
  | whole hd => exact .inl (hd.2 c hc)
  | point hd =>
    rcases List.mem_append.mp hc with hc | hc
    · exact .inl (hd.2 c hc)
    · exact .inr (List.mem_singleton.mp hc ▸ hpoint)
  | both hd hf =>
    rcases List.mem_append.mp hc with hc | hc
    · exact .inl (hd.2 c hc)
    · rcases List.mem_cons.mp hc with rfl | hc
      · exact .inr hpoint
      · exact .inl (hf.2 c hc)
  | fraction hf =>
    rcases List.mem_cons.mp hc with rfl | hc
    · exact .inr hpoint
    · exact .inl (hf.2 c hc)

theorem ExponentOf.mem (h : ExponentOf e exponent) (hc : c ∈ exponent) :
    c.isDigit = true ∨ c ∈ numeralMarks := by
  cases h with
  | none => cases hc
  | written hmark hsign hd =>
    rcases List.mem_cons.mp hc with rfl | hc
    · rcases hmark with rfl | rfl <;> exact .inr (by decide)
    · rcases List.mem_append.mp hc with hc | hc
      · exact .inr (hsign.mem hc)
      · exact .inl (hd.2 c hc)

/-- The three checks of an atom are the grammar and the limit together. -/
theorem isNumeral_iff : isNumeral cs = true ↔ ∃ d, Numeral d cs ∧ d.size < overflow := by
  constructor
  · intro h
    simp only [isNumeral, Bool.and_eq_true] at h
    obtain ⟨x, hx, hfinite⟩ := (Option.any_eq_true _ _).mp h.2
    obtain ⟨d, hd, rfl⟩ := exists_numeral_of_floatOfText? hx hfinite
    rw [String.toList_ofList] at hd
    exact ⟨d, hd, (isFinite_toFloat_iff d).mp hfinite⟩
  · intro ⟨d, hd, hsize⟩
    have hfloat : floatOfText? (String.ofList cs) = some d.toFloat :=
      floatOfText?_of_numeral (by rwa [String.toList_ofList])
    have hfinite := (isFinite_toFloat_iff d).mpr hsize
    cases hd with
    | mk hsign hmantissa he =>
      obtain ⟨first, tail, hcons, hfirst⟩ := hmantissa.exists_cons
      simp only [isNumeral, splitSign_append hsign (hmantissa.unsigned _), Bool.and_eq_true]
      refine ⟨⟨?_, ?_⟩, ?_⟩
      · rw [hcons]
        simpa using hfirst
      · refine List.all_eq_true.mpr fun c hc => ?_
        rw [Bool.or_eq_true, decide_eq_true_eq]
        exact (List.mem_append.mp hc).elim hmantissa.mem he.mem
      · rw [hfloat]
        exact hfinite

/-- A decimal below the limit that is greater than any float, and one past it; two signs, a point
alone and an empty exponent. -/
example : isNumeral "1.79769313486231580e308".toList = true ∧
    isNumeral "1.79769313486231581e308".toList = false ∧
    ["--1", ".", "1e"].all (fun text => !isNumeral text.toList) = true := by
  decide +kernel

/-- Number atoms are just the decimals: a sign or none, digits with or without a fraction, and an
exponent or none, whose float is finite, for they are below the limit. Whatever is so written, the
machine pushes its float where it is the operand of a `number` instruction. -/
theorem isNumeral_iff_numeral (text : String) :
    (isNumeral text.toList = true ↔ ∃ d, Numeral d text.toList ∧ d.size < overflow) ∧
    ∀ d, Numeral d text.toList →
      (d.toFloat.isFinite = true ↔ d.size < overflow) ∧
      ∀ (p : Program) (s : State) (tag : Token) (next : Cursor),
        s.frames.current.cursor.fetch = .ready (.literal .number text) tag next →
        s.step p = .next { s.dispatch next with stack := .number d.toFloat :: s.stack } := by
  refine ⟨isNumeral_iff, fun d hd => ⟨isFinite_toFloat_iff d, ?_⟩⟩
  intro p s tag next hfetch
  have hvalue : Literal.number.value text = .ok (.number d.toFloat) := by
    rw [Literal.value, floatOfText?_of_numeral hd]
  exact State.step_eq_next_iff.mpr (.execute hfetch (.literal hvalue))

end TokenMachine.Decimal
