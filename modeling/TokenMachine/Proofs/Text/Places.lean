/-
  TokenMachine.Proofs.Text.Places — runs of characters, and places in a text.

  A span covers a part of a text if it is the bytes that the part takes there, and then the part
  is read back through it (`Span.Covers.slice?_eq`). What covers a part that is not empty marks
  the text: it lies in it, and splits no character (`Span.Covers.marks`). So does what is merged
  of two spans that do (`Span.Marks.merge`).
-/

import Mathlib.Data.List.TakeWhile
import TokenMachine.Span
import TokenMachine.Text.Slice

namespace TokenMachine

namespace Text

/-! ## Runs -/

section

variable {p : Char → Bool} {run rest : List Char}

/-- A run of characters is taken whole where the next character is not of its kind. -/
theorem takeWhile_run (hrun : ∀ c ∈ run, p c = true) (hend : ∀ c ∈ rest.head?, p c = false) :
    (run ++ rest).takeWhile p = run := by
  rw [List.takeWhile_append_of_pos hrun]
  cases rest with
  | nil => simp
  | cons c rest => simp [hend c rfl]

theorem dropWhile_run (hrun : ∀ c ∈ run, p c = true) (hend : ∀ c ∈ rest.head?, p c = false) :
    (run ++ rest).dropWhile p = rest := by
  rw [List.dropWhile_append_of_pos hrun]
  cases rest with
  | nil => rfl
  | cons c rest => simp [hend c rfl]

/-- Any text begins with a run, maybe empty, where the next character is not of its kind. -/
theorem exists_run (p : Char → Bool) (cs : List Char) : ∃ run rest, cs = run ++ rest ∧
    (∀ c ∈ run, p c = true) ∧ ∀ c ∈ rest.head?, p c = false := by
  refine ⟨cs.takeWhile p, cs.dropWhile p, List.takeWhile_append_dropWhile.symm,
    fun c hc => List.mem_takeWhile_imp hc, fun c hc => ?_⟩
  have hstop := List.head?_dropWhile_not p cs
  rw [hc] at hstop
  exact hstop

end

/-! ## Lengths -/

variable {text : String} {part before after : List Char}

@[simp] theorem byteLength_append (cs cs' : List Char) :
    byteLength (cs ++ cs') = byteLength cs + byteLength cs' := by
  induction cs with
  | nil => rw [List.nil_append, byteLength, Nat.zero_add]
  | cons c cs ih => rw [List.cons_append, byteLength, byteLength, ih, Nat.add_assoc]

theorem byteLength_singleton (c : Char) : byteLength [c] = c.utf8Size := rfl

theorem byteLength_pos (h : part ≠ []) : 0 < byteLength part := by
  cases part with
  | nil => exact absurd rfl h
  | cons c part => exact Nat.add_pos_left c.utf8Size_pos _

theorem length_le_byteLength (cs : List Char) : cs.length ≤ byteLength cs := by
  induction cs with
  | nil => exact Nat.le_refl 0
  | cons c cs ih =>
    have := c.utf8Size_pos
    rw [List.length_cons, byteLength]
    omega

theorem count_le_byteLength (c : Char) (cs : List Char) : cs.count c ≤ byteLength cs :=
  Nat.le_trans List.count_le_length (length_le_byteLength cs)

theorem utf8ByteSize_ofList (cs : List Char) : (String.ofList cs).utf8ByteSize = byteLength cs := by
  induction cs with
  | nil => rfl
  | cons c cs ih =>
    rw [← List.singleton_append, String.ofList_append, String.utf8ByteSize_append, ih,
      byteLength_append, ← String.singleton_eq_ofList, String.utf8ByteSize_singleton,
      byteLength_singleton]

theorem utf8ByteSize_eq (text : String) : text.utf8ByteSize = byteLength text.toList := by
  rw [← utf8ByteSize_ofList, String.ofList_toList]

/-! ## Parts by their bytes -/

@[simp] theorem dropBytes?_zero (cs : List Char) : dropBytes? 0 cs = some cs := by
  cases cs <;> rfl

@[simp] theorem takeBytes?_zero (cs : List Char) : takeBytes? 0 cs = some [] := by
  cases cs <;> rfl

theorem dropBytes?_append (before after : List Char) :
    dropBytes? (byteLength before) (before ++ after) = some after := by
  induction before with
  | nil => exact dropBytes?_zero after
  | cons c before ih =>
    have hpos := c.utf8Size_pos
    rw [byteLength, List.cons_append, dropBytes?, if_neg (by omega), if_pos (by omega),
      Nat.add_sub_cancel_left, ih]

theorem takeBytes?_append (part after : List Char) :
    takeBytes? (byteLength part) (part ++ after) = some part := by
  induction part with
  | nil => exact takeBytes?_zero after
  | cons c part ih =>
    have hpos := c.utf8Size_pos
    rw [byteLength, List.cons_append, takeBytes?, if_neg (by omega), if_pos (by omega),
      Nat.add_sub_cancel_left, ih]
    rfl

theorem slice?_append (before part after : List Char) :
    slice? (before ++ (part ++ after)) (byteLength before) (byteLength (before ++ part)) =
      some part := by
  rw [slice?, dropBytes?_append, byteLength_append, Nat.add_sub_cancel_left]
  exact takeBytes?_append part after

/-- Between two parts of a text no character is split. -/
theorem isValid_of_append (h : text.toList = before ++ after) :
    String.Pos.Raw.IsValid text ⟨byteLength before⟩ := by
  refine String.Pos.Raw.isValid_iff_exists_append.mpr
    ⟨String.ofList before, String.ofList after, ?_, ?_⟩
  · rw [← String.ofList_append, ← h, String.ofList_toList]
  · rw [← utf8ByteSize_ofList]
    rfl

end Text

/-! ## Spans -/

namespace Span

open Text

variable {s t : Span} {text : String} {part a b c : List Char}

def Covers (s : Span) (text : String) (part : List Char) : Prop :=
  ∃ before after, text.toList = before ++ part ++ after ∧ s.start = byteLength before ∧
    s.stop = s.start + byteLength part

/-- The span is a range of bytes of the text, not empty, that begins and ends between characters. -/
structure Marks (s : Span) (text : String) : Prop where
  nonempty : s.start < s.stop
  inside : s.stop ≤ text.utf8ByteSize
  start : String.Pos.Raw.IsValid text ⟨s.start⟩
  stop : String.Pos.Raw.IsValid text ⟨s.stop⟩

theorem Covers.marks (h : s.Covers text part) (hpart : part ≠ []) : s.Marks text := by
  obtain ⟨before, after, htext, hstart, hstop⟩ := h
  have hpos := byteLength_pos hpart
  have hend : s.stop = byteLength (before ++ part) := by rw [hstop, hstart, byteLength_append]
  refine ⟨by omega, ?_, ?_, ?_⟩
  · rw [utf8ByteSize_eq, htext, hend, byteLength_append (before ++ part)]
    exact Nat.le_add_right ..
  · rw [List.append_assoc] at htext
    exact hstart ▸ isValid_of_append htext
  · exact hend ▸ isValid_of_append htext

theorem Covers.stop_le (h : s.Covers text part) : s.stop ≤ text.utf8ByteSize := by
  obtain ⟨before, after, htext, hstart, hstop⟩ := h
  rw [utf8ByteSize_eq, htext, hstop, hstart, byteLength_append, byteLength_append]
  omega

/-- What a span covers is what is between its ends. -/
theorem Covers.slice?_eq (h : s.Covers text part) :
    slice? text.toList s.start s.stop = some part := by
  obtain ⟨before, after, htext, hstart, hstop⟩ := h
  rw [htext, List.append_assoc, hstop, hstart, ← byteLength_append, slice?_append]

/-- No span in a text of which each offset fits is clamped. -/
theorem ofRange_of_covers (h : s.Covers text part) (hsize : text.utf8ByteSize ≤ maxOffset) :
    ofRange s.start s.stop = s := by
  have hle := h.stop_le
  obtain ⟨before, after, -, -, hstop⟩ := h
  exact ofRange_eq (by omega) (by omega)

theorem ofRange_of_marks (h : s.Marks text) (hsize : text.utf8ByteSize ≤ maxOffset) :
    ofRange s.start s.stop = s := by
  obtain ⟨hlt, hle, -, -⟩ := h
  exact ofRange_eq (by omega) (by omega)

theorem Marks.ofRange (h : s.Marks text) (hsize : text.utf8ByteSize ≤ maxOffset) :
    (Span.ofRange s.start s.stop).Marks text := by
  rw [ofRange_of_marks h hsize]
  exact h

/-- A part of what a span covers has a span of its own. -/
theorem Covers.within (h : s.Covers text (a ++ b ++ c)) (hstart : t.start = s.start + byteLength a)
    (hstop : t.stop = t.start + byteLength b) : t.Covers text b := by
  obtain ⟨before, after, htext, hbefore, -⟩ := h
  refine ⟨before ++ a, c ++ after, ?_, ?_, hstop⟩
  · rw [htext]
    simp
  · rw [hstart, hbefore, byteLength_append]

theorem Marks.merge (hs : s.Marks text) (ht : t.Marks text) : (s.merge t).Marks text where
  nonempty := by
    have := hs.nonempty
    simp only [Span.merge]
    omega
  inside := Nat.max_le.mpr ⟨hs.inside, ht.inside⟩
  start := by
    rcases Nat.le_total s.start t.start with h | h
    · simpa only [Span.merge, Nat.min_eq_left h] using hs.start
    · simpa only [Span.merge, Nat.min_eq_right h] using ht.start
  stop := by
    rcases Nat.le_total s.stop t.stop with h | h
    · simpa only [Span.merge, Nat.max_eq_right h] using ht.stop
    · simpa only [Span.merge, Nat.max_eq_left h] using hs.stop

/-- Generated code is nowhere in a text. -/
theorem Marks.ne_dummy (h : s.Marks text) : s ≠ .dummy := by
  rintro rfl
  exact absurd h.nonempty (Nat.lt_irrefl 0)

end Span

/-! ## What remains to be read -/

namespace Text

variable {text : String} {offset : Nat} {c : Char} {part rest rest' : List Char} {span : Span}

def Remains (text : String) (offset : Nat) (rest : List Char) : Prop :=
  ∃ before, text.toList = before ++ rest ∧ offset = byteLength before

theorem remains_start (text : String) : Remains text 0 text.toList := ⟨[], rfl, rfl⟩

/-- A part is read. -/
theorem Remains.past (h : Remains text offset (part ++ rest)) :
    Remains text (offset + byteLength part) rest := by
  obtain ⟨before, htext, rfl⟩ := h
  exact ⟨before ++ part, by rw [htext, List.append_assoc], by rw [byteLength_append]⟩

theorem Remains.tail (h : Remains text offset (c :: rest)) :
    Remains text (offset + c.utf8Size) rest := by
  rw [← List.singleton_append] at h
  exact h.past

/-- After so many bytes one text remains. -/
theorem Remains.unique (h : Remains text offset rest) (h' : Remains text offset rest') :
    rest = rest' := by
  obtain ⟨before, htext, hbefore⟩ := h
  obtain ⟨before', htext', hbefore'⟩ := h'
  have hempty {part : List Char} (hpart : byteLength part = 0) : part = [] := by
    by_contra hne
    have := byteLength_pos hne
    omega
  rcases List.append_eq_append_iff.mp (htext.symm.trans htext') with
    ⟨part, rfl, rfl⟩ | ⟨part, rfl, rfl⟩
  · rw [byteLength_append] at hbefore'
    have hpart : part = [] := hempty (by omega)
    rw [hpart, List.nil_append]
  · rw [byteLength_append] at hbefore
    have hpart : part = [] := hempty (by omega)
    rw [hpart, List.nil_append]

theorem Remains.covers (h : Remains text offset (part ++ rest)) (hstart : span.start = offset)
    (hstop : span.stop = offset + byteLength part) : span.Covers text part := by
  obtain ⟨before, htext, hoffset⟩ := h
  refine ⟨before, rest, ?_, hstart.trans hoffset, by rw [hstart, hstop]⟩
  rw [htext, List.append_assoc]

/-- What is read from one place of the text to a later one has a span in it. -/
theorem Remains.marks (h : Remains text span.start rest) (h' : Remains text span.stop rest')
    (hlt : span.start < span.stop) : span.Marks text := by
  obtain ⟨before, htext, hstart⟩ := h
  obtain ⟨before', htext', hstop⟩ := h'
  refine ⟨hlt, ?_, ?_, ?_⟩
  · rw [utf8ByteSize_eq, htext', byteLength_append, hstop]
    exact Nat.le_add_right ..
  · exact hstart ▸ isValid_of_append htext
  · exact hstop ▸ isValid_of_append htext'

end Text

end TokenMachine
