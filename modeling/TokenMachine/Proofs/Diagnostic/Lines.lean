/-
  TokenMachine.Proofs.Diagnostic.Lines — the lines of a text, and where a line table finds them.

  A line begins where the text does, or after a line feed, and ends before a run of carriage
  returns with which it is closed by a line feed or by the end of the text (`Text.IsLine`). The
  table of the text has the number of an offset from the line feeds before it
  (`LineTable.lineOf_ofText`), the place where a line begins from its number
  (`LineTable.lineStart?_ofText`), and from these the column of each character of a line
  (`LineTable.lineCol_ofText`) and the line (`LineTable.lineText?_of_isLine`).
-/

import TokenMachine.Diagnostic.LineTable
import TokenMachine.Proofs.Text.Places

namespace TokenMachine

/-! ## Lines -/

namespace Text

variable {text before line ending after : List Char}

/-- What closes a line, and what follows: carriage returns, and then a line feed or the end. -/
inductive ClosesLine : List Char → List Char → Prop
  | feed (returns : Nat) (after : List Char) :
      ClosesLine (List.replicate returns '\r' ++ ['\n']) after
  | last (returns : Nat) : ClosesLine (List.replicate returns '\r') []

structure IsLine (text before line ending after : List Char) : Prop where
  text_eq : text = before ++ (line ++ ending ++ after)
  opens : ∀ c ∈ before.getLast?, c = '\n'
  inside : '\n' ∉ line
  trimmed : ∀ c ∈ line.getLast?, c ≠ '\r'
  closes : ClosesLine ending after

theorem ClosesLine.isLineEnd (h : ClosesLine ending after) :
    ∀ c ∈ ending, c = '\n' ∨ c = '\r' := by
  intro c hc
  cases h with
  | feed returns =>
    rcases List.mem_append.mp hc with hc | hc
    · exact .inr (List.eq_of_mem_replicate hc)
    · exact .inl (List.mem_singleton.mp hc)
  | last returns => exact .inr (List.eq_of_mem_replicate hc)

end Text

/-! ## Line tables -/

namespace LineTable

open Text (ClosesLine IsLine byteLength)

variable {text before line ending after lead tail : List Char} {offset start : Nat}

theorem startsFrom_append (offset : Nat) (cs cs' : List Char) :
    startsFrom offset (cs ++ cs') =
      startsFrom offset cs ++ startsFrom (offset + byteLength cs) cs' := by
  induction cs generalizing offset with
  | nil => rfl
  | cons c cs ih =>
    rw [List.cons_append, startsFrom, startsFrom, ih, byteLength, Nat.add_assoc]
    split <;> rfl

theorem length_startsFrom (offset : Nat) (cs : List Char) :
    (startsFrom offset cs).length = cs.count '\n' := by
  induction cs generalizing offset with
  | nil => rfl
  | cons c cs ih =>
    rw [startsFrom, List.count_cons]
    by_cases hc : c = '\n' <;> simp [hc, ih]

theorem bounds_of_mem_startsFrom (h : start ∈ startsFrom offset text) :
    offset < start ∧ start ≤ offset + byteLength text := by
  induction text generalizing offset with
  | nil => cases h
  | cons c text ih =>
    have hpos := c.utf8Size_pos
    rw [byteLength]
    by_cases hc : c = '\n'
    · rw [startsFrom, if_pos hc] at h
      rcases List.mem_cons.mp h with rfl | h
      · omega
      · have := ih h
        omega
    · rw [startsFrom, if_neg hc] at h
      have := ih h
      omega

/-- In a text of which each offset fits, no start is clamped. -/
theorem starts_ofText (h : byteLength text ≤ Span.maxOffset) :
    (ofText text).starts = (0 :: startsFrom 0 text).toArray := by
  have hfits : ∀ start ∈ startsFrom 0 text, min start Span.maxOffset = start := by
    intro start hstart
    have hle := (bounds_of_mem_startsFrom hstart).2
    omega
  rw [ofText, List.map_congr_left hfits, List.map_id']

theorem size_starts (text : List Char) : (ofText text).starts.size = text.count '\n' + 1 := by
  simp [ofText, length_startsFrom]

/-! ## Searching -/

/-- If the first `m` keys are those up to the one sought, halving comes to the last of them. -/
theorem narrow_add_one {keys : Array Nat} {key base size m : Nat} {hsize : base + size ≤ keys.size}
    {hpos : 0 < size} (hm : ∀ i (h : i < keys.size), keys[i] ≤ key ↔ i < m) (hlt : base < m)
    (hle : m ≤ base + size) : (narrow keys key base size hsize hpos).val + 1 = m := by
  -- Among the keys that are left, the first is one of the `m`, and the last of the `m` is too.
  fun_induction narrow keys key base size hsize hpos with
  | case1 =>
    dsimp only
    omega
  | case2 base size hsize hpos hone hmid hbefore ih =>
    have hout : ¬base + size / 2 < m := (hm _ hmid).not.mp (Nat.not_le.mpr hbefore)
    exact ih hlt (by omega)
  | case3 base size hsize hpos hone hmid hafter ih =>
    have hin : base + size / 2 < m := (hm _ hmid).mp (Nat.not_lt.mp hafter)
    exact ih hin (by omega)

theorem index_add_one {t : LineTable} {m : Nat} (hpos : 0 < m) (hle : m ≤ t.starts.size)
    (hm : ∀ i (h : i < t.starts.size), t.starts[i] ≤ offset ↔ i < m) :
    t.index offset + 1 = m := by
  have hsize : 0 < t.starts.size := by omega
  have hfound : (narrow t.starts offset 0 t.starts.size (by omega) hsize).val + 1 = m :=
    narrow_add_one hm hpos (by omega)
  rw [index, search, dif_pos hsize]
  generalize narrow t.starts offset 0 t.starts.size _ hsize = i at hfound
  have hkey : t.starts[i] ≤ offset := (hm i i.isLt).mpr (by omega)
  by_cases heq : t.starts[i] = offset
  · simp only [place, if_pos heq, hfound]
  · have hlt : t.starts[i] < offset := Nat.lt_of_le_of_ne hkey heq
    simp only [place, if_neg heq, if_pos hlt]
    omega

/-- Whatever the offset, the line found is one of the table. -/
theorem index_lt {t : LineTable} (h : 0 < t.starts.size) (offset : Nat) :
    t.index offset < t.starts.size := by
  rw [index, search, dif_pos h]
  generalize narrow t.starts offset 0 t.starts.size _ h = i
  have hlt := i.isLt
  by_cases heq : t.starts[i] = offset
  · simpa only [place, if_pos heq] using hlt
  · simp only [place, if_neg heq]
    split <;> omega

theorem ordinal_eq {index : Nat} (h : index < Span.maxOffset) : ordinal index = index + 1 := by
  rw [ordinal, if_pos (Nat.le_of_lt h), Nat.mod_eq_of_lt (Nat.succ_lt_succ h)]

/-! ## The lines of a text -/

/-- The line feeds before a place number the line that it is in. -/
theorem index_ofText (h : byteLength (before ++ after) ≤ Span.maxOffset) :
    (ofText (before ++ after)).index (byteLength before) = before.count '\n' := by
  have hlength : (0 :: startsFrom 0 before).length = before.count '\n' + 1 := by
    rw [List.length_cons, length_startsFrom]
  have hstarts : (ofText (before ++ after)).starts =
      ((0 :: startsFrom 0 before) ++ startsFrom (byteLength before) after).toArray := by
    rw [starts_ofText h, startsFrom_append, Nat.zero_add, List.cons_append]
  refine Nat.succ.inj (index_add_one (Nat.succ_pos _) ?_ fun i hi => ?_)
  · rw [size_starts, List.count_append]
    omega
  · simp only [hstarts, List.getElem_toArray]
    rw [Nat.succ_eq_add_one, ← hlength]
    by_cases hbefore : i < (0 :: startsFrom 0 before).length
    · rw [List.getElem_append_left hbefore]
      refine iff_of_true ?_ hbefore
      rcases List.mem_cons.mp (List.getElem_mem hbefore) with hzero | hmem
      · omega
      · simpa using (bounds_of_mem_startsFrom hmem).2
    · rw [List.getElem_append_right (Nat.not_lt.mp hbefore)]
      refine iff_of_false (Nat.not_le.mpr ?_) hbefore
      exact (bounds_of_mem_startsFrom (List.getElem_mem _)).1

theorem lineOf_ofText (h : byteLength (before ++ after) < Span.maxOffset) :
    (ofText (before ++ after)).lineOf (byteLength before) = before.count '\n' + 1 := by
  have hcount := Text.count_le_byteLength '\n' before
  rw [Text.byteLength_append] at h
  rw [lineOf, index_ofText (by rw [Text.byteLength_append]; omega), ordinal_eq (by omega)]

/-- A line begins where the text before it ends. -/
theorem lineStart?_ofText (hopens : ∀ c ∈ before.getLast?, c = '\n')
    (h : byteLength (before ++ after) ≤ Span.maxOffset) :
    (ofText (before ++ after)).lineStart? (before.count '\n' + 1) = some (byteLength before) := by
  rw [lineStart?, if_neg (Nat.succ_ne_zero _), Nat.add_sub_cancel, starts_ofText h,
    List.getElem?_toArray]
  rcases List.eq_nil_or_concat before with rfl | ⟨passed, c, rfl⟩
  · rfl
  · obtain rfl : c = '\n' := hopens c (by simp)
    have hcount : (passed ++ ['\n']).count '\n' = (startsFrom 0 passed).length + 1 := by
      rw [List.count_append, length_startsFrom]
      rfl
    rw [List.concat_eq_append, hcount, List.getElem?_cons_succ, startsFrom_append,
      startsFrom_append, List.append_assoc, List.getElem?_append_right (Nat.le_refl _),
      Nat.sub_self, Text.byteLength_append, Nat.zero_add]
    rfl

/-- No line has a number past that of the last. -/
theorem lineStart?_eq_none (text : List Char) :
    (ofText text).lineStart? (text.count '\n' + 1 + 1) = none := by
  rw [lineStart?, if_neg (Nat.succ_ne_zero _), Nat.add_sub_cancel]
  exact Array.getElem?_eq_none (Nat.le_of_eq (size_starts text))

/-- A line ends where the next one begins, or with the text. -/
theorem lineStop_of_isLine (h : IsLine text before line ending after)
    (hsize : byteLength text ≤ Span.maxOffset) :
    ((ofText text).lineStart? (before.count '\n' + 1 + 1)).getD (byteLength text) =
      byteLength (before ++ (line ++ ending)) := by
  obtain ⟨rfl, -, hinside, -, hcloses⟩ := h
  have hline : line.count '\n' = 0 := List.count_eq_zero.mpr hinside
  have hreturns (n : Nat) : (List.replicate n '\r').count '\n' = 0 := by
    rw [List.count_replicate, if_neg (by decide)]
  cases hcloses with
  | feed returns =>
    have hopens : ∀ c ∈ (before ++ (line ++ (List.replicate returns '\r' ++ ['\n']))).getLast?,
        c = '\n' := by
      simp
    have hcount : (before ++ (line ++ (List.replicate returns '\r' ++ ['\n']))).count '\n' =
        before.count '\n' + 1 := by
      simp [List.count_append, hline, hreturns]
    rw [← List.append_assoc before] at hsize ⊢
    rw [← hcount, lineStart?_ofText hopens hsize]
    rfl
  | last returns =>
    rw [List.append_nil]
    have hcount : (before ++ (line ++ List.replicate returns '\r')).count '\n' =
        before.count '\n' := by
      simp [List.count_append, hline, hreturns]
    rw [← hcount, lineStart?_eq_none]
    rfl

theorem trimLineEnd_append (h : ∀ c ∈ line.getLast?, c ≠ '\n' ∧ c ≠ '\r')
    (hending : ∀ c ∈ ending, c = '\n' ∨ c = '\r') : trimLineEnd (line ++ ending) = line := by
  have hdrop : ((line ++ ending).reverse.dropWhile fun c => c = '\n' || c = '\r') =
      line.reverse := by
    rw [List.reverse_append]
    refine Text.dropWhile_run ?_ ?_
    · intro c hc
      simpa using hending c (List.mem_reverse.mp hc)
    · intro c hc
      rw [List.head?_reverse] at hc
      simpa using h c hc
  rw [trimLineEnd, hdrop, List.reverse_reverse]

theorem lineText?_of_isLine (h : IsLine text before line ending after)
    (hsize : byteLength text < Span.maxOffset - 1) :
    (ofText text).lineText? text (before.count '\n' + 1) = some line := by
  have hstart : (ofText text).lineStart? (before.count '\n' + 1) = some (byteLength before) := by
    rw [h.text_eq] at hsize ⊢
    exact lineStart?_ofText h.opens (by omega)
  have hslice : Text.slice? text (byteLength before) (byteLength (before ++ (line ++ ending))) =
      some (line ++ ending) := by
    rw [h.text_eq]
    exact Text.slice?_append before (line ++ ending) after
  have hlast : ∀ c ∈ line.getLast?, c ≠ '\n' ∧ c ≠ '\r' := by
    intro c hc
    refine ⟨?_, h.trimmed c hc⟩
    rintro rfl
    exact h.inside (List.mem_of_getLast? hc)
  -- The text has no line whose number plus one wraps around.
  have hnext : (before.count '\n' + 1 + 1) % (Span.maxOffset + 1) = before.count '\n' + 1 + 1 := by
    have hcount := Text.count_le_byteLength '\n' before
    rw [h.text_eq, Text.byteLength_append] at hsize
    exact Nat.mod_eq_of_lt (by omega)
  simp only [lineText?, hstart, hnext, lineStop_of_isLine h (by omega), hslice,
    Option.bind_eq_bind, Option.bind_some, Option.map_some]
  rw [trimLineEnd_append hlast h.closes.isLineEnd]

/-- The end of a text that is one line, however long, has as its column the characters of it. -/
theorem lineCol_of_not_mem (h : '\n' ∉ text) :
    (ofText text).lineCol text (byteLength text) = (1, ordinal text.length) := by
  have hcount : text.count '\n' = 0 := List.count_eq_zero.mpr h
  have hstarts : startsFrom 0 text = [] :=
    List.length_eq_zero_iff.mp ((length_startsFrom 0 text).trans hcount)
  have hsize : (ofText text).starts.size = 1 := by rw [size_starts, hcount]
  have hindex : (ofText text).index (byteLength text) = 0 := by
    have hlt := index_lt (t := ofText text) (by omega) (byteLength text)
    omega
  have hline : (ofText text).lineOf (byteLength text) = 1 := by
    rw [lineOf, hindex]
    rfl
  have hstart : (ofText text).lineStart? 1 = some 0 := by
    rw [ofText, hstarts]
    rfl
  have hslice : Text.slice? text 0 (byteLength text) = some text := by
    have hwhole := Text.slice?_append [] text []
    rw [List.append_nil] at hwhole
    exact hwhole
  simp only [lineCol, hline, hstart, Option.getD_some, Nat.min_self, Nat.max_zero, hslice,
    Option.map_some]

/-- Lines and columns count from one. -/
theorem lineCol_ofText (hopens : ∀ c ∈ before.getLast?, c = '\n') (hinside : '\n' ∉ lead)
    (hsize : byteLength (before ++ (lead ++ after)) < Span.maxOffset) :
    (ofText (before ++ (lead ++ after))).lineCol (before ++ (lead ++ after))
        (byteLength (before ++ lead)) =
      (before.count '\n' + 1, lead.length + 1) := by
  have hlead : lead.count '\n' = 0 := List.count_eq_zero.mpr hinside
  have hline : (ofText (before ++ (lead ++ after))).lineOf (byteLength (before ++ lead)) =
      before.count '\n' + 1 := by
    rw [← List.append_assoc] at hsize ⊢
    rw [lineOf_ofText hsize, List.count_append, hlead, Nat.add_zero]
  have hstart := lineStart?_ofText hopens (Nat.le_of_lt hsize)
  have hlength := Text.length_le_byteLength lead
  simp only [Text.byteLength_append] at hsize
  have hstop : max (min (byteLength (before ++ lead)) (byteLength (before ++ (lead ++ after))))
      (byteLength before) = byteLength (before ++ lead) := by
    simp only [Text.byteLength_append]
    omega
  simp only [lineCol, hline, hstart, Option.getD_some, hstop, Text.slice?_append, Option.map_some]
  rw [ordinal_eq (by omega)]

theorem lineCol_of_isLine (h : IsLine text before (lead ++ tail) ending after)
    (hsize : byteLength text < Span.maxOffset) :
    (ofText text).lineCol text (byteLength (before ++ lead)) =
      (before.count '\n' + 1, lead.length + 1) := by
  have htext : text = before ++ (lead ++ (tail ++ ending ++ after)) := by simp [h.text_eq]
  rw [htext] at hsize ⊢
  exact lineCol_ofText h.opens (fun hmem => h.inside (List.mem_append_left _ hmem)) hsize

end LineTable

end TokenMachine
