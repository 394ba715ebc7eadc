/-
  TokenMachine.Proofs.Cli.Arguments — where a flag stands does not matter.

  An argument that a dash begins is a flag or is refused; of the others one may be the path.
  Invariant of the pass (`Taken.Of`): what was taken is what the arguments so far say, whatever
  their order, but for the depth, which is that of the last of them to give one. While the
  arguments are acceptable the pass goes on, and it ends at the first that is not
  (`outcome_foldlM`). Both ends are described by the arguments alone and exclude each other, so
  each description is an equivalence (`foldlM_add_eq_iff`, `RunArgs.parse_verdict`).
-/

import Mathlib.Data.List.Induction
import Mathlib.Data.Nat.Digits.Defs
import TokenMachine.Cli.Args

namespace TokenMachine.Cli

variable {arg : String} {args before : List String} {cs : List Char} {n m : Nat} {t t' : Taken}
  {e : ArgError}

/-! ## Counts -/

def digitValue (d : Char) : Nat := d.toNat - '0'.toNat

def numberOf (ds : List Char) : Nat := Nat.ofDigits 10 (ds.reverse.map digitValue)

/-- Decimal digits, after a plus sign or none, of a number that has 64 bits. -/
def Spells (cs : List Char) (n : Nat) : Prop :=
  ∃ sign ds, cs = sign ++ ds ∧ (sign = [] ∨ sign = ['+']) ∧ ds ≠ [] ∧ (∀ d ∈ ds, d.isDigit) ∧
    n = numberOf ds ∧ n < 2 ^ 64

/-- Reading the digits from the left is weighing them from the right. -/
theorem foldl_eq_numberOf (ds : List Char) :
    ds.foldl (fun n d => 10 * n + (d.toNat - '0'.toNat)) 0 = numberOf ds := by
  induction ds using List.reverseRecOn with
  | nil => rfl
  | append_singleton ds d ih =>
    rw [List.foldl_append, ih, numberOf, numberOf, List.reverse_append]
    show 10 * _ + digitValue d = Nat.ofDigits 10 (digitValue d :: ds.reverse.map digitValue)
    rw [Nat.ofDigits_cons, Nat.add_comm]

theorem parseCount?_eq_some_iff : parseCount? cs = some n ↔ Spells cs n := by
  -- What is asked of the digits is the same with a sign and without.
  have hdigits (ds : List Char) :
      (if ds ≠ [] ∧ ds.all Char.isDigit then
        if numberOf ds < 2 ^ 64 then some (numberOf ds) else none
      else none) = some n ↔
      ds ≠ [] ∧ (∀ d ∈ ds, d.isDigit) ∧ n = numberOf ds ∧ n < 2 ^ 64 := by
    grind
  unfold parseCount?
  simp only [foldl_eq_numberOf]
  refine (hdigits _).trans ⟨?_, ?_⟩
  · intro h
    by_cases hplus : cs.head? = some '+'
    · rw [if_pos hplus] at h
      obtain ⟨ds, rfl⟩ := List.head?_eq_some_iff.mp hplus
      exact ⟨['+'], ds, rfl, .inr rfl, h⟩
    · rw [if_neg hplus] at h
      exact ⟨[], cs, rfl, .inl rfl, h⟩
  · rintro ⟨sign, ds, rfl, rfl | rfl, h⟩
    · have hplus : ds.head? ≠ some '+' := fun hhead =>
        absurd (h.2.1 '+' (List.mem_of_mem_head? hhead)) (by decide)
      rwa [List.nil_append, if_neg hplus]
    · exact h

theorem Spells.unique (hn : Spells cs n) (hm : Spells cs m) : n = m :=
  Option.some.inj ((parseCount?_eq_some_iff.mpr hn).symm.trans (parseCount?_eq_some_iff.mpr hm))

/-! ## One argument -/

def isOperand (arg : String) : Bool := arg.toList.head? != some '-'

def givesDepth (arg : String) : Bool := depthFlag.isPrefixOf arg.toList

def IsDepth (arg : String) (n : Nat) : Prop :=
  ∃ value, arg.toList = depthFlag ++ value ∧ Spells value n

def IsFlag (arg : String) : Prop := arg = "--profile" ∨ ∃ n, IsDepth arg n

theorem givesDepth_iff : givesDepth arg = true ↔ ∃ value, arg.toList = depthFlag ++ value := by
  rw [givesDepth, List.isPrefixOf_iff_prefix]
  exact exists_congr fun value => eq_comm

theorem isOperand_of_givesDepth (h : givesDepth arg = true) : isOperand arg = false := by
  obtain ⟨value, hvalue⟩ := givesDepth_iff.mp h
  rw [isOperand, hvalue]
  rfl

theorem givesDepth_of_isOperand (h : isOperand arg = true) : givesDepth arg = false := by
  by_contra hdepth
  rw [isOperand_of_givesDepth (by simpa using hdepth)] at h
  cases h

theorem IsDepth.givesDepth (h : IsDepth arg n) : givesDepth arg = true := by
  obtain ⟨value, hvalue, -⟩ := h
  exact givesDepth_iff.mpr ⟨value, hvalue⟩

theorem IsDepth.ne_profile (h : IsDepth arg n) : arg ≠ "--profile" := by
  rintro rfl
  exact absurd h.givesDepth (by decide)

theorem IsDepth.unique (hn : IsDepth arg n) (hm : IsDepth arg m) : n = m := by
  obtain ⟨value, hvalue, hn⟩ := hn
  obtain ⟨value', hvalue', hm⟩ := hm
  obtain rfl := List.append_cancel_left (hvalue.symm.trans hvalue')
  exact hn.unique hm

theorem not_isFlag (hdepth : ∀ n, ¬ IsDepth arg n) (hprofile : arg ≠ "--profile") :
    ¬ IsFlag arg := by
  rintro (h | ⟨n, hn⟩)
  · exact hprofile h
  · exact hdepth n hn

def complaint (arg : String) : ArgError :=
  if givesDepth arg then .invalidDepth (String.ofList (arg.toList.drop depthFlag.length))
  else if isOperand arg then .unexpectedArgument arg
  else .unknownOption arg

/-- What an argument reads as, whatever stands before it. -/
inductive Reads (arg : String) : Except ArgError Arg → Prop
  | depth {n : Nat} : IsDepth arg n → Reads arg (.ok (.maxDepth n))
  | profile : arg = "--profile" → Reads arg (.ok .profile)
  | operand : isOperand arg = true → Reads arg (.ok (.path arg))
  | refused : isOperand arg = false → ¬ IsFlag arg → Reads arg (.error (complaint arg))

theorem reads_parse_of_givesDepth (hdepth : givesDepth arg = true) :
    Reads arg (Arg.parse arg) := by
  obtain ⟨value, hvalue⟩ := givesDepth_iff.mp hdepth
  have hdrop : arg.toList.drop depthFlag.length = value := by rw [hvalue, List.drop_left]
  unfold Arg.parse
  simp only [show depthFlag.isPrefixOf arg.toList = true from hdepth, if_true, hdrop]
  cases hcount : parseCount? value with
  | some n => exact .depth ⟨value, hvalue, parseCount?_eq_some_iff.mp hcount⟩
  | none =>
    have hcomplaint : complaint arg = .invalidDepth (String.ofList value) := by
      rw [complaint, if_pos hdepth, hdrop]
    rw [← hcomplaint]
    refine .refused (isOperand_of_givesDepth hdepth) (not_isFlag ?_ ?_)
    · rintro n ⟨value', hvalue', hn⟩
      obtain rfl := List.append_cancel_left (hvalue.symm.trans hvalue')
      rw [parseCount?_eq_some_iff.mpr hn] at hcount
      cases hcount
    · rintro rfl
      exact absurd hdepth (by decide)

theorem reads_parse (arg : String) : Reads arg (Arg.parse arg) := by
  by_cases hdepth : givesDepth arg = true
  · exact reads_parse_of_givesDepth hdepth
  · unfold Arg.parse
    simp only [show ¬ depthFlag.isPrefixOf arg.toList = true from hdepth]
    by_cases hprofile : arg = "--profile"
    · rw [if_pos hprofile]
      exact .profile hprofile
    · rw [if_neg hprofile]
      by_cases hdash : arg.toList.head? = some '-'
      · have hoperand : isOperand arg = false := by simp [isOperand, hdash]
        have hcomplaint : complaint arg = .unknownOption arg := by
          simp [complaint, hdepth, hoperand]
        rw [if_pos hdash, ← hcomplaint]
        exact .refused hoperand (not_isFlag (fun n hn => hdepth hn.givesDepth) hprofile)
      · rw [if_neg hdash]
        exact .operand (by simpa [isOperand] using hdash)

/-! ## The arguments so far -/

def Acceptable (args : List String) : Prop :=
  (∀ arg ∈ args, isOperand arg = false → IsFlag arg) ∧ (args.filter isOperand).length ≤ 1

/-- The error is about the first argument that the ones before it leave unacceptable. -/
def FirstRefused (args : List String) (e : ArgError) : Prop :=
  ∃ before arg after, args = before ++ arg :: after ∧ Acceptable before ∧
    ¬ Acceptable (before ++ [arg]) ∧ e = complaint arg

/-- What was taken is what the arguments say. Of those that give a depth the last one counts. -/
structure Taken.Of (args : List String) (t : Taken) : Prop where
  operands : args.filter isOperand = t.path.toList
  flags : ∀ arg ∈ args, isOperand arg = false → IsFlag arg
  profile : t.options.profile = true ↔ "--profile" ∈ args
  depth : Option.Rel IsDepth (args.filter givesDepth).getLast? t.options.maxDepth

inductive Outcome (args : List String) : Except ArgError Taken → Prop
  | taken {t : Taken} : t.Of args → Outcome args (.ok t)
  | refused {e : ArgError} : FirstRefused args e → Outcome args (.error e)

theorem Acceptable.of_prefix (h : Acceptable args) (hbefore : before <+: args) :
    Acceptable before :=
  ⟨fun arg harg => h.1 arg (hbefore.subset harg),
    (hbefore.filter isOperand).length_le.trans h.2⟩

theorem Taken.Of.acceptable (h : t.Of args) : Acceptable args :=
  ⟨h.flags, by rw [h.operands]; cases t.path <;> simp⟩

theorem FirstRefused.not_acceptable (h : FirstRefused args e) : ¬ Acceptable args := by
  obtain ⟨before, arg, after, rfl, -, hrefused, -⟩ := h
  exact fun hargs => hrefused (hargs.of_prefix ⟨after, by simp⟩)

theorem FirstRefused.append (h : FirstRefused args e) (rest : List String) :
    FirstRefused (args ++ rest) e := by
  obtain ⟨before, arg, after, rfl, h⟩ := h
  exact ⟨before, arg, after ++ rest, by simp, h⟩

/-- No acceptable beginning reaches past an argument that is refused. -/
theorem Acceptable.length_le {taken : List String} (h : Acceptable taken)
    (hrefused : ¬ Acceptable (before ++ [arg])) (htaken : taken <+: args)
    (hbefore : before ++ [arg] <+: args) : taken.length ≤ before.length := by
  by_contra hlt
  refine hrefused (h.of_prefix (List.prefix_of_prefix_length_le hbefore htaken ?_))
  rw [List.length_append, List.length_singleton]
  omega

theorem FirstRefused.unique {e' : ArgError} (h : FirstRefused args e) (h' : FirstRefused args e') :
    e = e' := by
  obtain ⟨before, arg, after, hargs, hbefore, hrefused, rfl⟩ := h
  obtain ⟨before', arg', after', hargs', hbefore', hrefused', rfl⟩ := h'
  have hle : before.length ≤ before'.length :=
    hbefore.length_le hrefused' ⟨_, hargs.symm⟩ ⟨after', by simp [hargs']⟩
  have hge : before'.length ≤ before.length :=
    hbefore'.length_le hrefused ⟨_, hargs'.symm⟩ ⟨after, by simp [hargs]⟩
  obtain ⟨-, hcons⟩ := List.append_inj (hargs.symm.trans hargs') (by omega)
  rw [(List.cons.inj hcons).1]

theorem Taken.Of.unique (h : t.Of args) (h' : t'.Of args) : t = t' := by
  obtain ⟨path, ⟨maxDepth, profile⟩⟩ := t
  obtain ⟨path', ⟨maxDepth', profile'⟩⟩ := t'
  have hpath : path = path' := by
    simpa using congrArg List.head? (h.operands.symm.trans h'.operands)
  have hprofile : profile = profile' := by
    rw [Bool.eq_iff_iff]
    exact h.profile.trans h'.profile.symm
  have hdepth : maxDepth = maxDepth' := by
    have hlast := h.depth
    have hlast' := h'.depth
    revert hlast hlast'
    cases (args.filter givesDepth).getLast? with
    | none => rintro ⟨⟩ ⟨⟩; rfl
    | some last =>
      rintro ⟨hn⟩ ⟨hm⟩
      exact congrArg some (hn.unique hm)
  rw [hpath, hprofile, hdepth]

theorem Outcome.unique {r r' : Except ArgError Taken} (h : Outcome args r)
    (h' : Outcome args r') : r = r' := by
  cases h with
  | taken h =>
    cases h' with
    | taken h' => rw [h.unique h']
    | refused h' => exact absurd h.acceptable h'.not_acceptable
  | refused h =>
    cases h' with
    | taken h' => exact absurd h'.acceptable h.not_acceptable
    | refused h' => rw [h.unique h']

/-! ## One argument more -/

theorem Outcome.refuse (hbefore : Acceptable before) (harg : ¬ Acceptable (before ++ [arg])) :
    Outcome (before ++ [arg]) (.error (complaint arg)) :=
  .refused ⟨before, arg, [], rfl, hbefore, harg, rfl⟩

theorem Taken.Of.add_depth (h : t.Of before) (harg : IsDepth arg n) :
    Taken.Of (before ++ [arg]) { t with options := { t.options with maxDepth := some n } } where
  operands := by
    rw [List.filter_append, h.operands]
    simp [isOperand_of_givesDepth harg.givesDepth]
  flags := List.forall_mem_append.mpr ⟨h.flags, by simpa using fun _ => .inr ⟨n, harg⟩⟩
  profile := by simpa [harg.ne_profile.symm] using h.profile
  depth := by
    rw [List.filter_append, List.filter_cons_of_pos harg.givesDepth, List.filter_nil,
      List.getLast?_concat]
    exact .some harg

theorem Taken.Of.add_profile (h : t.Of before) :
    Taken.Of (before ++ ["--profile"]) { t with options := { t.options with profile := true } }
    where
  operands := by
    rw [List.filter_append, h.operands]
    exact List.append_nil _
  flags := List.forall_mem_append.mpr ⟨h.flags, by simpa using fun _ => .inl rfl⟩
  profile := by simp
  depth := by
    rw [List.filter_append, List.filter_cons_of_neg (by decide), List.filter_nil, List.append_nil]
    exact h.depth

theorem Taken.Of.add_path (h : t.Of before) (hpath : t.path = none) (harg : isOperand arg = true) :
    Taken.Of (before ++ [arg]) { t with path := some arg } where
  operands := by
    rw [List.filter_append, h.operands, hpath]
    simp [harg]
  flags := List.forall_mem_append.mpr ⟨h.flags, by simp [harg]⟩
  profile := by
    have hne : "--profile" ≠ arg := by
      rintro rfl
      exact absurd harg (by decide)
    simpa [hne] using h.profile
  depth := by
    rw [List.filter_append, List.filter_cons_of_neg (by simp [givesDepth_of_isOperand harg]),
      List.filter_nil, List.append_nil]
    exact h.depth

theorem outcome_add (h : t.Of before) (arg : String) :
    Outcome (before ++ [arg]) (t.add arg) := by
  have hreads := reads_parse arg
  unfold Taken.add
  generalize Arg.parse arg = parsed at hreads ⊢
  cases hreads with
  | depth harg => exact .taken (h.add_depth harg)
  | profile harg =>
    subst harg
    exact .taken h.add_profile
  | operand harg =>
    cases hpath : t.path with
    | none => exact .taken (h.add_path hpath harg)
    | some path =>
      have hcomplaint : complaint arg = .unexpectedArgument arg := by
        simp [complaint, givesDepth_of_isOperand harg, harg]
      rw [← hcomplaint]
      refine .refuse h.acceptable fun hargs => absurd hargs.2 ?_
      simp [List.filter_append, h.operands, hpath, harg]
  | refused hdash hflag =>
    exact .refuse h.acceptable fun hargs => hflag (hargs.1 arg (by simp) hdash)

/-! ## The whole pass -/

theorem outcome_foldlM (h : t.Of before) (rest : List String) :
    Outcome (before ++ rest) (rest.foldlM Taken.add t) := by
  induction rest generalizing before t with
  | nil => exact .taken (by rwa [List.append_nil])
  | cons arg rest ih =>
    have hsplit : before ++ arg :: rest = before ++ [arg] ++ rest := by simp
    have hadd := outcome_add h arg
    rw [List.foldlM_cons, hsplit]
    generalize t.add arg = r at hadd
    cases hadd with
    | taken h' => exact ih h'
    | refused h' => exact .refused (h'.append rest)

theorem Taken.of_nil : Taken.Of [] {} where
  operands := rfl
  flags := List.forall_mem_nil _
  profile := by simp
  depth := .none

/-- The pass ends as the arguments say. -/
theorem foldlM_add_eq_iff {r : Except ArgError Taken} :
    args.foldlM Taken.add {} = r ↔ Outcome args r := by
  have hrun : Outcome args (args.foldlM Taken.add {}) := outcome_foldlM Taken.of_nil args
  constructor
  · rintro rfl
    exact hrun
  · exact hrun.unique

/-- In another order, the arguments that give a depth following each other as before, arguments say
the same. -/
theorem Taken.Of.perm {args' : List String} (h : t.Of args) (hperm : args.Perm args')
    (hdepths : args.filter givesDepth = args'.filter givesDepth) : t.Of args' where
  operands := by
    have hoperands : t.path.toList.Perm (args'.filter isOperand) := h.operands ▸ hperm.filter _
    cases hpath : t.path with
    | none =>
      rw [hpath] at hoperands
      exact List.nil_perm.mp hoperands
    | some path =>
      rw [hpath] at hoperands
      exact (List.singleton_perm.mp hoperands).symm
  flags arg harg := h.flags arg (hperm.mem_iff.mpr harg)
  profile := h.profile.trans hperm.mem_iff
  depth := hdepths ▸ h.depth

namespace RunArgs

variable {a : RunArgs}

theorem parse_of_taken (h : t.Of args) : parse args = t.finish := by
  unfold parse
  rw [foldlM_add_eq_iff.mpr (.taken h)]
  rfl

theorem parse_of_refused (h : FirstRefused args e) : parse args = .error e := by
  unfold parse
  rw [foldlM_add_eq_iff.mpr (.refused h)]
  rfl

theorem taken_or_refused (args : List String) :
    (∃ t : Taken, t.Of args) ∨ ∃ e, FirstRefused args e := by
  have hrun := foldlM_add_eq_iff.mp (rfl : args.foldlM Taken.add {} = _)
  generalize args.foldlM Taken.add {} = r at hrun
  cases hrun with
  | taken h => exact .inl ⟨_, h⟩
  | refused h => exact .inr ⟨_, h⟩

theorem parse_eq_ok_iff : parse args = .ok a ↔ Taken.Of args ⟨some a.path, a.options⟩ := by
  obtain ⟨t, ht⟩ | ⟨e, he⟩ := taken_or_refused args
  · have hfinish : t.finish = .ok a ↔ t = ⟨some a.path, a.options⟩ := by
      obtain ⟨path | path, options⟩ := t <;> cases a <;> simp [Taken.finish]
    rw [parse_of_taken ht, hfinish]
    constructor
    · rintro rfl
      exact ht
    · exact ht.unique
  · rw [parse_of_refused he]
    exact ⟨nofun, fun h => absurd h.acceptable he.not_acceptable⟩

theorem parse_eq_error_iff :
    parse args = .error e ↔
      FirstRefused args e ∨ e = .missingPath ∧ Acceptable args ∧ args.filter isOperand = [] := by
  obtain ⟨t, ht⟩ | ⟨e', he'⟩ := taken_or_refused args
  · have hrefused : ¬ FirstRefused args e := fun h => h.not_acceptable ht.acceptable
    have hfinish : t.finish = .error e ↔ e = .missingPath ∧ t.path.toList = [] := by
      obtain ⟨path | path, options⟩ := t <;> simp [Taken.finish, eq_comm]
    rw [parse_of_taken ht, hfinish, ht.operands]
    simp [hrefused, ht.acceptable]
  · rw [parse_of_refused he']
    constructor
    · rintro ⟨⟩
      exact .inl he'
    · rintro (he | ⟨-, hargs, -⟩)
      · rw [he.unique he']
      · exact absurd hargs he'.not_acceptable

theorem exists_parse_eq_ok_iff :
    (∃ a, parse args = .ok a) ↔
      (args.filter isOperand).length = 1 ∧ ∀ arg ∈ args, isOperand arg = false → IsFlag arg := by
  constructor
  · rintro ⟨a, ha⟩
    have htaken := parse_eq_ok_iff.mp ha
    exact ⟨by rw [htaken.operands]; rfl, htaken.flags⟩
  · rintro ⟨hone, hflags⟩
    obtain ⟨t, ht⟩ | ⟨e, he⟩ := taken_or_refused args
    · rw [ht.operands] at hone
      obtain ⟨path | path, options⟩ := t
      · cases hone
      · exact ⟨_, parse_of_taken ht⟩
    · exact absurd ⟨hflags, hone.le⟩ he.not_acceptable

/-- Where the flags stand makes no difference. The arguments are taken exactly if one of them does
not begin with a dash and the others are `--profile`, or `--max-depth=` and a count. The path is
then the one, the profile is asked for if `--profile` occurs, and the depth is that of the last
argument to give one. The same arguments in another order, those that give a depth following
each other as before, give the same. Otherwise the error names the first argument, from the left,
that the ones before it leave unacceptable, and if there is none, the missing path. -/
theorem parse_verdict (args : List String) :
    ((∃ a, parse args = .ok a) ↔
      (args.filter isOperand).length = 1 ∧ ∀ arg ∈ args, isOperand arg = false → IsFlag arg) ∧
    (∀ a, parse args = .ok a →
      args.filter isOperand = [a.path] ∧ (a.options.profile = true ↔ "--profile" ∈ args) ∧
      Option.Rel IsDepth (args.filter givesDepth).getLast? a.options.maxDepth) ∧
    (∀ args', args.Perm args' → args.filter givesDepth = args'.filter givesDepth →
      ∀ a, parse args = .ok a ↔ parse args' = .ok a) ∧
    ∀ e, parse args = .error e ↔
      FirstRefused args e ∨
        e = .missingPath ∧ Acceptable args ∧ args.filter isOperand = [] := by
  refine ⟨exists_parse_eq_ok_iff, ?_, ?_, fun e => parse_eq_error_iff⟩
  · intro a ha
    have htaken := parse_eq_ok_iff.mp ha
    exact ⟨htaken.operands, htaken.profile, htaken.depth⟩
  · intro args' hperm hdepths a
    rw [parse_eq_ok_iff, parse_eq_ok_iff]
    exact ⟨(·.perm hperm hdepths), (·.perm hperm.symm hdepths.symm)⟩

theorem parse_verdict_of_two_depths :
    parse ["--max-depth=7", "a.opal", "--profile", "--max-depth=+064"] =
      .ok ⟨"a.opal", some 64, true⟩ ∧
    IsDepth "--max-depth=+064" 64 ∧
    parse ["--profile", "--max-depth=7", "--max-depth=+064", "a.opal"] =
      .ok ⟨"a.opal", some 64, true⟩ ∧
    FirstRefused ["a.opal", "--max-depth=18446744073709551616", "b.opal"]
      (.invalidDepth "18446744073709551616") := by
  have hrun : parse ["--max-depth=7", "a.opal", "--profile", "--max-depth=+064"] =
      .ok ⟨"a.opal", some 64, true⟩ := by rfl
  refine ⟨hrun, ?_, ?_, ?_⟩
  · obtain ⟨-, -, hdepth⟩ := (parse_verdict _).2.1 _ hrun
    cases hdepth with
    | some h => exact h
  · exact ((parse_verdict _).2.2.1 _ (by decide) (by decide) _).mp hrun
  · obtain h | ⟨h, -⟩ := ((parse_verdict _).2.2.2 _).mp
      (by rfl : parse ["a.opal", "--max-depth=18446744073709551616", "b.opal"] =
        .error (.invalidDepth "18446744073709551616"))
    · exact h
    · cases h

end RunArgs

end TokenMachine.Cli
