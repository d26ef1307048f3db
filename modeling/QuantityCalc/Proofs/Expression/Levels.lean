import QuantityCalc.Proofs.Expression.Elements
import QuantityCalc.Proofs.Expression.Stages

/-!
# The limit of nesting

Two things are limited by the same option: how many argument lists lie in each other, and how many
parentheses are open at once in one level of an expression. Open parentheses are counted anew in
each argument, and the parentheses of an argument list are not among them.

`Nest` is the structure of expressions of number literals, sums, parentheses and calls of `abs`.
Nothing but their depth can be wrong with them: a text of one (`Nest.Spells`) is reported as too
deep, or it has a value (`Session.nesting_iff_tooDeep`).
-/

namespace QuantityCalc

open Text

namespace Expression

/-- The structure of an expression of number literals, sums, parentheses and calls of `abs`. -/
inductive Nest where
  | number
  | add (l r : Nest)
  | group (e : Nest)
  | abs (e : Nest)

namespace Nest

/-! ## Depth -/

/-- For each argument list, the number of other argument lists that it lies in. -/
def lists : Nest → List Nat
  | number => []
  | add l r => l.lists ++ r.lists
  | group e => e.lists
  | abs e => 0 :: e.lists.map (· + 1)

/-- The arguments of all calls. -/
def arguments : Nest → List Nest
  | number => []
  | add l r => l.arguments ++ r.arguments
  | group e => e.arguments
  | abs e => e :: e.arguments

/-- The greatest number of parentheses that are open at once, outside of argument lists. -/
def groups : Nest → Nat
  | number => 0
  | add l r => max l.groups r.groups
  | group e => e.groups + 1
  | abs _ => 0

/-- Some argument list lies in as many others as the limit says, or more parentheses than it says
are open at once in a level, which is the whole expression or an argument. -/
def TooDeep (limit : Nat) (e : Nest) : Prop :=
  (∃ k ∈ e.lists, limit ≤ k) ∨ ∃ level ∈ e :: e.arguments, limit < level.groups

instance (limit : Nat) (e : Nest) : Decidable (e.TooDeep limit) :=
  inferInstanceAs (Decidable ((∃ k ∈ e.lists, limit ≤ k) ∨
    ∃ level ∈ e :: e.arguments, limit < level.groups))

/-- What `TooDeep` says of a part of an expression, where the argument lists of the part may be
nested up to `room` and `depth` parentheses are open around it in its level. -/
def Exceeds (limit room depth : Nat) (e : Nest) : Prop :=
  (∃ k ∈ e.lists, room ≤ k) ∨ limit < depth + e.groups ∨ ∃ a ∈ e.arguments, limit < a.groups

variable {limit room depth : Nat} {e l r : Nest}

theorem exceeds_iff_tooDeep : e.Exceeds limit limit 0 ↔ e.TooDeep limit := by
  simp [Exceeds, TooDeep]

theorem not_exceeds_number (hdepth : depth ≤ limit) : ¬number.Exceeds limit room depth := by
  have hgroups : ¬limit < depth := Nat.not_lt_of_le hdepth
  simp [Exceeds, lists, arguments, groups, hgroups]

theorem exceeds_add : (add l r).Exceeds limit room depth ↔
    l.Exceeds limit room depth ∨ r.Exceeds limit room depth := by
  have hgroups : limit < depth + max l.groups r.groups ↔
      limit < depth + l.groups ∨ limit < depth + r.groups := by omega
  simp only [Exceeds, lists, arguments, groups, List.mem_append, or_and_right, exists_or, hgroups]
  rw [or_or_or_comm (a := limit < depth + l.groups), or_or_or_comm]

theorem exceeds_group :
    (group e).Exceeds limit room depth ↔ limit ≤ depth ∨ e.Exceeds limit room (depth + 1) := by
  have hgroups : limit < depth + (e.groups + 1) ↔
      limit ≤ depth ∨ limit < depth + 1 + e.groups := by omega
  simp only [Exceeds, lists, arguments, groups, hgroups]
  rw [or_assoc, or_left_comm]

theorem exceeds_abs_zero : (abs e).Exceeds limit 0 depth :=
  .inl ⟨0, List.mem_cons_self, Nat.le_refl 0⟩

/-- In an argument the count of open parentheses starts again. -/
theorem exceeds_abs_succ (hdepth : depth ≤ limit) :
    (abs e).Exceeds limit (room + 1) depth ↔ e.Exceeds limit room 0 := by
  have hgroups : ¬limit < depth := Nat.not_lt_of_le hdepth
  simp [Exceeds, lists, arguments, groups, hgroups]

/-! ## Texts -/

/-- The texts of an expression, with any white space between its words. A number literal has a
value: none of its parts is out of range. -/
inductive Spells (decimalComma : Bool) : Nest → Text → Prop where
  | number {t : Text} {l : Literal} {value : Float}
      (hscan : Lexeme.scan? decimalComma t = some (.number l, []))
      (hvalue : l.value? = some value) : Spells decimalComma number t
  | add {l r : Nest} {t u : Text} (hl : Spells decimalComma l t) (hr : Spells decimalComma r u) :
      Spells decimalComma (add l r) (t ++ '+' :: u)
  | group {e : Nest} {t : Text} (h : Spells decimalComma e t) :
      Spells decimalComma (group e) ('(' :: (t ++ [')']))
  | abs {e : Nest} {t : Text} (blanks : Text) (hblanks : ∀ c ∈ blanks, isBlank c = true)
      (h : Spells decimalComma e t) :
      Spells decimalComma (abs e) ("abs".toList ++ (blanks ++ '(' :: (t ++ [')'])))
  | before {e : Nest} {c : Char} {t : Text} (hc : isBlank c = true) (h : Spells decimalComma e t) :
      Spells decimalComma e (c :: t)
  | behind {e : Nest} {c : Char} {t : Text} (hc : isBlank c = true) (h : Spells decimalComma e t) :
      Spells decimalComma e (t ++ [c])

theorem Spells.of_operand {s : Session} (o : Operand s) :
    Spells s.options.decimalComma Nest.number o.literal :=
  .number o.scan_literal o.value_number

/-- An argument does not start with a closing parenthesis, so the list with it is not empty. -/
theorem Spells.head?_ne {decimalComma : Bool} {t : Text} (h : Spells decimalComma e t) (u : Text) :
    (trimStart (t ++ u)).head? ≠ some ')' := by
  induction h generalizing u with
  | @number t _ _ hscan _ =>
    cases t with
    | nil => cases hscan
    | cons x t =>
      have hdigit := Lexeme.isDigit_of_scan?_eq_number hscan
      have hblank : ¬isBlank x = true := by simp [isBlank_of_isDigit hdigit]
      rw [List.cons_append, trimStart, List.dropWhile_cons_of_neg hblank]
      rintro ⟨⟩
      exact absurd hdigit (by decide)
  | add _ _ ihl _ =>
    rw [List.append_assoc]
    exact ihl _
  | group _ _ =>
    rw [List.cons_append, trimStart, List.dropWhile_cons_of_neg (by decide)]
    rintro ⟨⟩
  | abs _ _ _ =>
    rw [List.append_assoc]
    rintro ⟨⟩
  | before hc _ ih =>
    rw [List.cons_append, trimStart, List.dropWhile_cons_of_pos hc]
    exact ih u
  | behind _ _ ih =>
    rw [List.append_assoc]
    exact ih _

/-- **An expression is read up to what follows it, or the limit of nesting is exceeded in it.** -/
theorem Spells.passes {s : Session} {t : Text} (h : Spells s.options.decimalComma e t)
    (habs : s.find? "abs" = none) (run : Runner) (room : Nat) (nested : Bool) {g : Stage}
    {base : List Operator} {u : Text} (hu : Follows u) (hbase : IsBase base)
    (hdepth : base.count .parenOpen ≤ s.options.maxNesting) (hg : g.At false base (t ++ u)) :
    g.Passes ⟨run, Expression.arguments run room, nested⟩ s
      (e.Exceeds s.options.maxNesting room (base.count .parenOpen)) base u := by
  induction h generalizing room nested g base u with
  | number hscan hvalue =>
    exact .inr ⟨not_exceeds_number hdepth, Stage.reaches_number hg hu hscan hvalue⟩
  | add _ _ ihl ihr =>
    rw [List.append_assoc] at hg
    have hleft := ihl room nested (follows_cons (.inl rfl) _) hbase hdepth hg
    refine (hleft.andThen fun g' hg' => ?_).of_iff exceeds_add.symm
    obtain ⟨g'', houtcome, hg''⟩ := Stage.reaches_plus hg' hbase
    exact (ihr room nested hu hbase hdepth hg'').of_outcome houtcome
  | group _ ih =>
    rw [List.cons_append, List.append_assoc] at hg
    rcases Stage.overruns_or_opens (s := s) hg with ⟨hge, hover⟩ | ⟨hlt, n, g', houtcome, hg'⟩
    · exact .inl ⟨exceeds_group.2 (.inl hge), hover⟩
    · have hcount := count_parenOpen_inside n base
      have hinner := ih room nested (follows_cons (.inr rfl) u)
        (isBase_inside n base) (by omega) hg'
      have hpasses := (hinner.of_outcome houtcome).andThen fun g'' hg'' =>
        .of_reaches (Stage.reaches_close hg'')
      refine hpasses.of_iff ?_
      rw [or_false, hcount, exceeds_group, or_iff_right (Nat.not_le_of_lt hlt)]
  | @abs e t blanks hblanks h ih =>
    rw [List.append_assoc, List.append_assoc, List.cons_append, List.append_assoc] at hg
    have hlt : u.length < (t ++ ')' :: u).length := by
      rw [List.length_append, List.length_cons]
      omega
    refine Stage.passes_call habs hblanks hg (h.head?_ne _) hlt ?_
    cases room with
    | zero => exact ⟨_, rfl, .inl ⟨exceeds_abs_zero, rfl⟩⟩
    | succ room =>
      -- the argument is a level of its own, in which no parenthesis is open yet
      have hbegin : (Stage.start (trimStart (t ++ ')' :: u))).At false [] (t ++ ')' :: u) :=
        (Stage.start_at _).of_trimStart (trimStart_trimStart _)
      have hlevel := ih room true (follows_cons (.inr rfl) u) isBase_nil (Nat.zero_le _) hbegin
      rw [exceeds_abs_succ hdepth]
      exact Stage.outcome_list hlevel rfl
  | before hc _ ih =>
    exact ih room nested hu hbase hdepth (hg.of_trimStart (List.dropWhile_cons_of_pos hc))
  | @behind _ c _ hc _ ih =>
    have htrim : trimStart (c :: u) = trimStart u := List.dropWhile_cons_of_pos hc
    have hfollows : Follows (c :: u) := by
      rw [Follows, htrim]
      exact hu
    rw [List.append_assoc] at hg
    refine (ih room nested hfollows hbase hdepth hg).imp_right ?_
    rintro ⟨hexceeds, g', houtcome, hg'⟩
    exact ⟨hexceeds, g', houtcome, hg'.of_trimStart htrim⟩

end Nest

end Expression

namespace Session

open Expression

variable {s : Session} {e : Nest} {t : Text}

/-- **The limit of nesting.** A text of number literals, sums, parentheses and calls of `abs` is
reported as too deep if and only if an argument list lies in as many others as the limit says, or
more parentheses than it says are open at once in one level. Any other such text has a value and is
read to its end. The session stays as it is. -/
theorem nesting_iff_tooDeep (habs : s.find? "abs" = none) (h : e.Spells s.options.decimalComma t)
    (budget : Nat) :
    ∃ parsed, (readConverted budget t).outcome s = .ok (parsed, s) ∧
      (parsed.value = .error (.nesting s.options.maxNesting) ↔ e.TooDeep s.options.maxNesting) ∧
      (¬e.TooDeep s.options.maxNesting → ∃ q, parsed = ⟨.ok q, []⟩) := by
  have hbegin : (Stage.start t).At false [] (t ++ []) := by
    rw [List.append_nil]
    exact Stage.start_at t
  have hpasses := h.passes habs (activation budget) s.options.maxNesting false follows_nil
    isBase_nil (Nat.zero_le _) hbegin
  rw [outcome_readConverted_eq]
  rcases Stage.outcome_converted hpasses (.inl rfl) with
    ⟨hexceeds, rest, hread⟩ | ⟨hexceeds, q, -, hread⟩
  · have hdeep := Nest.exceeds_iff_tooDeep.1 hexceeds
    exact ⟨_, hread, iff_of_true rfl hdeep, absurd hdeep⟩
  · have hdeep := mt Nest.exceeds_iff_tooDeep.2 hexceeds
    exact ⟨_, hread, iff_of_false nofun hdeep, fun _ => ⟨q, rfl⟩⟩

/-- With a limit of one, parentheses in parentheses are admitted if an argument list is between
them, and an argument list in another one is not. -/
theorem nesting_iff_tooDeep_one :
    (∃ q, (readConverted 0 "(abs( (1)) + 2)".toList).outcome (start { maxNesting := 1 } .unknown) =
      .ok (⟨.ok q, []⟩, start { maxNesting := 1 } .unknown)) ∧
    ∃ rest, (readConverted 0 "abs(1+abs (2))".toList).outcome
        (start { maxNesting := 1 } .unknown) =
      .ok (⟨.error (.nesting 1), rest⟩, start { maxNesting := 1 } .unknown) := by
  let s := start { maxNesting := 1 } .unknown
  have habs : s.find? "abs" = none := by decide +kernel
  have hdigit (d : Char) (hd : d.isDigit = true) : Nest.number.Spells true [d] :=
    .of_operand (s := s) (.ofDigits [d] none (by simp) (List.forall_mem_singleton.2 hd))
  have hfits : (Nest.group (.add (.abs (.group .number)) .number)).Spells true
      "(abs( (1)) + 2)".toList :=
    .group (.add (.behind (by decide) (.abs [] nofun
      (.before (by decide) (.group (hdigit '1' rfl))))) (.before (by decide) (hdigit '2' rfl)))
  have hdeep : (Nest.abs (.add .number (.abs .number))).Spells true "abs(1+abs (2))".toList :=
    .abs [] nofun (.add (hdigit '1' rfl)
      (.abs [' '] (List.forall_mem_singleton.2 (by decide)) (hdigit '2' rfl)))
  obtain ⟨_, hread, -, hvalue⟩ := nesting_iff_tooDeep (s := s) habs hfits 0
  obtain ⟨⟨value, rest⟩, hread', herror, -⟩ := nesting_iff_tooDeep (s := s) habs hdeep 0
  obtain ⟨q, rfl⟩ := hvalue (by decide)
  obtain rfl := herror.2 (by decide)
  exact ⟨⟨q, hread⟩, rest, hread'⟩

end Session

end QuantityCalc
