import QuantityCalc.Proofs.Text.Break
import QuantityCalc.Proofs.Unit.Rest

/-!
# Units in front of a break

The unit behind a number is read in the same way whether the text ends behind it or a break
follows (`UnitSystem.scan?_append`). The reader of a longer text has room for more groups and more
factors. That makes no difference, since the text itself limits both: a group is read with more
room than its text has characters, and a factor takes a character at least.
-/

namespace QuantityCalc

open Text

namespace UnitExpr

variable {α : Type} {r : Text} {known : String → Bool}

/-- Two outcomes are the same up to the text `r` behind what was read. -/
def SameUpTo (r : Text) : Except UnitError (α × Cursor) → Except UnitError (α × Cursor) → Prop
  | .ok (a, c), .ok (a', c') => a' = a ∧ c'.rest = c.rest ++ r
  | .error _, .error _ => True
  | _, _ => False

/-- Two readers are the same up to the text `r` on texts that have fewer than `depth` characters,
and the first one leaves a suffix of its text. -/
structure Agree (r : Text) (depth : Nat)
    (read read' : Cursor → Except UnitError (α × Cursor)) : Prop where
  consumes : Consumes read
  same : ∀ c c' : Cursor, c'.rest = c.rest ++ r → c.rest.length < depth →
    SameUpTo r (read c) (read' c')

variable {depth : Nat} {group group' : Cursor → Except UnitError (UnitExpr × Cursor)}

theorem SameUpTo.cases {x x' : Except UnitError (α × Cursor)} (h : SameUpTo r x x') :
    (∃ a c c', x = .ok (a, c) ∧ x' = .ok (a, c') ∧ c'.rest = c.rest ++ r) ∨
      ∃ e e', x = .error e ∧ x' = .error e' := by
  match x, x', h with
  | .ok (a, c), .ok (a', c'), h =>
    obtain ⟨rfl, hrest⟩ := h
    exact Or.inl ⟨_, c, c', rfl, rfl, hrest⟩
  | .error e, .error e', _ => exact Or.inr ⟨e, e', rfl, rfl⟩

theorem isDigit_break : ∀ c ∈ breaks, Char.isDigit c = false :=
  forall_breaks (by decide) (by decide) (by decide)

theorem isSymbolChar_break : ∀ c ∈ breaks, isSymbolChar c = false :=
  forall_breaks (by decide) (by decide) (by decide)

theorem splitMinus_of_isBreak (hr : IsBreak r) (t : Text) :
    splitMinus (t ++ r) = ((splitMinus t).1, (splitMinus t).2 ++ r) := by
  match t with
  | [] => cases hr <;> rfl
  | c :: t => by_cases hminus : c = '-' <;> simp [splitMinus, hminus]

theorem sameUpTo_exponent (known : String → Bool) (hr : IsBreak r) {c c' : Cursor}
    (hc : c'.rest = c.rest ++ r) :
    SameUpTo r (exponent (.longest known) c) (exponent (.longest known) c') := by
  unfold exponent
  rw [hc]
  match hrest : c.rest with
  | [] =>
    cases hr <;> simp [SameUpTo, hc, hrest]
  | d :: rest =>
    by_cases hcaret : d = '^'
    · subst hcaret
      simp only [List.cons_append, splitMinus_of_isBreak hr,
        takeWhile_append_of_isBreak isDigit_break hr,
        dropWhile_append_of_isBreak isDigit_break hr, Extent.mayStop, if_true]
      split
      · exact ⟨rfl, by rw [hc, hrest, List.cons_append]⟩
      · split
        · trivial
        · split
          · trivial
          · exact ⟨rfl, rfl⟩
    · simp [hcaret, SameUpTo, hc, hrest]

theorem sameUpTo_primary (known : String → Bool) (hr : IsBreak r)
    (hg : Agree r depth group group') {c c' : Cursor}
    (hc : c'.rest = c.rest ++ r) (hlen : c.rest.length ≤ depth) :
    SameUpTo r (primary (.longest known) group c) (primary (.longest known) group' c') := by
  unfold primary
  rw [hc]
  match hrest : c.rest with
  | [] =>
    rcases hr.eq_nil_or_cons with rfl | ⟨b, hb, r', rfl⟩
    · trivial
    · have hopen : ∀ c ∈ breaks, c ≠ '(' := forall_breaks (by decide) (by decide) (by decide)
      simp [Extent.mayStop, isSymbolChar_break b hb, hopen b hb, SameUpTo]
  | d :: rest =>
    by_cases hopen : d = '('
    · subst hopen
      have hshort : (c.moveTo rest).rest.length < depth := by
        rw [hrest, List.length_cons] at hlen
        exact hlen
      simp only [List.cons_append]
      rcases (hg.same _ (c'.moveTo (rest ++ r)) rfl hshort).cases with
        ⟨e, g, g', hg₁, hg₂, hgrest⟩ | ⟨e, e', hg₁, hg₂⟩
      · simp only [hg₁, hg₂, bind, Except.bind, hgrest]
        match g.rest with
        | [] => cases hr <;> trivial
        | d :: rest =>
          by_cases hclose : d = ')'
          · subst hclose
            exact ⟨rfl, rfl⟩
          · simp [hclose]
            trivial
      · simp only [hg₁, hg₂, bind, Except.bind]
        trivial
    · simp only [List.cons_append, Extent.mayStop,
        takeWhile_append_of_isBreak isSymbolChar_break hr,
        dropWhile_append_of_isBreak isSymbolChar_break hr]
      simp
      split
      · split
        · exact ⟨rfl, rfl⟩
        · trivial
      · trivial

theorem sameUpTo_factor (known : String → Bool) (hr : IsBreak r)
    (hg : Agree r depth group group') {c c' : Cursor}
    (hc : c'.rest = c.rest ++ r) (hlen : c.rest.length ≤ depth) :
    SameUpTo r (factor (.longest known) group c) (factor (.longest known) group' c') := by
  unfold factor
  rcases (sameUpTo_primary known hr hg hc hlen).cases with
    ⟨term, d, d', h₁, h₂, hd⟩ | ⟨e, e', h₁, h₂⟩
  · simp only [h₁, h₂, bind, Except.bind]
    rcases (sameUpTo_exponent known hr hd).cases with
      ⟨n, k, k', h₃, h₄, hk⟩ | ⟨e, e', h₃, h₄⟩
    · simp only [h₃, h₄]
      exact ⟨rfl, hk⟩
    · simp only [h₃, h₄]
      trivial
  · simp only [h₁, h₂, bind, Except.bind]
    trivial

theorem sign?_append (hr : IsBreak r) (t : Text) :
    sign? (t ++ r) = (sign? t).map fun (below, rest) => (below, rest ++ r) := by
  match t with
  | [] => cases hr <;> rfl
  | c :: t =>
    simp only [List.cons_append, sign?]
    split <;> simp_all

theorem goesOn_append (hr : IsBreak r) (t : Text) : goesOn (t ++ r) = goesOn t := by
  match t with
  | [] =>
    rcases hr.eq_nil_or_cons with rfl | ⟨b, hb, r', rfl⟩
    · rfl
    · have hbreak : ∀ c ∈ breaks, goesOn [c] = false :=
        forall_breaks (by decide) (by decide) (by decide)
      exact hbreak b hb
  | c :: t => rfl

theorem factors_of_sign?_eq_none {extent : Extent} {c : Cursor} (h : sign? c.rest = none)
    (rounds : Nat) (e : UnitExpr) : factors extent group rounds c e = .ok (e, c) := by
  cases rounds with
  | zero => rfl
  | succ rounds => simp only [factors, h]

theorem sameUpTo_factors (hr : IsBreak r) (hg : Agree r depth group group') (rounds : Nat) :
    ∀ {rounds' : Nat} {c c' : Cursor} (e : UnitExpr), c'.rest = c.rest ++ r →
      c.rest.length ≤ depth → c.rest.length ≤ rounds → c'.rest.length ≤ rounds' →
      SameUpTo r (factors (.longest known) group rounds c e)
        (factors (.longest known) group' rounds' c' e) := by
  induction rounds with
  | zero =>
    intro rounds' c c' e hc _ hrounds _
    have hnil : c.rest = [] := List.length_eq_zero_iff.1 (by omega)
    have hsign : sign? c.rest = none := by rw [hnil]; rfl
    rw [factors_of_sign?_eq_none hsign,
      factors_of_sign?_eq_none (by rw [hc, sign?_append hr, hsign]; rfl)]
    exact ⟨rfl, hc⟩
  | succ rounds ih =>
    intro rounds' c c' e hc hlen hrounds hrounds'
    have hsign' := sign?_append hr c.rest
    rw [← hc] at hsign'
    match hsign : sign? c.rest with
    | none =>
      rw [factors_of_sign?_eq_none hsign, factors_of_sign?_eq_none (by rw [hsign', hsign]; rfl)]
      exact ⟨rfl, hc⟩
    | some (below, rest) =>
      have hshort := (suffix_of_sign? hsign).2
      rw [hsign, Option.map_some] at hsign'
      obtain ⟨rounds', rfl⟩ : ∃ n, rounds' = n + 1 :=
        Nat.exists_eq_succ_of_ne_zero (by rw [hc, List.length_append] at hrounds'; omega)
      simp only [factors, hsign, hsign', goesOn_append hr]
      split
      · exact ⟨rfl, hc⟩
      · -- the next factor starts behind the sign, so it has fewer characters
        have hrest : (c.moveTo rest).rest.length ≤ depth := by
          rw [Cursor.rest_moveTo]
          omega
        have hmove : (c'.moveTo (rest ++ r)).rest = (c.moveTo rest).rest ++ r := rfl
        rcases (sameUpTo_factor known hr hg hmove hrest).cases with
          ⟨f, d, d', h₁, h₂, hd⟩ | ⟨x, x', h₁, h₂⟩
        · have hd₁ := (suffix_of_factor hg.consumes h₁).1.length_le
          have hd₂ : d'.rest.length ≤ rounds' := by
            rw [hc] at hrounds'
            rw [hd]
            simp only [List.length_append, Cursor.rest_moveTo] at hd₁ hrounds' ⊢
            omega
          simp only [h₁, h₂]
          exact ih (e.push below f) hd (by simp only [Cursor.rest_moveTo] at hd₁; omega)
            (by simp only [Cursor.rest_moveTo] at hd₁; omega) hd₂
        · simp only [h₁, h₂, Extent.mayStop, if_true]
          exact ⟨rfl, hc⟩

/-- **Expressions with room for all groups of their texts are read alike** in front of a break. -/
theorem agree_expression (known : String → Bool) (hr : IsBreak r) (depth : Nat) :
    ∀ {depth' : Nat}, depth ≤ depth' →
      Agree r depth (expression (.longest known) depth) (expression (.longest known) depth') := by
  induction depth with
  | zero => exact fun _ => ⟨consumes_expression 0, fun _ _ _ h => absurd h (Nat.not_lt_zero _)⟩
  | succ depth ih =>
    intro depth' hdepth
    obtain ⟨depth', rfl⟩ : ∃ n, depth' = n + 1 := Nat.exists_eq_succ_of_ne_zero (by omega)
    have hg := ih (Nat.le_of_succ_le_succ hdepth)
    refine ⟨consumes_expression _, fun c c' hc hlen => ?_⟩
    have hlen' : c.rest.length ≤ depth := Nat.le_of_lt_succ hlen
    rcases (sameUpTo_factor known hr hg hc hlen').cases with
      ⟨f, d, d', h₁, h₂, hd⟩ | ⟨x, x', h₁, h₂⟩
    · have hd₁ := (suffix_of_factor hg.consumes h₁).1.length_le
      simp only [expression, h₁, h₂, bind, Except.bind]
      exact sameUpTo_factors hr hg _ _ hd (by omega) (Nat.le_refl _) (Nat.le_refl _)
    · simp only [expression, h₁, h₂, bind, Except.bind]
      trivial

/-- **A break does not change which unit expression is read in front of it.** -/
theorem scan?_append (hr : IsBreak r) (t : Text) :
    scan? known (t ++ r) = (scan? known t).map fun (e, rest) => (e, rest ++ r) := by
  have hhead : (t ++ r).head?.any isSymbolChar = t.head?.any isSymbolChar := by
    match t with
    | [] =>
      rcases hr.eq_nil_or_cons with rfl | ⟨b, hb, r', rfl⟩
      · rfl
      · simp [isSymbolChar_break b hb]
    | c :: t => rfl
  unfold scan? read
  rw [hhead]
  split
  · have hlen : t.length + 1 ≤ (t ++ r).length + 1 := by rw [List.length_append]; omega
    rcases ((agree_expression known hr _ hlen).same (.start t) (.start (t ++ r)) rfl
      (Nat.lt_succ_self _)).cases with
      ⟨e, d, d', h₁, h₂, hd⟩ | ⟨x, x', h₁, h₂⟩
    · simp only [h₁, h₂, hd, Option.map_some]
    · simp only [h₁, h₂, Option.map_none]
  · rfl

end UnitExpr

/-- **A break does not change the unit in front of it.** -/
theorem UnitSystem.scan?_append {r : Text} (hr : IsBreak r) (s : UnitSystem) (t : Text) :
    s.scan? (t ++ r) = (s.scan? t).map fun result =>
      result.map fun (u, rest) => (u, rest ++ r) := by
  unfold UnitSystem.scan?
  rw [UnitExpr.scan?_append hr, Option.map_map, Option.map_map]
  match h : UnitExpr.scan? s.contains t with
  | none => rfl
  | some (e, rest) =>
    have hle := (UnitExpr.suffix_of_scan? h).length_le
    have htake : (t ++ r).take ((t ++ r).length - (rest ++ r).length) =
        t.take (t.length - rest.length) := by
      rw [List.length_append, List.length_append, Nat.add_sub_add_right,
        List.take_append_of_le_length (Nat.sub_le _ _)]
    simp only [Option.map_some, Function.comp_apply, htake]
    cases s.resolve e (String.ofList (t.take (t.length - rest.length))) <;> rfl

end QuantityCalc
