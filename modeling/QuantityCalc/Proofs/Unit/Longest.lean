import QuantityCalc.Proofs.Unit.Behind

/-!
# The longest unit behind a number

A reader that may stop reads at least as far as any front of the text that is a unit expression,
unless the last factor of the front has no exponent and one that is out of range follows
(`reaches_expression`). So the unit behind a number is the longest of all other fronts
(`reads_longest_front`).
-/

namespace QuantityCalc

open Text

namespace UnitExpr

variable {known : String → Bool} {group : Cursor → Except UnitError (UnitExpr × Cursor)}
  {c : Cursor} {t rest used : Text} {e : UnitExpr} {f : UnitFactor} {depth : Nat}

/-! ## How far a text is read -/

/-- Whether there is a result, and what it leaves stands at the end of `rest`. -/
def Reaches {α : Type} (result : Except UnitError (α × Cursor)) (rest : Text) : Prop :=
  ∃ a d, result = .ok (a, d) ∧ d.rest <:+ rest

/-- A reader that may stop never fails behind the first factor. -/
theorem reaches_factors (hg : Consumes group) (rounds : Nat) (c : Cursor) (e : UnitExpr) :
    Reaches (factors (.longest known) group rounds c e) c.rest := by
  have hok : ∃ e' d, factors (.longest known) group rounds c e = .ok (e', d) := by
    induction rounds generalizing c e with
    | zero => exact ⟨e, c, rfl⟩
    | succ rounds ih =>
      simp only [factors]
      split
      · exact ⟨e, c, rfl⟩
      · split
        · exact ⟨e, c, rfl⟩
        · split
          · exact ih _ _
          · exact ⟨e, c, rfl⟩
  obtain ⟨e', d, h⟩ := hok
  exact ⟨e', d, h, consumes_factors hg rounds e h⟩

/-- A factor is read at least as far as it goes, unless its exponent is out of range. -/
theorem reaches_factor (hf : Extent.FitsFactor (.longest known) t f) (hstops : Stops t rest)
    (hdepth : t.length ≤ depth) (hc : c.rest = t ++ rest) :
    Reaches (factor (.longest known) (expression (.longest known) depth) c) rest := by
  obtain ⟨hfactor, hatoms⟩ := hf
  cases hfactor with
  | @mk t p term n hterm hp =>
    have hlength : t.length ≤ depth := by
      rw [List.length_append] at hdepth
      omega
    by_cases hnil : p = []
    · -- without an exponent of its own, the factor takes the one that follows
      rw [hnil, List.append_nil] at hstops hc
      obtain ⟨d₁, hd₁, hrest₁⟩ := takes_of_isTerm hterm hatoms hlength hstops.toUncut hc
      cases hexponent : exponent (.longest known) d₁ with
      | error error =>
        have hout := (exponent_eq_error_iff known).1 ⟨error, hexponent⟩
        rw [hrest₁] at hout
        exact absurd ⟨isDigit_of_isTerm ⟨hterm, hatoms⟩, hout⟩ hstops.not_refused
      | ok result =>
        obtain ⟨k, d₂⟩ := result
        refine ⟨(term, k), d₂, ?_, hrest₁ ▸ suffix_of_exponent hexponent⟩
        simp only [factor, hd₁, bind, Except.bind, hexponent]
        rfl
    · have hdigit : ∀ x ∈ rest.head?, x.isDigit = false := by
        have hcut := (KeepsRuns.append_left_iff t hnil).1 hstops.digit
        have hlast := List.getLast?_eq_some_getLast hnil
        exact hcut _ hlast (hp.isDigit_of_getLast? _ hlast)
      obtain ⟨d, hd, hrest⟩ := takes_factor (takes_exponent_of_ne_nil hp hnil hdigit)
        (takes_of_isTerm hterm hatoms hlength (hp.endsTerm hnil rest).uncut) hc
      exact ⟨_, d, hd, hrest ▸ List.suffix_rfl⟩

/-- **An expression is read at least as far as it goes**, if it may end there. -/
theorem reaches_expression (h : Extent.Fits (.longest known) t e) (hstops : Stops t rest)
    (hdepth : t.length ≤ depth) (hc : c.rest = t ++ rest) :
    Reaches (expression (.longest known) (depth + 1) c) rest := by
  obtain ⟨he, hatoms⟩ := h
  cases he with
  | @factor t f hf =>
    have hfits : Extent.FitsFactor (.longest known) t f :=
      ⟨hf, fun a ha => hatoms a (mem_atoms_single.2 ha)⟩
    obtain ⟨f', d, hd, hrest⟩ := reaches_factor hfits hstops hdepth hc
    obtain ⟨e', d', hd', hrest'⟩ : Reaches (factors (.longest known)
        (expression (.longest known) depth) d.rest.length d ⟨[f'], []⟩) d.rest :=
      reaches_factors (consumes_expression depth) _ _ _
    refine ⟨e', d', ?_, hrest'.trans hrest⟩
    simp only [expression, hd, bind, Except.bind, hd']
  | @push t t' e sign below f he hsign hf =>
    rw [List.length_append, List.length_cons] at hdepth
    have hfits : Extent.FitsFactor (.longest known) t' f :=
      ⟨hf, fun a ha => hatoms a (mem_atoms_push.2 (.inr ha))⟩
    have hbefore := fun a ha => hatoms a (mem_atoms_push.2 (.inl ha))
    have hstops : Stops t' rest := by
      have hne := ne_nil_of_isFactor hf
      rw [List.append_cons] at hstops
      exact (stops_append_iff _ hne).1 hstops
    have hgoes : GoesOn (.longest known) depth t e (sign :: t' ++ rest) :=
      goesOn_of_isExpression he hbefore (by omega) (endsFactor_sign hsign (t' ++ rest))
    obtain ⟨rounds, d, hrounds, hd, heq⟩ := hgoes (c := c) (by rw [hc, List.append_assoc])
    rw [List.cons_append, List.length_cons] at hrounds
    obtain ⟨rounds, rfl⟩ : ∃ m, rounds = m + 1 := Nat.exists_eq_succ_of_ne_zero (by omega)
    have hlength : t'.length ≤ depth := by omega
    obtain ⟨f', d₁, hd₁, hrest₁⟩ :=
      reaches_factor hfits hstops hlength (c := d.moveTo (t' ++ rest)) rfl
    obtain ⟨e', d₂, hd₂, hrest₂⟩ : Reaches (factors (.longest known)
        (expression (.longest known) depth) rounds d₁ (e.push below f')) d₁.rest :=
      reaches_factors (consumes_expression depth) _ _ _
    refine ⟨e', d₂, ?_, hrest₂.trans hrest₁⟩
    rw [heq, factors_of_isSign hsign hfits hd hd₁, hd₂]

theorem exists_scan?_of_fits (h : Extent.Fits (.longest known) used e) (hstops : Stops used rest)
    (hhead : used.head?.any isSymbolChar = true) :
    ∃ e' rest', scan? known (used ++ rest) = some (e', rest') ∧ rest' <:+ rest := by
  have hdepth : used.length ≤ (used ++ rest).length := by simp
  obtain ⟨e', d, hd, hrest⟩ := reaches_expression h hstops hdepth (c := .start (used ++ rest)) rfl
  refine ⟨e', d.rest, ?_, hrest⟩
  rw [scan?, List.head?_append_of_ne_nil _ (ne_nil_of_isExpression h.1), if_pos hhead, read, hd]

/-! ## The fronts of a text -/

/-- A front of a text that is a unit expression of known symbols and without integers. It starts
with a symbol, and it cuts no symbol and no number. -/
structure IsFront (known : String → Bool) (t used rest : Text) (e : UnitExpr) : Prop where
  eq_append : t = used ++ rest
  parse : parse used = .ok e
  isKnown : ∀ name, .symbol name ∈ e.atoms → known name = true
  not_integer : ∀ n, .integer n ∉ e.atoms
  head : used.head?.any isSymbolChar = true
  uncut : Uncut used rest

namespace IsFront

theorem of_fits (h : Extent.Fits (.longest known) used e) (hcut : Uncut used rest)
    (hhead : used.head?.any isSymbolChar = true) : IsFront known (used ++ rest) used rest e :=
  ⟨rfl, parse_eq_of_isExpression h.1, fun _ hname => h.2 _ hname, fun _ hn => h.2 _ hn, hhead,
    hcut⟩

theorem fits (h : IsFront known t used rest e) : Extent.Fits (.longest known) (trim used) e := by
  refine ⟨isExpression_of_parse h.parse, fun a ha => ?_⟩
  cases a with
  | symbol name => exact h.isKnown name ha
  | integer n => exact h.not_integer n ha

/-- White space ends whatever stands in front of it. -/
theorem stops_of_blanks {blanks : Text} (hne : blanks ≠ []) (h : ∀ c ∈ blanks, isBlank c = true)
    (t rest : Text) : Stops t (blanks ++ rest) := by
  obtain ⟨b, blanks, rfl⟩ := List.exists_cons_of_ne_nil hne
  have hb : isBlank b = true := h b List.mem_cons_self
  have hends : EndsTerm (b :: blanks ++ rest) := by
    refine endsTerm_cons ?_ ?_ _ <;> rw [Bool.eq_false_iff] <;> intro hc
    · rw [isBlank_of_isSymbolChar hc] at hb
      cases hb
    · rw [isBlank_of_isDigit hc] at hb
      cases hb
  refine ⟨hends.uncut, ?_⟩
  rintro ⟨-, sign, digits, behind, hcaret, -⟩
  rw [(List.cons.inj hcaret).1] at hb
  exact absurd hb (by decide)

/-- A front that is not refused may end where the white space at its end starts. -/
theorem exists_stops (h : IsFront known t used rest e) (hnot : ¬Refused used rest) :
    ∃ rest', t = trim used ++ rest' ∧ Stops (trim used) rest' ∧
      (trim used).head?.any isSymbolChar = true := by
  have hstart : trimStart used = used := by
    refine trimStart_of_head? fun c hc => isBlank_of_isSymbolChar ?_
    have hhead := h.head
    rwa [Option.mem_def.1 hc, Option.any_some] at hhead
  obtain ⟨blanks, hused, hblanks⟩ := eq_trimEnd_append used
  rw [← trim_of_trimStart hstart] at hused
  have hhead : (trim used).head?.any isSymbolChar = true := by
    rw [← List.head?_append_of_ne_nil _ (ne_nil_of_isExpression h.fits.1), ← hused]
    exact h.head
  by_cases hnil : blanks = []
  · rw [hnil, List.append_nil] at hused
    refine ⟨rest, ?_, ?_, hhead⟩ <;> rw [← hused]
    · exact h.eq_append
    · exact ⟨h.uncut, hnot⟩
  · refine ⟨blanks ++ rest, ?_, stops_of_blanks hnil hblanks _ _, hhead⟩
    rw [← List.append_assoc, ← hused]
    exact h.eq_append

/-- A front that is not refused is read, and perhaps more. -/
theorem exists_scan? (h : IsFront known t used rest e) (hnot : ¬Refused used rest) :
    ∃ e' used' rest', scan? known t = some (e', rest') ∧ t = used' ++ rest' ∧
      trim used <+: used' := by
  obtain ⟨rest', rfl, hstops, hhead⟩ := h.exists_stops hnot
  obtain ⟨e', rest₁, hscan, hsuffix⟩ := exists_scan?_of_fits h.fits hstops hhead
  obtain ⟨more, rfl⟩ := hsuffix
  exact ⟨e', trim used ++ more, rest₁, hscan, (List.append_assoc _ _ _).symm,
    List.prefix_append _ _⟩

end IsFront

theorem isFront_of_scan? (h : scan? known t = some (e, rest)) :
    ∃ used, IsFront known t used rest e ∧ ¬Refused used rest ∧ trim used = used := by
  obtain ⟨used, rfl, hfits, hstops, hhead⟩ := exists_of_scan? h
  exact ⟨used, .of_fits hfits hstops.toUncut hhead, hstops.not_refused,
    trim_of_isExpression hfits.1⟩

/-- **The unit behind a number is the longest front that is not refused**, and there is none only if
all fronts are refused: a front is refused if its last factor has no exponent and one that is out of
range follows. White space at the end of a front, which parsing passes over, is not taken. -/
theorem reads_longest_front (known : String → Bool) (t : Text) :
    (∀ e rest, scan? known t = some (e, rest) ↔
      ∃ used, IsFront known t used rest e ∧ ¬Refused used rest ∧ trim used = used ∧
        ∀ used' rest' e', IsFront known t used' rest' e' → ¬Refused used' rest' →
          trim used' <+: used) ∧
    (scan? known t = none ↔ ∀ used rest e, IsFront known t used rest e → Refused used rest) := by
  have hlongest {e : UnitExpr} {used rest : Text} (h : scan? known t = some (e, rest))
      (ht : t = used ++ rest) : ∀ used' rest' e', IsFront known t used' rest' e' →
        ¬Refused used' rest' → trim used' <+: used := by
    intro used' rest' e' hfront hnot
    obtain ⟨e₁, used₁, rest₁, hscan, ht₁, hprefix⟩ := hfront.exists_scan? hnot
    rw [h] at hscan
    cases hscan
    rw [ht] at ht₁
    rwa [List.append_cancel_right ht₁]
  refine ⟨fun e rest => ⟨fun h => ?_, ?_⟩, fun h used rest e hfront => ?_, fun h => ?_⟩
  · obtain ⟨used, hfront, hnot, htrim⟩ := isFront_of_scan? h
    exact ⟨used, hfront, hnot, htrim, hlongest h hfront.eq_append⟩
  · rintro ⟨used, hfront, hnot, htrim, hall⟩
    obtain ⟨e₁, -, rest₁, hscan, -⟩ := hfront.exists_scan? hnot
    obtain ⟨used₁, hfront₁, hnot₁, htrim₁⟩ := isFront_of_scan? hscan
    -- both fronts are the longest one, so each is a front of the other
    have hle : used <+: used₁ := htrim ▸ hlongest hscan hfront₁.eq_append _ _ _ hfront hnot
    have hge : used₁ <+: used := htrim₁ ▸ hall _ _ _ hfront₁ hnot₁
    have hused : used₁ = used := hge.eq_of_length_le hle.length_le
    subst hused
    have hrest : rest₁ = rest :=
      List.append_cancel_left (hfront₁.eq_append.symm.trans hfront.eq_append)
    have he : e₁ = e := Except.ok.inj (hfront₁.parse.symm.trans hfront.parse)
    rw [hscan, hrest, he]
  · by_contra hnot
    obtain ⟨e₁, -, rest₁, hscan, -⟩ := hfront.exists_scan? hnot
    rw [h] at hscan
    cases hscan
  · by_contra hsome
    obtain ⟨⟨e, rest⟩, hscan⟩ := Option.ne_none_iff_exists'.1 hsome
    obtain ⟨used, hfront, hnot, -⟩ := isFront_of_scan? hscan
    exact hnot (h used rest e hfront)

/-- An exponent that is zero keeps the front before it from being read: there is no unit at the
front of `m^0`. -/
theorem stops_short_of_front :
    ¬∀ (known : String → Bool) (t : Text),
      (∀ e rest, scan? known t = some (e, rest) → ∃ used, t = used ++ rest ∧
        ∀ used' rest' e', IsFront known t used' rest' e' → bytes used' ≤ bytes used) ∧
      (scan? known t = none → ∀ used rest e, ¬IsFront known t used rest e) := by
  intro h
  have hfront : IsFront (· = "m") "m^0".toList "m".toList "^0".toList (symbol "m") := by
    refine ⟨rfl, rfl, fun name hname => ?_, fun n hn => ?_, by decide, ?_⟩
    · cases List.mem_singleton.1 hname
      rfl
    · cases List.mem_singleton.1 hn
    · exact (endsTerm_cons (by decide) (by decide) ['0']).uncut
  exact (h (· = "m") "m^0".toList).2 rfl _ _ _ hfront

end UnitExpr

end QuantityCalc
