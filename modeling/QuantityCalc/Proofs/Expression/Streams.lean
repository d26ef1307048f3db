import QuantityCalc.Proofs.Expression.Reading

/-!
# Streams of tokens

An expression is evaluated while its stream is made. The operators of the stream find their
operands, so its evaluation ends in genuine errors only (`Expression.grants_value`), and so does
the reading of lists and arguments.

The stream itself is `Postfix.IsStream`: its tokens are no more than the characters of the text, no
parenthesis is among them, they leave one operand, and at most one error follows them. Only in
front of the report that the text ends too early an operator may find too few operands
(`Expression.grants_stream`).
-/

namespace QuantityCalc

open Postfix

/-! ## Evaluation -/

theorem Postfix.meets_value? {stack : Stack} (h : stack.length ≤ 1) :
    Meets (fun _ => True) (value? stack) := by
  match stack with
  | [] => trivial
  | [q] => trivial
  | q :: p :: stack =>
    simp only [List.length_cons] at h
    omega

namespace Expression

variable {context : ReadingContext}

theorem grants_feed_run (hcontext : context.Genuine) (t : Text) :
    Run.Grants (fun fed => Meets (fun stack => stack.length ≤ 1) fed.state ∧
      fed.place.rest <:+ t) (feed context Postfix.run [] {} (.start t)) := by
  refine feed_rule (c := .start t) hcontext (fun y (stack : Stack) _ => y.Fits stack.length)
    (Meets fun stack => stack.length ≤ 1) ?_ ?_ ?_ Yard.fits_start
  · intro y y' tokens stack c d hy hleads _
    obtain ⟨m, hheight, hy'⟩ := Yard.fits_of_leads hy hleads
    have hrun := meets_run (hy.clean hleads) hheight
    split
    · rename_i stack' hstack
      rw [hstack] at hrun
      exact hrun ▸ hy'
    · rename_i e hstack
      rw [hstack] at hrun
      exact hrun
  · intro y items stack c hy hends
    cases hends with
    | complete h =>
      rcases Yard.height_drain hy h with ⟨hzero, hdrain⟩ | hheight
      · rw [hdrain]
        exact Nat.le_of_eq hzero |>.trans (Nat.zero_le 1)
      · exact (meets_run hy.clean_drain hheight).mono fun _ heq => Nat.le_of_eq heq
    | cut position => exact (meets_run_cut hy.clean_drain stack position none).mono nofun
  · intro y e stack c hy he
    cases e with
    | unterminated position q? => exact nofun
    | _ => exact he

theorem grants_value (hcontext : context.Genuine) (t : Text) :
    Run.Grants (Parsed.Forward t) (value context t) := by
  refine .bind (grants_feed_run hcontext t) fun fed ⟨hstate, hplace⟩ => .pure ⟨?_, hplace⟩
  refine (hstate.bind fun stack hstack => meets_value? hstack).bind fun q? _ => ?_
  cases q? with
  | none => exact nofun
  | some q => trivial

theorem meets_inTarget (s : Session) (q : Quantity) (target : Text) :
    Meets (fun _ => True) (inTarget s q target) := by
  refine .bind (.mapError fun _ => nofun) fun unit _ => ?_
  split
  · trivial
  · split
    · trivial
    · exact nofun

theorem grants_converted (hcontext : context.Genuine) (t : Text) :
    Run.Grants (Parsed.Forward t) (converted context t) := by
  refine .bind (grants_value hcontext t) fun ⟨value, rest⟩ ⟨hvalue, hrest⟩ => ?_
  cases value with
  | error e => exact .pure ⟨hvalue, hrest⟩
  | ok q =>
    refine .bind (.any _) fun s _ => ?_
    simp only at hrest ⊢
    split
    · rename_i inside htrim
      have hinside := (Text.isBehind_of_trimStart htrim).suffix.trans hrest
      split
      · rename_i hcut
        exact .pure ⟨meets_inTarget s q _, (Text.isBehind_of_cut? hcut).suffix.trans hinside⟩
      · exact .pure ⟨nofun, (htrim ▸ Text.trimStart_suffix rest).trans hrest⟩
    · exact .pure ⟨trivial, hrest⟩

section

variable {s u : Session} {t rest next : Text} {q : Quantity}

/-- A list ends with the first element that is not read. -/
theorem outcome_listFrom_error {e : Error}
    (hread : (converted context t).outcome s = .ok (⟨.error e, rest⟩, u)) (values : List Quantity)
    (offset : Nat) :
    (listFrom context values offset t).outcome s = .ok (⟨.error (e.shift offset), rest⟩, u) := by
  rw [listFrom, Run.outcome_bind, hread]
  rfl

/-- A list ends with the first element that no comma follows. -/
theorem outcome_listFrom_last
    (hread : (converted context t).outcome s = .ok (⟨.ok q, rest⟩, u))
    (hend : ∀ next, Text.trimStart rest ≠ ',' :: next) (values : List Quantity) (offset : Nat) :
    (listFrom context values offset t).outcome s = .ok (⟨.ok (values ++ [q]), rest⟩, u) := by
  rw [listFrom, Run.outcome_bind, hread]
  -- the case of the comma is ruled out by `hend`
  simp only [Run.outcome_pure]

/-- A list goes on behind a comma. -/
theorem outcome_listFrom_next
    (hread : (converted context t).outcome s = .ok (⟨.ok q, rest⟩, u))
    (hcomma : Text.trimStart rest = ',' :: next) (hlt : next.length < t.length)
    (values : List Quantity) (offset : Nat) :
    (listFrom context values offset t).outcome s =
      (listFrom context (values ++ [q]) (offset + (Text.bytes t - Text.bytes next)) next).outcome
        u := by
  rw [listFrom, Run.outcome_bind, hread]
  simp only [hcomma, if_pos hlt]

end

theorem grants_listFrom (hcontext : context.Genuine) (values : List Quantity) (offset : Nat)
    (t : Text) : Run.Grants (Parsed.Forward t) (listFrom context values offset t) := by
  induction hn : t.length using Nat.strongRecOn generalizing values offset t with
  | ind n ih =>
    rw [listFrom]
    refine .bind (grants_converted hcontext t) fun ⟨value, rest⟩ ⟨hvalue, hrest⟩ => ?_
    cases value with
    | error e => exact .pure ⟨Error.Genuine.shift hvalue offset, hrest⟩
    | ok q =>
      simp only at hrest ⊢
      split
      · rename_i next htrim
        have hbehind := (Text.isBehind_of_trimStart htrim).trans_suffix hrest
        rw [if_pos hbehind.length_lt]
        refine (ih next.length (hn ▸ hbehind.length_lt) _ _ next rfl).mono fun parsed hparsed => ?_
        exact ⟨hparsed.1, hparsed.2.trans hbehind.suffix⟩
      · exact .pure ⟨trivial, hrest⟩

theorem grants_list (hcontext : context.Genuine) (t : Text) :
    Run.Grants (Parsed.Forward t) (list context t) :=
  grants_listFrom hcontext [] 0 t

variable {run : Runner}

theorem grants_arguments (hrun : Runner.Genuine run) (room : Nat) (t : Text) :
    Run.Grants (Parsed.Forward t) (arguments run room t) := by
  induction room generalizing t with
  | zero => exact .bind (.any _) fun s _ => .pure ⟨nofun, List.suffix_refl _⟩
  | succ room ih => exact grants_list ⟨hrun, ih⟩ t

theorem genuine_context (hrun : Runner.Genuine run) (room : Nat) (nested : Bool) :
    ReadingContext.Genuine ⟨run, arguments run room, nested⟩ :=
  ⟨hrun, grants_arguments hrun room⟩

theorem grants_topLevel (hrun : Runner.Genuine run) :
    Run.Grants ReadingContext.Genuine (topLevel run) :=
  .bind (.any _) fun _ _ => .pure (genuine_context hrun _ false)

end Expression

/-! ## The stream -/

/-- Tokens and the error that may follow them are the stream of a text of so many characters. -/
structure Postfix.IsStream (size : Nat) (tokens : List Token) (report? : Option Error) : Prop where
  length_le : tokens.length ≤ size
  clean : Clean tokens
  genuine : ∀ e ∈ report?, e.Genuine
  complete : report? = none → tokens = [] ∨ height tokens 0 = some 1
  cut : height tokens 0 = none → ∃ position, report? = some (.unterminated position none)

namespace Expression

variable {context : ReadingContext}

/-- **What is read of a text is a stream**, in every context. -/
theorem grants_stream (hcontext : context.Genuine) (t : Text) :
    Run.Grants (fun fed => ∃ (tokens : List Token) (report? : Option Error),
        fed.state = .ok (tokens.map .ok ++ report?.toList.map .error) ∧
          IsStream t.length tokens report?)
      (feed context (fun items before => .ok (before ++ items)) [] {} (.start t)) := by
  refine (feed_rule (c := .start t) hcontext
    (fun y items c => ∃ (tokens : List Token) (n : Nat), items = tokens.map .ok ∧
      Clean tokens ∧ height tokens 0 = some n ∧ y.Fits n ∧
      tokens.length + y.waiting.length + c.rest.length ≤ t.length)
    (fun state => ∃ (tokens : List Token) (report? : Option Error),
      state = .ok (tokens.map .ok ++ report?.toList.map .error) ∧ IsStream t.length tokens report?)
    ?_ ?_ ?_ ?_).mono fun _ h => h.1
  · rintro y y' tokens' _ c d ⟨tokens, n, rfl, hclean, hheight, hy, hlength⟩ hleads hlt
    obtain ⟨m, hm, hy'⟩ := Yard.fits_of_leads hy hleads
    have hgrowth := Yard.length_of_leads hleads
    refine ⟨tokens ++ tokens', m, by simp, hclean.append (hy.clean hleads), ?_, hy', ?_⟩
    · rw [height_append, hheight]
      exact hm
    · rw [List.length_append]
      omega
  · rintro y items _ c ⟨tokens, n, rfl, hclean, hheight, hy, hlength⟩ hends
    have hdrained := Yard.length_drain_le y
    have hsize : (tokens ++ y.drain.map Token.operator).length ≤ t.length := by
      rw [List.length_append, List.length_map]
      omega
    have hheight' : height (tokens ++ y.drain.map .operator) 0 =
        height (y.drain.map .operator) n := by
      rw [height_append, hheight]
      rfl
    have hclean' := hclean.append hy.clean_drain
    cases hends with
    | complete h =>
      have hdone : tokens ++ y.drain.map .operator = [] ∨
          height (tokens ++ y.drain.map .operator) 0 = some 1 := by
        rcases Yard.height_drain hy h with ⟨rfl, hdrain⟩ | hone
        · rw [hdrain, eq_nil_of_height_eq_zero hheight]
          exact Or.inl rfl
        · exact Or.inr (hheight'.trans hone)
      refine ⟨_, none, by simp, hsize, hclean', nofun, fun _ => hdone, fun hnone => ?_⟩
      rcases hdone with hnil | hone
      · rw [hnil] at hnone
        cases hnone
      · rw [hone] at hnone
        cases hnone
    | cut position =>
      refine ⟨_, some (.unterminated position none), by simp, hsize, hclean', ?_, nofun,
        fun _ => ⟨position, rfl⟩⟩
      rintro _ ⟨⟩
      exact nofun
  · rintro y e _ c ⟨tokens, n, rfl, hclean, hheight, hy, hlength⟩ he
    refine ⟨tokens, some e, rfl, by omega, hclean, ?_, nofun, fun hnone => ?_⟩
    · rintro _ ⟨⟩
      exact he
    · rw [hheight] at hnone
      cases hnone
  · exact ⟨[], 0, rfl, fun _ h => (List.not_mem_nil h).elim, rfl, Yard.fits_start, by simp⟩

end Expression

end QuantityCalc
