import QuantityCalc.Proofs.Expression.Rounds
import QuantityCalc.Proofs.Lexeme.Front
import QuantityCalc.Proofs.Run.Calls
import QuantityCalc.Proofs.Session.Errors
import QuantityCalc.Proofs.Text.Forward
import QuantityCalc.Proofs.Unit.Rest
import QuantityCalc.Expression.Basic

/-!
# Rounds of reading

If the bodies of functions end in genuine errors only, so do calls and words. A word does to the
yard what `Yard.Leads` says, and it takes something from the text (`Expression.grants_step`). So a
property of the consumer of a stream that every word preserves holds to the end of the expression
(`Expression.feed_rule`).
-/

namespace QuantityCalc

open Session

variable {α : Type} {run : Runner} {context : ReadingContext} {c : Cursor}

/-- The bodies that are run end in genuine errors only. -/
def Runner.Genuine (run : Runner) : Prop := ∀ ls, Action.Grants (fun _ => True) (run ls)

/-- What was read of a text is a genuine error or has a value, and an end of the text is left. -/
def Parsed.Forward (t : Text) (p : Parsed α) : Prop :=
  Meets (fun _ => True) p.value ∧ p.rest <:+ t

/-- The bodies that are run, and the arguments that are read, end in genuine errors only. -/
structure ReadingContext.Genuine (context : ReadingContext) : Prop where
  run : Runner.Genuine context.run
  arguments : ∀ t, Run.Grants (Parsed.Forward t) (context.arguments t)

/-! ## Calls -/

theorem grants_readLines (path : String) : Action.Grants (fun _ => True) (readLines path) := by
  refine .bind (.lift (.any _)) fun sighting _ => ?_
  split
  · exact .pure trivial
  · exact .throw nofun

theorem grants_runScript (hrun : Runner.Genuine run) (path : String) :
    Action.Grants (fun _ => True) (runScript run path) :=
  .bind (grants_readLines path) fun ls _ => hrun ls

theorem grants_inFrame {name : String} {parent : Nat} {args : List (String × Quantity)}
    {body : Action α} {P : α → Prop} (hbody : Action.Grants P body) :
    Action.Grants P (inFrame name parent args body) := by
  intro s r t hm
  rw [Run.outcome_action] at hm
  rcases Nat.lt_or_ge s.depth s.options.maxCallDepth with hlt | hge
  · rw [outcome_inFrame body hlt] at hm
    rcases hout : body.outcome (s.enter name parent args) with e | ⟨r', u⟩
    · rw [hout] at hm
      cases hm
    · rw [hout] at hm
      cases hm
      exact hbody hout
  · simp only [inFrame, Action.outcome_bind, Action.outcome_get, hge, if_true,
      Action.outcome_throw] at hm
    cases hm
    intro breach heq
    cases heq

theorem grants_callUser (hrun : Runner.Genuine run) (f : UserFunction) (scope : Nat)
    (args : List Quantity) : Action.Grants (fun _ => True) (callUser run f scope args) := by
  unfold callUser
  split
  · exact .throw nofun
  · refine .get_bind fun s => ?_
    refine .bind (.except (plainly_bindArguments s f _ _).meets) fun bound _ => ?_
    exact .bind (grants_inFrame (hrun _)) fun _ _ => .pure trivial

theorem grants_call (hrun : Runner.Genuine run) (home : Home) (name : String)
    (args : List Quantity) : Action.Grants (fun _ => True) (call run home name args) := by
  unfold call
  split
  · split
    · exact .except (Builtin.meets_call _ _)
    · exact .throw nofun
  · refine .get_bind fun s => ?_
    split
    · exact grants_callUser hrun _ _ args
    · exact .throw nofun

theorem grants_callFile (hrun : Runner.Genuine run) (name : String) :
    Action.Grants (fun _ => True) (callFile run name) := by
  refine .bind (.lift (.any _)) fun path? _ => ?_
  split
  · exact .pure trivial
  · refine .bind (grants_readLines _) fun ls _ => ?_
    exact .bind (grants_inFrame (hrun ls)) fun _ _ => .pure trivial

/-! ## Operands -/

namespace Reading

theorem grants_number (value : Float) : Reading.Grants (fun _ _ => True) c (number value) := by
  refine .get_bind (.session_bind fun s => ?_)
  split
  · rename_i unit rest hscan
    have hrest := (UnitSystem.suffix_of_scan? hscan).trans (Text.trimStart_suffix c.rest)
    exact .set_bind hrest (.pure trivial)
  · exact .set_bind (Text.trimStart_suffix _) (.throw nofun)
  · exact .pure trivial

theorem grants_arguments (hcontext : context.Genuine) :
    Reading.Grants (fun _ _ => True) c (arguments context) := by
  refine .skipBlanks_bind (.get_bind ?_)
  split
  · rename_i d heat
    exact .set_bind (Cursor.suffix_of_eat? heat) (.pure trivial)
  · refine .lift_bind (hcontext.arguments _) fun parsed ⟨hvalue, hrest⟩ => .set_bind hrest ?_
    refine .bind (P := fun _ _ => True) (.liftExcept (hvalue.shift _)) fun args d _ _ => ?_
    refine .skipBlanks_bind (.get_bind ?_)
    split
    · rename_i e heat
      exact .set_bind (Cursor.suffix_of_eat? heat) (.pure trivial)
    · split
      · exact .throw nofun
      · exact .malformed

theorem grants_scriptCall (hcontext : context.Genuine) (path : String) :
    Reading.Grants (fun _ _ => True) c (scriptCall context path) := by
  refine .get_bind ?_
  split
  · exact .throw nofun
  · rename_i d heat
    split
    · exact .throw nofun
    · refine .bind (.act (grants_callFile hcontext.run path)) fun value? e _ ⟨_, he⟩ => ?_
      split
      · exact .set_bind (he ▸ Cursor.suffix_of_eat? heat) (.pure trivial)
      · exact .throw nofun

theorem grants_named (hcontext : context.Genuine) (name : String) (position : Nat) :
    Reading.Grants (fun _ _ => True) c (named context name position) := by
  refine .get_bind (.session_bind fun s => .set_bind (resolve_suffix s name c.rest) ?_)
  split
  · exact grants_scriptCall hcontext _
  · rename_i meaning _
    cases meaning.kind with
    | var =>
      refine .session_bind fun s => ?_
      split
      · exact .pure trivial
      · exact .throw nofun
    | unit =>
      refine .session_bind fun s => ?_
      split
      · exact .pure trivial
      · exact .throw nofun
    | function =>
      refine .get_bind ?_
      split
      · rename_i d heat
        have hrest := Cursor.suffix_of_eat? heat
        rw [Cursor.rest_skipBlanks] at hrest
        refine .set_bind (hrest.trans (Text.trimStart_suffix _)) ?_
        refine .bind (grants_arguments hcontext) fun args e _ _ => ?_
        exact (Reading.Grants.act (grants_call hcontext.run _ _ _)).mono fun _ _ _ _ => trivial
      · exact .malformed
    | unitSystem => exact .throw nofun
    | space => exact .throw nofun

end Reading

/-! ## Words -/

/-- What an expression completes at its end. If something is missing, the stream is cut short. -/
inductive Yard.Ends (y : Yard) : List Postfix.Item → Prop where
  | complete (h : y.isIncomplete = false) : Ends y ((y.drain.map Token.operator).map .ok)
  | cut (position : Nat) :
      Ends y ((y.drain.map Token.operator).map .ok ++ [.error (.unterminated position none)])

/-- What a round does to the yard. -/
def Yard.Gives (y : Yard) : Round → Prop
  | .more items y' => ∃ tokens : List Token, items = tokens.map .ok ∧ y.Leads tokens y'
  | .last items => y.Ends items

namespace Expression

variable {y : Yard}

theorem itemsOf_eq (ops : List Operator) : itemsOf ops = (ops.map Token.operator).map .ok :=
  (List.map_map ..).symm

theorem grants_finish (y : Yard) (place : Cursor) :
    Reading.Grants (fun round _ => ∃ items, round = .last items ∧ y.Ends items) c
      (finish y place) := by
  unfold finish
  rw [itemsOf_eq]
  split
  · split
    · exact .pure ⟨_, rfl, .cut _⟩
    · exact .malformed
  · rename_i hcomplete
    exact .pure ⟨_, rfl, .complete (by simpa using hcomplete)⟩

theorem ne_operand_of_checkOperand {u : Unit} (h : y.checkOperand = .ok u) :
    y.last ≠ .operand := by
  unfold Yard.checkOperand at h
  split at h
  · cases h
  · assumption

theorem grants_operand {read : Reading Quantity} {position : Nat}
    (hread : ∀ c, Reading.Grants (fun _ _ => True) c read) :
    Reading.Grants (fun round _ => ∃ (tokens : List Token) (y' : Yard),
      round = .more (tokens.map .ok) y' ∧ y.Leads tokens y') c (operand y position read) := by
  refine .bind (P := fun _ _ => y.last ≠ .operand) (.check fun _ => ne_operand_of_checkOperand)
    fun _ d _ hlast => ?_
  exact .bind (hread d) fun q e _ _ => .pure ⟨[.operand q], _, rfl, .operand q hlast⟩

theorem grants_word (hcontext : context.Genuine) (position : Nat) {l : Lexeme}
    (hl : ∀ op, l = .operator op → op ∈ Operator.spelled) :
    Reading.Grants (fun round _ => ∃ (tokens : List Token) (y' : Yard),
      round = .more (tokens.map .ok) y' ∧ y.Leads tokens y') c (word context y position l) := by
  cases l with
  | parenOpen =>
    refine .bind (P := fun _ _ => y.last ≠ .operand) (.check fun _ => ne_operand_of_checkOperand)
      fun _ d _ hlast => .session_bind fun s => ?_
    simp only
    split
    · exact .throw nofun
    · exact .pure ⟨[], _, rfl, .openGroup hlast⟩
  | parenClose =>
    refine .bind (P := fun x _ => y.closeGroup = .ok x) (.check fun _ h => h) fun x d _ hx => ?_
    exact .pure ⟨_, _, by rw [itemsOf_eq], .closeGroup hx⟩
  | operator op =>
    refine .bind (P := fun x _ => y.operator op = .ok x) (.check fun _ h => h) fun x d _ hx => ?_
    exact .pure ⟨_, _, by rw [itemsOf_eq], .operator (hl op rfl) hx⟩
  | number l =>
    simp only [word]
    split
    · exact grants_operand fun c => Reading.grants_number _
    · exact .throw nofun
  | name name => exact grants_operand fun c => Reading.grants_named hcontext _ _
  | mark x => exact .throw nofun

/-- **A round of reading** does to the yard what a word or the end of the expression does to it, and
if the expression goes on, something was read. -/
theorem grants_step (hcontext : context.Genuine) (y : Yard) :
    Reading.Grants (fun round d => y.Gives round ∧
      ∀ items y', round = .more items y' → d.rest.length < c.rest.length) c (step context y) := by
  rw [step_eq]
  have hfinish (place : Cursor) : Reading.Grants (fun round d => y.Gives round ∧
      ∀ items y', round = .more items y' → d.rest.length < c.rest.length) c.skipBlanks
      (finish y place) := by
    refine (grants_finish y place).mono ?_
    rintro round d - ⟨items, rfl, hends⟩
    exact ⟨hends, nofun⟩
  refine .skipBlanks_bind (.get_bind ?_)
  split
  · exact hfinish _
  · split
    · split
      · exact hfinish _
      · exact .malformed
    · refine .session_bind fun s => ?_
      split
      · rename_i l rest hscan
        have hbehind := Lexeme.isBehind_of_scan? hscan
        refine .set_bind hbehind.suffix ?_
        refine (grants_word hcontext _ ?_).mono ?_
        · rintro op rfl
          exact Lexeme.mem_spelled_of_scan? hscan
        · rintro round d hd ⟨tokens, y', rfl, hleads⟩
          have hlt := hbehind.trans_suffix (Text.trimStart_suffix c.rest)
          exact ⟨⟨tokens, rfl, hleads⟩, fun _ _ _ => (hlt.of_suffix hd).length_lt⟩
      · exact .throw nofun

/-- **What every word preserves holds to the end of an expression.** -/
theorem feed_rule (hcontext : context.Genuine) {σ : Type}
    {consume : List Postfix.Item → σ → Except Error σ} (Inv : Yard → σ → Cursor → Prop)
    (Post : Except Error σ → Prop)
    (hmore : ∀ {y y' : Yard} {tokens : List Token} {state : σ} {c d : Cursor}, Inv y state c →
      y.Leads tokens y' → d.rest.length < c.rest.length →
      match consume (tokens.map .ok) state with
      | .ok state' => Inv y' state' d
      | .error e => Post (.error e))
    (hlast : ∀ {y : Yard} {items : List Postfix.Item} {state : σ} {c : Cursor}, Inv y state c →
      y.Ends items → Post (consume items state))
    (herror : ∀ {y : Yard} {e : Error} {state : σ} {c : Cursor}, Inv y state c → e.Genuine →
      Post (consume [.error e] state))
    {state : σ} (h : Inv y state c) :
    Run.Grants (fun fed => Post fed.state ∧ fed.place.rest <:+ c.rest)
      (feed context consume state y c) := by
  induction hn : c.rest.length using Nat.strongRecOn generalizing state y c with
  | ind n ih =>
    rw [feed]
    refine .bind (grants_step hcontext y) fun ⟨r, d⟩ ⟨hr, hd⟩ => ?_
    match r with
    | .error e => exact .pure ⟨herror h hr, hd⟩
    | .ok (.last items) => exact .pure ⟨hlast h hr.1, hd⟩
    | .ok (.more items y') =>
      obtain ⟨⟨tokens, rfl, hleads⟩, hlt⟩ := hr
      have hlt : d.rest.length < c.rest.length := hlt _ _ rfl
      have hstep := hmore h hleads hlt
      simp only
      split
      · rename_i e hconsume
        rw [hconsume] at hstep
        exact .pure ⟨hstep, hd⟩
      · rename_i state' hconsume
        rw [hconsume] at hstep
        rw [if_pos hlt]
        refine (ih d.rest.length (hn ▸ hlt) hstep rfl).mono fun fed hfed => ?_
        exact ⟨hfed.1, hfed.2.trans hd⟩

end Expression

end QuantityCalc
