import QuantityCalc.Proofs.Expression.Streams
import QuantityCalc.Proofs.Function.Draft
import QuantityCalc.Interpreter

/-!
# Errors of commands

Commands end in genuine errors only, and every command of a line takes something from it
(`Command.grants_one`). So lines do, and the bodies of functions and scripts, whatever the budget is
(`genuine_activation`).
-/

namespace QuantityCalc

open Session

variable {run : Runner}

namespace Command

/-- A command leaves an end of its text, and a line of its own is a proper end. -/
def Outcome.Forward (t : Text) : Outcome → Prop
  | .done _ rest => rest <:+ t
  | .lineOfItsOwn rest => rest.IsBehind t

theorem Outcome.Forward.mono {t u : Text} {o : Outcome} (h : o.Forward t) (htu : t <:+ u) :
    o.Forward u := by
  cases o with
  | done flow rest => exact List.IsSuffix.trans h htu
  | lineOfItsOwn rest => exact Text.IsBehind.trans_suffix h htu

theorem grants_reading {α : Type} (hrun : Runner.Genuine run)
    {read : ReadingContext → Text → Run (Parsed α)} {t : Text}
    (h : ∀ {context : ReadingContext}, context.Genuine →
      Run.Grants (Parsed.Forward t) (read context t)) :
    Action.Grants (fun x => x.2 <:+ t) (reading read run t) := by
  have hread : Run.Grants (Parsed.Forward t) (Expression.topLevel run >>= (read · t)) :=
    .bind (Expression.grants_topLevel hrun) fun context hcontext => h hcontext
  have hresult : Action.Grants (fun x => x.2 <:+ t) (do
      let parsed ← ExceptT.lift (Expression.topLevel run >>= (read · t))
      return (← liftExcept parsed.value, parsed.rest)) :=
    .bind (.lift hread) fun parsed ⟨hvalue, hrest⟩ =>
      .bind (.liftExcept hvalue) fun value _ => .pure hrest
  exact fun s r u hm => hresult hm

theorem grants_converted (hrun : Runner.Genuine run) (t : Text) :
    Action.Grants (fun x => x.2 <:+ t) (reading Expression.converted run t) :=
  grants_reading hrun fun hcontext => Expression.grants_converted hcontext t

theorem grants_declaration (t : Text) : Action.Grants (Outcome.Forward t) (declaration t) := by
  have hcontinue : Action.Grants (fun parsed : Parsed (Option UserFunction) =>
      Meets (fun f? => f?.isSome = true → parsed.rest.IsBehind t) parsed.value)
      (modifyGet (continueDeclaration · t)) :=
    .modifyGet fun s => Draft.meets_feed _ t
  refine .bind hcontinue fun parsed hparsed => .bind (.liftExcept hparsed) fun f? hrest => ?_
  split
  · exact .bind (grants_registerFunction _) fun _ _ => .pure (hrest rfl)
  · exact .pure List.nil_suffix

theorem grants_run (hrun : Runner.Genuine run) {t args : Text} (hargs : args <:+ t)
    (k : Keyword) : Action.Grants (Outcome.Forward t) (Command.run run t args k) := by
  cases k with
  | print =>
    refine .bind (grants_reading hrun fun hcontext => Expression.grants_list hcontext args)
      fun x hx => .bind (.modify _) fun _ _ => .pure (hx.trans hargs)
  | var =>
    simp only [Command.run]
    split
    · rename_i hassignment
      have hbehind := (Name.isBehind_of_assignment? hassignment).suffix.trans hargs
      refine .bind (grants_converted hrun _) fun x hx => ?_
      refine .bind (grants_define _ _) fun _ _ => .pure ?_
      exact hx.trans hbehind
    · exact .throw nofun
  | unit =>
    simp only [Command.run]
    split
    · rename_i hassignment
      have hbehind := (Name.isBehind_of_assignment? hassignment).suffix.trans hargs
      refine .bind (grants_converted hrun _) fun x hx => ?_
      refine .bind (grants_declareUnit _ _) fun _ _ => .pure ?_
      exact hx.trans hbehind
    · exact .throw nofun
  | func => exact grants_declaration t
  | returning =>
    refine .get_bind fun s => ?_
    split
    · exact .throw nofun
    · exact .bind (grants_converted hrun args) fun x hx => .pure (hx.trans hargs)
  | space =>
    simp only [Command.run]
    split
    · rename_i hpath
      have hbehind := (Name.isBehind_of_path? hpath).suffix.trans hargs
      exact .bind (grants_declareNamespace _) fun _ _ => .pure hbehind
    · exact .throw nofun
  | remove =>
    simp only [Command.run]
    split
    · rename_i hpath
      have hbehind := (Name.isBehind_of_path? hpath).suffix.trans hargs
      exact .bind (grants_remove _) fun _ _ => .pure hbehind
    · exact .throw nofun
  | read =>
    have hrest : args.dropWhile (· ≠ ';') <:+ t := (List.dropWhile_suffix _).trans hargs
    simp only [Command.run]
    split
    · exact .throw nofun
    · refine .bind (.lift (.any _)) fun path? _ => ?_
      split
      · refine .bind (grants_runScript hrun _) fun value? _ => ?_
        split
        · exact .pure hrest
        · exact .pure hrest
      · exact .throw nofun
  | list => exact .bind (.modify _) fun _ _ => .pure hargs

/-- **A command takes something from a line**, and its errors are genuine. -/
theorem grants_one (hrun : Runner.Genuine run) (t : Text) :
    Action.Grants (Outcome.Forward t) (one run t) := by
  have htrim := Text.trimStart_suffix t
  refine .get_bind fun s => ?_
  split
  · exact grants_declaration t
  · simp only
    split
    · exact .pure List.nil_suffix
    · split
      · rename_i hscan
        have hbehind := Keyword.isBehind_of_scan? hscan
        exact (grants_run hrun hbehind.suffix _).mono fun o ho => ho.mono htrim
      · rename_i hassignment
        have hbehind := (Name.isBehind_of_assignment? hassignment).suffix.trans htrim
        refine .bind (grants_converted hrun _) fun x hx => ?_
        refine .bind (grants_assign _ _) fun _ _ => .pure ?_
        exact hx.trans hbehind
      · refine .bind (grants_converted hrun _) fun x hx => .bind (.modify _) fun _ _ => .pure ?_
        exact hx.trans htrim

/-! ## Lines -/

theorem grants_lineFrom (hrun : Runner.Genuine run) (size : Nat) (t : Text) :
    Action.Grants (fun _ => True) (lineFrom run size t) := by
  induction hn : t.length using Nat.strongRecOn generalizing size t with
  | ind n ih =>
    rw [lineFrom]
    refine .bind (grants_one hrun t) fun o ho => ?_
    cases o with
    | lineOfItsOwn rest =>
      have hbehind : rest.IsBehind t := ho
      simp only
      rw [if_pos hbehind.length_lt]
      exact ih rest.length (hn ▸ hbehind.length_lt) _ rest rfl
    | done flow rest =>
      have hsuffix : rest <:+ t := ho
      cases flow with
      | returned q => exact .pure trivial
      | proceed =>
        simp only
        split
        · exact .pure trivial
        · split
          · rename_i next htrim
            have hbehind := (Text.isBehind_of_trimStart htrim).trans_suffix hsuffix
            rw [if_pos hbehind.length_lt]
            exact ih next.length (hn ▸ hbehind.length_lt) _ next rfl
          · refine .throw fun breach heq => ?_
            cases heq

theorem grants_line (hrun : Runner.Genuine run) (l : String) :
    Action.Grants (fun _ => True) (line run l) :=
  grants_lineFrom hrun _ _

theorem grants_lines (hrun : Runner.Genuine run) (ls : List String) :
    Action.Grants (fun _ => True) (lines run ls) := by
  have hcancel : Action.Grants (fun _ => True) (modifyGet cancelDraft) :=
    .modifyGet fun _ => trivial
  induction ls with
  | nil =>
    refine .bind hcancel fun name? _ => ?_
    split
    · exact .throw nofun
    · exact .pure trivial
  | cons l ls ih =>
    refine .bind (.lift (P := Meets fun _ => True) (grants_line hrun l)) fun r hr => ?_
    match r with
    | .ok .proceed => exact ih
    | .ok (.returned q) => exact .bind hcancel fun _ _ => .pure trivial
    | .error e => exact .bind hcancel fun _ _ => .throw hr

end Command

/-- **The bodies of functions and scripts end in genuine errors only.** -/
theorem genuine_activation (budget : Nat) : Runner.Genuine (activation budget) := by
  induction budget with
  | zero => exact fun ls s r t hm => by cases hm
  | succ budget ih => exact Command.grants_lines ih

end QuantityCalc
