import QuantityCalc.Proofs.Command.Errors
import QuantityCalc.Proofs.Run.Reachable
import QuantityCalc.Proofs.Trailer.Expressions

/-!
# Lists and their elements

In a list of expressions a comma with a space ends the element before it: it is no decimal sign, and
no number, name, unit or conversion is read on over it. So a list that is written with such commas
has the values that its elements have one after the other, in the session that they lead to
(`Session.readList_intercalate`).
-/

namespace QuantityCalc

open Text

variable {s t : Session} {budget : Nat} {context : ReadingContext} {texts : List Text}
  {values : List Quantity}

theorem Text.trimStart_space (t : Text) : trimStart (' ' :: t) = trimStart t :=
  List.dropWhile_cons_of_pos (by decide)

namespace Expression

/-- What has been read with its target unit is an element of a list, wherever the list goes on. -/
theorem outcome_element {r text text' : Text} {q : Quantity} (hr : IsEnding r)
    (hgenuine : context.Genuine) (hcontext : context.Repeats r) (h : Trails r text text')
    (htrim : trimStart r = r) (hread : (converted context text).outcome s = .ok (⟨.ok q, []⟩, t)) :
    (converted context text').outcome s = .ok (⟨.ok q, r⟩, t) := by
  obtain ⟨rest', hread', hrest⟩ := repeats_converted hr hgenuine hcontext h hread trivial
  have hrest' : rest' = r := by
    rcases hrest with hrest | ⟨-, hrest⟩
    · exact hrest
    · exact hrest.trans htrim
  exact hrest' ▸ hread'

/-- **The elements of a list are read as they are read one after the other**, behind the values that
have been read before and any white space. -/
theorem outcome_listFrom (hgenuine : context.Genuine)
    (hcontext : ∀ r, IsEnding r → context.Repeats r) (hne : texts ≠ [])
    (h : (texts.mapM (converted context)).outcome s = .ok (values.map fun q => ⟨.ok q, []⟩, t))
    (before : List Quantity) (offset : Nat) {list : Text}
    (hlist : trimStart list = trimStart ([',', ' '].intercalate texts)) :
    (listFrom context before offset list).outcome s = .ok (⟨.ok (before ++ values), []⟩, t) := by
  induction texts generalizing s values before offset list with
  | nil => exact absurd rfl hne
  | cons text texts ih =>
    rw [List.mapM_cons] at h
    obtain ⟨parsed, u, hfirst, h⟩ := Run.outcome_bind_eq_ok.1 h
    obtain ⟨others, v, hothers, h⟩ := Run.outcome_bind_eq_ok.1 h
    simp only [Run.outcome_pure, Except.ok.injEq, Prod.mk.injEq] at h
    obtain ⟨hvalues, rfl⟩ := h
    obtain ⟨q, values, rfl, rfl, rfl⟩ := List.map_eq_cons_iff.1 hvalues.symm
    cases texts with
    | nil =>
      cases values with
      | cons => cases hothers
      | nil =>
        cases hothers
        rw [List.intercalate_singleton] at hlist
        have hbehind : Trails [] text list := by rw [Trails, hlist, List.append_nil]
        have hread := outcome_element .nil hgenuine (hcontext [] .nil) hbehind rfl hfirst
        exact outcome_listFrom_last hread nofun before offset
    | cons second texts =>
      -- the text behind the element starts with the comma, and the white space goes to the next one
      let others := [',', ' '].intercalate (second :: texts)
      have hbehind : Trails (',' :: ' ' :: others) text list := by
        rw [Trails, hlist, List.intercalate_cons_cons, List.append_assoc]
        rfl
      have hending : IsEnding (',' :: ' ' :: others) := .element others
      have hread := outcome_element hending hgenuine (hcontext _ hending) hbehind
        (trimStart_comma _) hfirst
      have hlt : (' ' :: others).length < list.length :=
        (grants_converted hgenuine list hread).2.length_le
      rw [outcome_listFrom_next hread (trimStart_comma _) hlt,
        ih (List.cons_ne_nil _ _) hothers (before ++ [q]) _ (trimStart_space others),
        List.append_assoc, List.singleton_append]

end Expression

namespace Session

/-- Reading an expression leaves the options as they are. -/
theorem options_of_readConverted {text : Text} {parsed : Parsed Quantity}
    (h : (readConverted budget text).outcome s = .ok (parsed, t)) : t.options = s.options :=
  (evolves_of_step invariant_true trivial (.entry (.converted text) budget h)).1.options

/-- How expressions are read in a session. -/
def readingContext (s : Session) (budget : Nat) : ReadingContext :=
  ⟨activation budget, Expression.arguments (activation budget) s.options.maxNesting, false⟩

theorem outcome_topLevel (s : Session) (budget : Nat) :
    (Expression.topLevel (activation budget)).outcome s = .ok (s.readingContext budget, s) := rfl

theorem outcome_readConverted_eq (s : Session) (budget : Nat) (text : Text) :
    (readConverted budget text).outcome s =
      (Expression.converted (s.readingContext budget) text).outcome s := by
  rw [readConverted, Run.outcome_bind, outcome_topLevel]

theorem outcome_mapM_readConverted {parsed : List (Parsed Quantity)}
    (h : (texts.mapM (readConverted budget)).outcome s = .ok (parsed, t)) :
    (texts.mapM (Expression.converted (s.readingContext budget))).outcome s = .ok (parsed, t) := by
  induction texts generalizing s t parsed with
  | nil =>
    rw [List.mapM_nil] at h ⊢
    exact h
  | cons text texts ih =>
    rw [List.mapM_cons] at h ⊢
    obtain ⟨p, u, hfirst, h⟩ := Run.outcome_bind_eq_ok.1 h
    obtain ⟨others, v, hothers, h⟩ := Run.outcome_bind_eq_ok.1 h
    have hoptions : u.readingContext budget = s.readingContext budget := by
      rw [readingContext, options_of_readConverted hfirst, readingContext]
    have hrest := ih hothers
    rw [hoptions] at hrest
    rw [outcome_readConverted_eq] at hfirst
    refine Run.outcome_bind_eq_ok.2 ⟨p, u, hfirst, ?_⟩
    exact Run.outcome_bind_eq_ok.2 ⟨others, v, hrest, h⟩

/-- **A list is read as its elements are read one after the other.** If the texts of expressions,
read in their order, are read to their ends and have values, then the list that is made of them with
commas and spaces has these values, it is read to its end, and it leads to the same session. That
holds whether or not a comma in front of a digit is a decimal sign. -/
theorem readList_intercalate (hne : texts ≠ []) (h : (texts.mapM (readConverted budget)).outcome s =
      .ok (values.map fun q => ⟨.ok q, []⟩, t)) :
    (readList budget ([',', ' '].intercalate texts)).outcome s = .ok (⟨.ok values, []⟩, t) := by
  have hrun := genuine_activation budget
  have hgenuine : (s.readingContext budget).Genuine := Expression.genuine_context hrun _ false
  rw [readList, Run.outcome_bind, outcome_topLevel]
  exact Expression.outcome_listFrom hgenuine
    (fun r hr => Expression.repeats_context hr hrun _ false) hne (outcome_mapM_readConverted h) [] 0
    rfl

/-- A decimal comma and a target unit stand in a list beside the commas of the list. -/
theorem readList_intercalate_sample : ∃ p q t,
    (["1,5".toList, "2 km [m]".toList].mapM (readConverted 0)).outcome (start {} .unknown) =
      .ok ([p, q].map fun q => ⟨.ok q, []⟩, t) ∧
    (readList 0 "1,5, 2 km [m]".toList).outcome (start {} .unknown) =
      .ok (⟨.ok [p, q], []⟩, t) := by
  have hvalues : ((["1,5".toList, "2 km [m]".toList].mapM (readConverted 0)).outcome
      (start {} .unknown)).map (·.1.map fun parsed => (parsed.value.isOk, parsed.rest)) =
        .ok [(true, []), (true, [])] := by decide +kernel
  have hlist : "1,5, 2 km [m]".toList =
      [',', ' '].intercalate ["1,5".toList, "2 km [m]".toList] := by decide
  obtain ⟨⟨_, t⟩, hread, hvalues⟩ := Except.map_eq_ok.1 hvalues
  obtain ⟨⟨first, _⟩, _, rfl, hfirst, hvalues⟩ := List.map_eq_cons_iff.1 hvalues
  obtain ⟨⟨second, _⟩, _, rfl, hsecond, hvalues⟩ := List.map_eq_cons_iff.1 hvalues
  obtain rfl := List.map_eq_nil_iff.1 hvalues
  obtain ⟨hp, rfl⟩ := Prod.mk.inj hfirst
  obtain ⟨hq, rfl⟩ := Prod.mk.inj hsecond
  obtain ⟨p, rfl⟩ := Except.exists_of_isOk hp
  obtain ⟨q, rfl⟩ := Except.exists_of_isOk hq
  rw [hlist]
  exact ⟨p, q, t, hread, readList_intercalate (List.cons_ne_nil _ _) hread⟩

end Session

end QuantityCalc
