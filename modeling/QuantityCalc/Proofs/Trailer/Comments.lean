import QuantityCalc.Proofs.Command.Scripts
import QuantityCalc.Proofs.Run.Reachable
import QuantityCalc.Proofs.Trailer.Runs

/-!
# Comments

A comment at the end of a line makes no difference (`Session.outcome_execute_comment`), but for one
defect: a command that reads a script takes all that stands in front of the next semicolon as the
name of the script, a comment included.
-/

namespace QuantityCalc

open Session Text

variable {s t u v : Session} {w rest next : Text} {flow : Flow} {run : Runner}

namespace Command

/-- Whether a command of a line reads a script whose name no semicolon ends. -/
def ReadsToEnd (run : Runner) (s : Session) (w : Text) : Prop :=
  ∃ v rest args, Comes run v rest s w ∧ v.isDeclaring = false ∧
    Keyword.scan? (trimStart rest) = some (.read, args) ∧ ';' ∉ args

theorem not_readsToEnd_next (h : ¬ReadsToEnd run s w)
    (hone : (one run w).outcome s = .ok (.ok (.done .proceed rest), v))
    (hnext : trimStart rest = ';' :: next) : ¬ReadsToEnd run v next := by
  rintro ⟨u, place, args, hcomes, hread⟩
  exact h ⟨u, place, args, .next hone hnext hcomes, hread⟩

theorem not_readsToEnd_lineOfItsOwn (h : ¬ReadsToEnd run s w)
    (hone : (one run w).outcome s = .ok (.ok (.lineOfItsOwn rest), v)) :
    ¬ReadsToEnd run v rest := by
  rintro ⟨u, place, args, hcomes, hread⟩
  exact h ⟨u, place, args, .lineOfItsOwn hone hcomes, hread⟩

/-- The name of a script that a command of the line reads ends at a semicolon. -/
theorem mem_of_not_readsToEnd (h : ¬ReadsToEnd run s w) (hs : s.isDeclaring = false)
    {args : Text} (hread : Keyword.scan? (trimStart w) = some (.read, args)) : ';' ∈ args := by
  by_contra hnot
  exact h ⟨s, w, args, .here, hs, hread, hnot⟩

theorem Trails.isOver_of_comment {words rest' : Text}
    (h : Text.Trails (' ' :: '/' :: '/' :: words) rest rest')
    (hover : isOver (trimStart rest) = true) : isOver (trimStart rest') = true := by
  rcases h.cases with ⟨-, h⟩ | ⟨x, v, ht, ht'⟩
  · rw [h, trimStart_comment]
    simp [isOver, commentMark, List.isPrefixOf]
  · rw [ht', ← List.cons_append, isOver_append_of_cons (.space _), ← ht]
    exact hover

/-- **A comment behind a line makes no difference**, if the line runs without an error, finishes the
declarations that it begins, and does not end in the name of a script. -/
theorem runs_append_comment (hgenuine : Runner.Genuine run)
    (hrun : Runner.Conforms (fun _ => True) run run) (words : Text) (h : Runs run s w flow u)
    (hs : s.current < s.scopes.size) (hu : u.isDeclaring = false) (hread : ¬ReadsToEnd run s w) :
    Runs run s (w ++ ' ' :: '/' :: '/' :: words) flow u := by
  have hr : IsTrailer (' ' :: '/' :: '/' :: words) := .comment words
  -- a command is not changed by the comment, unless the line is over already
  have hone {s v : Session} {w : Text} {o : Outcome} (hs : s.current < s.scopes.size)
      (hread : ¬ReadsToEnd run s w) (h : (one run w).outcome s = .ok (.ok o, v))
      (hend : o = .done .proceed [] → v.isDeclaring = false) :
      ∃ o', (one run (w ++ ' ' :: '/' :: '/' :: words)).outcome s = .ok (.ok o', v) ∧
        (Outcome.Trails (' ' :: '/' :: '/' :: words) o o' ∨
          o = .done .proceed [] ∧ o' = .done .proceed []) := by
    by_cases hover : s.isDeclaring = false ∧ isOver (trimStart w) = true
    · obtain ⟨hs, hover⟩ := hover
      have hover' := Trails.isOver_of_comment (.append w (' ' :: '/' :: '/' :: words)) hover
      rw [outcome_one_of_over hs hover] at h
      cases h
      exact ⟨_, outcome_one_of_over hs hover', .inr ⟨rfl, rfl⟩⟩
    · obtain ⟨o', h', ho⟩ := repeats_one hr hgenuine hs
        (fun hs => Bool.eq_false_iff.2 fun h => hover ⟨hs, h⟩)
        (fun hs args hscan => .inr (mem_of_not_readsToEnd hread hs hscan)) h hend
      exact ⟨o', h', .inl ho⟩
  induction h with
  | @returned s u w rest q h =>
    obtain ⟨o', h', ho | ⟨heq, -⟩⟩ := hone hs hread h nofun
    · cases ho
      exact .returned h'
    · cases heq
  | @last s u w rest h hover =>
    obtain ⟨o', h', ho | ⟨-, rfl⟩⟩ := hone hs hread h fun _ => hu
    · cases ho with
      | done _ hrest => exact .last h' (Trails.isOver_of_comment hrest hover)
    · exact .last h' rfl
  | @next s v u w rest next flow h hnext _ ih =>
    have hv := lt_size_of_one hrun hs h
    have hrest : Outcome.done .proceed rest ≠ .done .proceed [] := by
      intro heq
      cases heq
      cases hnext
    obtain ⟨o', h', ho | ⟨heq, -⟩⟩ := hone hs hread h fun heq => absurd heq hrest
    · cases ho with
      | done _ hrest =>
        exact .next h' (hrest.eq_cons hnext) (ih hv hu (not_readsToEnd_next hread h hnext))
    · exact absurd heq hrest
  | @lineOfItsOwn s v u w rest flow h _ ih =>
    have hv := lt_size_of_one hrun hs h
    obtain ⟨o', h', ho | ⟨heq, -⟩⟩ := hone hs hread h nofun
    · cases ho
      exact .lineOfItsOwn h' (ih hv hu (not_readsToEnd_lineOfItsOwn hread h))
    · cases heq

end Command

open Command

/-- **A comment behind a line makes no difference**, if the line runs without an error and leaves no
declaration in progress. But if the line ends in the name of a script, the comment is taken for a
part of that name. -/
theorem Session.outcome_execute_comment {fs : List Frame} {l words : String} {budget : Nat}
    (hs : Reachable fs s) (hl : (execute budget l).outcome s = .ok (.ok flow, t))
    (ht : t.isDeclaring = false) (hread : ¬ReadsToEnd (activation budget) s l.toList) :
    (execute budget (l ++ " //" ++ words)).outcome s = .ok (.ok flow, t) := by
  have hgenuine := genuine_activation budget
  have hrun : Runner.Conforms (fun _ => True) (activation budget) (activation budget) :=
    conforms_activation invariant_true budget
  have htext : (l ++ " //" ++ words).toList = l.toList ++ ' ' :: '/' :: '/' :: words.toList := by
    simp
  have hruns := runs_append_comment hgenuine hrun words.toList (runs_of_lineFrom hgenuine hl)
    (stack_of_reachable hs).valid.current ht hread
  rw [execute, line, htext]
  exact lineFrom_of_runs hgenuine hruns _


theorem Session.outcome_execute_comment_list :
    ∃ t, (execute 1 "List").outcome (start {} .unknown) = .ok (.ok .proceed, t) ∧
      (execute 1 ("List" ++ " //" ++ " what is bound")).outcome (start {} .unknown) =
        .ok (.ok .proceed, t) := by
  obtain ⟨t, ht, hdeclaring⟩ := outcome_list 1 (s := start {} .unknown) rfl
  have hread : ¬ReadsToEnd (activation 1) (start {} .unknown) "List".toList := by
    obtain ⟨u, hone, -⟩ := outcome_one_list (activation 1) (s := start {} .unknown) rfl
    have hscan : Keyword.scan? (trimStart "List".toList) = some (.list, []) := by decide
    rintro ⟨v, rest, args, hcomes, -, hread, -⟩
    cases hcomes with
    | here => cases hscan.symm.trans hread
    | next h hnext _ =>
      cases hone.symm.trans h
      cases hnext
    | lineOfItsOwn h _ => cases hone.symm.trans h
  exact ⟨t, ht, outcome_execute_comment (.start {} .unknown) ht hdeclaring hread⟩

/-- The comment behind the name of a script is read as a part of that name, and no such script is
found. -/
theorem Session.outcome_execute_commented_script :
    (∃ t, (execute 1 "Read again").outcome (beside "") = .ok (.ok .proceed, t) ∧
      t.isDeclaring = false) ∧
    (execute 1 ("Read again" ++ " //" ++ " comment")).outcome (beside "") =
      .ok (.error (.file "again // comment" .notFound), beside "") := by
  constructor
  · refine ⟨(beside "").cancelDraft.2, ?_, rfl⟩
    rw [execute, outcome_read_beside]
    rfl
  · have hone : (one (activation 1) "Read again // comment".toList).outcome (beside "") =
        .ok (.error (.file "again // comment" .notFound), beside "") := rfl
    rw [execute, line, outcome_lineFrom (genuine_activation 1)]
    exact hone ▸ rfl

end QuantityCalc
