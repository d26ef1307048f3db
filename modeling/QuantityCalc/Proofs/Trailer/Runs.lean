import QuantityCalc.Proofs.Run.Entries
import QuantityCalc.Proofs.Trailer.Commands

/-!
# Runs of lines

A line runs its first command and then what the command leaves (`Command.outcome_lineFrom`). So
every result of a line is a derivation from the runs of its commands
(`Command.concludes_of_lineFrom`). `Command.Runs` is this derivation for lines without an error, and
`Command.Comes` tells the sessions and the texts in which the commands are run.
-/

namespace QuantityCalc

open Session Text

variable {s u v : Session} {w rest next : Text} {flow : Flow} {run : Runner}

namespace Command

/-- **A line runs its first command** and then what the command leaves. -/
theorem outcome_lineFrom (hrun : Runner.Genuine run) (size : Nat) (w : Text) (s : Session) :
    (lineFrom run size w).outcome s =
      match (one run w).outcome s with
      | .ok (.ok (.done (.returned q) _), v) => .ok (.ok (.returned q), v)
      | .ok (.ok (.lineOfItsOwn rest), v) => (lineFrom run (bytes rest) rest).outcome v
      | .ok (.ok (.done .proceed rest), v) =>
        if isOver (trimStart rest) then .ok (.ok .proceed, v)
        else
          match trimStart rest with
          | ';' :: next => (lineFrom run size next).outcome v
          | rest =>
            .ok (.error (.malformed (size - bytes rest) (.unexpected (String.ofList rest))), v)
      | .ok (.error e, v) => .ok (.error e, v)
      | .error h => .error h := by
  have hgrants := grants_one hrun w
  rw [lineFrom, Action.outcome_bind]
  rcases hone : (one run w).outcome s with h | ⟨e | o, v⟩
  · rfl
  · rfl
  · have hforward : o.Forward w := hgrants hone
    cases o with
    | lineOfItsOwn rest =>
      -- a line of its own is run only if it is shorter, which the text behind a brace always is
      have hbehind : rest.IsBehind w := hforward
      simp only [if_pos hbehind.length_lt]
    | done flow rest =>
      have hsuffix : rest <:+ w := hforward
      cases flow with
      | returned q => rfl
      | proceed =>
        simp only
        split
        · rfl
        · rcases hfront : trimStart rest with - | ⟨c, next⟩
          · rfl
          · by_cases hc : c = ';'
            · subst hc
              have hbehind := (isBehind_of_trimStart hfront).trans_suffix hsuffix
              simp only [if_pos hbehind.length_lt]
            · simp [hc]

theorem isOver_semicolon (w : Text) : isOver (';' :: w) = false := by
  simp [isOver, commentMark, List.isPrefixOf]

/-- Behind a semicolon, the next command is run in the session that the first one leads to. -/
theorem outcome_lineFrom_next (hrun : Runner.Genuine run) (size : Nat)
    (hone : (one run w).outcome s = .ok (.ok (.done .proceed rest), v))
    (hnext : trimStart rest = ';' :: next) :
    (lineFrom run size w).outcome s = (lineFrom run size next).outcome v := by
  rw [outcome_lineFrom hrun, hone]
  simp only [hnext, isOver_semicolon, Bool.false_eq_true, if_false]

/-- Behind the closing brace of a function, the text is run as a line. -/
theorem outcome_lineFrom_lineOfItsOwn (hrun : Runner.Genuine run) (size : Nat)
    (hone : (one run w).outcome s = .ok (.ok (.lineOfItsOwn rest), v)) :
    (lineFrom run size w).outcome s = (lineFrom run (bytes rest) rest).outcome v := by
  rw [outcome_lineFrom hrun, hone]

/-- How a line comes to its result: by the command at its front, or by what this command leaves. -/
inductive Concludes (run : Runner) :
    Session → Nat → Text → Except Error Flow → Session → Prop where
  | failed {s u : Session} {size : Nat} {w : Text} {e : Error}
      (hone : (one run w).outcome s = .ok (.error e, u)) : Concludes run s size w (.error e) u
  | returned {s u : Session} {size : Nat} {w rest : Text} {q : Quantity}
      (hone : (one run w).outcome s = .ok (.ok (.done (.returned q) rest), u)) :
      Concludes run s size w (.ok (.returned q)) u
  | last {s u : Session} {size : Nat} {w rest : Text}
      (hone : (one run w).outcome s = .ok (.ok (.done .proceed rest), u))
      (hover : isOver (trimStart rest) = true) : Concludes run s size w (.ok .proceed) u
  | leftover {s u : Session} {size : Nat} {w rest : Text}
      (hone : (one run w).outcome s = .ok (.ok (.done .proceed rest), u))
      (hover : isOver (trimStart rest) = false) :
      Concludes run s size w (.error (.malformed (size - bytes (trimStart rest))
        (.unexpected (String.ofList (trimStart rest))))) u
  | next {s v u : Session} {size : Nat} {w rest next : Text} {r : Except Error Flow}
      (hone : (one run w).outcome s = .ok (.ok (.done .proceed rest), v)) (hrest : rest <:+ w)
      (hnext : trimStart rest = ';' :: next) (hline : Concludes run v size next r u) :
      Concludes run s size w r u
  | lineOfItsOwn {s v u : Session} {size : Nat} {w rest : Text} {r : Except Error Flow}
      (hone : (one run w).outcome s = .ok (.ok (.lineOfItsOwn rest), v)) (hrest : rest <:+ w)
      (hline : Concludes run v (bytes rest) rest r u) : Concludes run s size w r u

/-- **Every run of a line that does not halt comes to its result in one of these ways**: by
induction on the length of the line. -/
theorem concludes_of_lineFrom (hrun : Runner.Genuine run) {size : Nat} {r : Except Error Flow}
    (h : (lineFrom run size w).outcome s = .ok (r, u)) : Concludes run s size w r u := by
  induction hn : w.length using Nat.strongRecOn generalizing s size w with
  | ind n ih =>
    have hgrants := grants_one hrun w
    rw [outcome_lineFrom hrun] at h
    rcases hone : (one run w).outcome s with x | ⟨e | o, v⟩
    · rw [hone] at h
      cases h
    · rw [hone] at h
      cases h
      exact .failed hone
    · have hforward : o.Forward w := hgrants hone
      rw [hone] at h
      cases o with
      | lineOfItsOwn rest =>
        have hbehind : rest.IsBehind w := hforward
        exact .lineOfItsOwn hone hbehind.suffix (ih rest.length (hn ▸ hbehind.length_lt) h rfl)
      | done flow rest =>
        have hsuffix : rest <:+ w := hforward
        cases flow with
        | returned q =>
          cases h
          exact .returned hone
        | proceed =>
          simp only at h
          split at h
          · rename_i hover
            cases h
            exact .last hone hover
          · rename_i hover
            split at h
            · rename_i next hnext
              have hbehind := (isBehind_of_trimStart hnext).trans_suffix hsuffix
              exact .next hone hsuffix hnext (ih next.length (hn ▸ hbehind.length_lt) h rfl)
            · cases h
              exact .leftover hone (Bool.eq_false_iff.2 hover)

/-- A successful run of a line, as the runs of its commands. -/
inductive Runs (run : Runner) : Session → Text → Flow → Session → Prop where
  | returned {s u : Session} {w rest : Text} {q : Quantity}
      (h : (one run w).outcome s = .ok (.ok (.done (.returned q) rest), u)) :
      Runs run s w (.returned q) u
  | last {s u : Session} {w rest : Text}
      (h : (one run w).outcome s = .ok (.ok (.done .proceed rest), u))
      (hover : isOver (trimStart rest) = true) : Runs run s w .proceed u
  | next {s v u : Session} {w rest next : Text} {flow : Flow}
      (h : (one run w).outcome s = .ok (.ok (.done .proceed rest), v))
      (hnext : trimStart rest = ';' :: next) (hrest : Runs run v next flow u) :
      Runs run s w flow u
  | lineOfItsOwn {s v u : Session} {w rest : Text} {flow : Flow}
      (h : (one run w).outcome s = .ok (.ok (.lineOfItsOwn rest), v))
      (hrest : Runs run v rest flow u) : Runs run s w flow u

theorem runs_of_lineFrom (hrun : Runner.Genuine run) {size : Nat}
    (h : (lineFrom run size w).outcome s = .ok (.ok flow, u)) : Runs run s w flow u := by
  have hconcludes := concludes_of_lineFrom hrun h
  clear h
  generalize hr : Except.ok flow = r at hconcludes
  induction hconcludes with
  | failed | leftover => cases hr
  | returned hone => cases hr; exact .returned hone
  | last hone hover => cases hr; exact .last hone hover
  | next hone _ hnext _ ih => exact .next hone hnext (ih hr)
  | lineOfItsOwn hone _ _ ih => exact .lineOfItsOwn hone (ih hr)

theorem lineFrom_of_runs (hrun : Runner.Genuine run) (h : Runs run s w flow u) (size : Nat) :
    (lineFrom run size w).outcome s = .ok (.ok flow, u) := by
  induction h generalizing size with
  | returned h => rw [outcome_lineFrom hrun, h]
  | last h hover => rw [outcome_lineFrom hrun, h]; exact if_pos hover
  | next h hnext _ ih => exact (outcome_lineFrom_next hrun size h hnext).trans (ih size)
  | lineOfItsOwn h _ ih => exact (outcome_lineFrom_lineOfItsOwn hrun size h).trans (ih _)

/-- What the commands of a line start with: a line comes to a text in a session if one of its
commands is run there. -/
inductive Comes (run : Runner) (v : Session) (rest : Text) : Session → Text → Prop where
  | here : Comes run v rest v rest
  | next {s u : Session} {w behind next : Text}
      (h : (one run w).outcome s = .ok (.ok (.done .proceed behind), u))
      (hnext : trimStart behind = ';' :: next) (hrest : Comes run v rest u next) :
      Comes run v rest s w
  | lineOfItsOwn {s u : Session} {w behind : Text}
      (h : (one run w).outcome s = .ok (.ok (.lineOfItsOwn behind), u))
      (hrest : Comes run v rest u behind) : Comes run v rest s w

/-! ## Single commands -/

theorem lt_size_of_one (hrun : Runner.Conforms (fun _ => True) run run)
    (hs : s.current < s.scopes.size) {r : Except Error Outcome}
    (h : (one run w).outcome s = .ok (r, u)) : u.current < u.scopes.size := by
  have hevolves : Evolves s u := ((conforms_one invariant_true hrun trivial w).2 h).1
  have hcurrent := hevolves.current
  have hsize := hevolves.size_le
  omega

theorem outcome_one_of_over (hs : s.isDeclaring = false) (hover : isOver (trimStart w) = true) :
    (one run w).outcome s = .ok (.ok (.done .proceed []), s) := by
  simp [one, hs, hover, proceed]

theorem isDeclaring_writes {α : Type} (text : α → String) (items : List α) (s : Session) :
    (items.foldl (fun t item => t.write (text item)) s).isDeclaring = s.isDeclaring := by
  induction items generalizing s with
  | nil => rfl
  | cons item items ih => exact ih (s.write (text item))

/-- Listing the visible items writes lines and takes the rest of the line for what follows it. -/
theorem outcome_one_list (run : Runner) (hs : s.isDeclaring = false) :
    ∃ u, (one run "List".toList).outcome s = .ok (.ok (.done .proceed []), u) ∧
      u.isDeclaring = false := by
  have hscan : Keyword.scan? (trimStart "List".toList) = some (.list, []) := by decide
  have hover : isOver (trimStart "List".toList) = false := by decide
  have hwrites := isDeclaring_writes (fun item => listed s item.1 item.2) s.visibleItems s
  refine ⟨_, ?_, hwrites.trans hs⟩
  simp only [one, Action.outcome_bind, Action.outcome_get, hs, Bool.false_eq_true, if_false, hover,
    hscan, Command.run, Action.outcome_modify]
  rfl

theorem outcome_list (budget : Nat) (hs : s.isDeclaring = false) :
    ∃ u, (execute budget "List").outcome s = .ok (.ok .proceed, u) ∧ u.isDeclaring = false := by
  obtain ⟨u, hone, hu⟩ := outcome_one_list (activation budget) hs
  have hruns : Runs (activation budget) s "List".toList .proceed u := .last hone rfl
  exact ⟨u, lineFrom_of_runs (genuine_activation budget) hruns _, hu⟩

end Command

end QuantityCalc
