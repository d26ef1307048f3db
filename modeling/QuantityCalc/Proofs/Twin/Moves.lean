import QuantityCalc.Proofs.Twin.Accord

/-!
# Moves on both sides

Two outcomes agree if they are the same error, or values in a relation (`Agree`). A command that
binds, declares or removes makes the same move in sessions that are alike, or it is refused in both
with the same error, and the sessions stay alike (`Alike.agree_define` and its neighbours). So do
the beginning and the end of a call (`Resembles.enter`, `Alike.leave`).
-/

namespace QuantityCalc

open Session

/-- Two outcomes are the same error, or values in a relation. -/
inductive Agree {ε α β : Type} (P : α → β → Prop) : Except ε α → Except ε β → Prop where
  | ok {a : α} {b : β} (h : P a b) : Agree P (.ok a) (.ok b)
  | error (e : ε) : Agree P (.error e) (.error e)

namespace Agree

variable {ε α α' β β' : Type} {P : α → α' → Prop} {Q : β → β' → Prop} {r : Except ε α}
  {r' : Except ε α'}

/-- Two steps that agree go on with steps that agree. -/
theorem bind {f : α → Except ε β} {f' : α' → Except ε β'} (h : Agree P r r')
    (hf : ∀ {a : α} {a' : α'}, r = .ok a → P a a' → Agree Q (f a) (f' a')) :
    Agree Q (r >>= f) (r' >>= f') := by
  cases h with
  | ok h => exact hf rfl h
  | error e => exact .error e

theorem imp {P' : α → α' → Prop} (h : Agree P r r')
    (hP : ∀ {a : α} {a' : α'}, r = .ok a → P a a' → P' a a') : Agree P' r r' := by
  cases h with
  | ok h => exact .ok (hP rfl h)
  | error e => exact .error e

/-- An outcome agrees with itself. -/
theorem of_eq {P : α → α → Prop} {r r' : Except ε α} (h : r' = r)
    (hP : ∀ {a : α}, r = .ok a → P a a) : Agree P r r' := by
  subst h
  rcases hr : r' with e | a
  · exact .error e
  · exact .ok (hP hr)

end Agree

variable {A : Accord} {s s' t t' : Session} {p : Nat} {name path : String} {item : Item}

/-! ## Changes of sessions -/

namespace Resembles

variable (h : Resembles A s s')
include h

/-- The veil covers a scope of the arena. -/
theorem lt_size_of_veil (v : Veil) (hv : v ∈ A.veil?) : v.scope < s.scopes.size := by
  obtain ⟨found, hfound, -⟩ := h.veil v hv
  exact (Array.getElem?_eq_some_iff.1 hfound).1

/-- A change of a scope that is not behind the veil is made on both sides. -/
theorem modifyScope (hp : ¬A.Hides p) (f : Scope → Scope) :
    Resembles A (s.modifyScope p f) (s'.modifyScope p f) := by
  refine { h with size_eq := ?_, scope := fun {q} hq => ?_, veil := fun v hv => ?_ }
  · rw [size_modifyScope, size_modifyScope, h.size_eq]
  · rw [scopes_modifyScope, scopes_modifyScope, h.scope hq]
  · have hne : p ≠ v.scope := fun heq => hp ⟨v, hv, heq⟩
    rw [scopes_modifyScope, scopes_modifyScope, if_neg hne, if_neg hne]
    exact h.veil v hv

theorem insert (hp : ¬A.Hides p) (name : String) (item : Item) :
    Resembles A (s.insert p name item) (s'.insert p name item) :=
  h.modifyScope hp _

theorem pushScope (found : Scope) : Resembles A (s.pushScope found) (s'.pushScope found) := by
  refine { h with size_eq := ?_, scope := fun {q} hq => ?_, veil := fun v hv => ?_ }
  · rw [size_pushScope, size_pushScope, h.size_eq]
  · rw [scopes_pushScope, scopes_pushScope, h.size_eq, h.scope hq]
  · have hne := Nat.ne_of_lt (h.lt_size_of_veil v hv)
    rw [scopes_pushScope, scopes_pushScope, h.size_eq, if_neg hne, if_neg hne]
    exact h.veil v hv

/-- Lines that are written may differ, if the accord is not exact. -/
theorem write {line line' : String} (hline : A.exact → line' = line) :
    Resembles A (s.write line) (s'.write line') := by
  refine { h with lines := ?_, output := fun hexact => ?_ }
  · simp only [Session.write, Array.size_push, h.lines]
  · simp only [Session.write, h.output hexact, hline hexact]

/-- What stands after the end of a call resembles itself on both sides. -/
theorem leave (hsize : s.scopes.size ≤ t.scopes.size) (ht : Resembles A t t') :
    Resembles A (t.leave s.frame) (t'.leave s'.frame) := by
  have hframe : s'.frame.size = s.frame.size := h.size_eq
  refine ⟨h.current, ?_, h.floor, ht.system, ht.files, ht.options, ?_, fun {q} hq => ?_,
    fun v hv => ?_, ht.lines, ht.output⟩
  · simp only [Session.leave, ht.depth]
  · have hsize' : s'.frame.size ≤ t'.scopes.size := by
      rw [hframe, ht.size_eq]
      exact hsize
    rw [size_leave hsize', size_leave hsize, hframe]
  · rw [scopes_leave, scopes_leave, hframe, ht.scope hq]
  · have hlt : v.scope < s.frame.size := h.lt_size_of_veil v hv
    rw [scopes_leave, scopes_leave, hframe, if_pos hlt, if_pos hlt]
    exact ht.veil v hv

/-- **A call begins alike on both sides.** -/
theorem enter (hp : A.Visible s p) {args : List (String × Quantity)}
    (hs : A.holds (s.enter name p args)) :
    Alike A (s.enter name p args) (s'.enter name p args) := by
  have hpush := h.pushScope {
    name := name
    parent? := some p
    items := args.foldl (fun items arg => items.insert arg.1 (.var arg.2)) ∅ }
  have hresembles : Resembles A (s.enter name p args) (s'.enter name p args) :=
    { hpush with
      current := h.size_eq
      floor := h.size_eq
      depth := congrArg (· + 1) h.depth }
  refine ⟨hresembles, hs, ?_⟩
  have hnew : (s.enter name p args).scopes[s.scopes.size]? = some ⟨name, some p,
      args.foldl (fun items arg => items.insert arg.1 (.var arg.2)) ∅, none⟩ :=
    Array.getElem?_push_size
  have hcurrent : ¬A.Hides s.scopes.size := by
    rintro ⟨v, hv, heq⟩
    exact Nat.ne_of_gt (h.lt_size_of_veil v hv) heq
  intro q hq
  change q ∈ (s.enter name p args).chain s.scopes.size at hq
  rw [chain, hnew] at hq
  simp only [List.mem_cons] at hq
  rcases hq with rfl | hq
  · exact hcurrent
  · split at hq
    · rename_i hlt
      have hchain : (s.enter name p args).chain p = s.chain p := by
        refine chain_congr fun r hr => ?_
        rw [scopes_enter (Nat.lt_of_le_of_lt hr hlt)]
      exact hp q (hchain ▸ hq)
    · cases hq

end Resembles

namespace Alike

variable (h : Alike A s s')
include h

/-- Sessions stay alike if they resemble each other after a move. -/
theorem of_move (hmove : Move s t) (ht : Resembles A t t') : Alike A t t' := by
  have he := evolves_of_move hmove
  refine ⟨ht, A.invariant.move h.holds hmove, ?_⟩
  rintro q hq ⟨v, hv, heq⟩
  obtain ⟨hvalid, -⟩ := A.veiled h.holds v hv
  rw [he.current, he.chain_eq hvalid.current] at hq
  exact h.visible q hq ⟨v, hv, heq⟩

/-- **A call ends alike on both sides.** -/
theorem leave {args : List (String × Quantity)} (he : Evolves (s.enter name p args) t)
    (ht : Alike A t t') : Alike A (t.leave s.frame) (t'.leave s'.frame) := by
  have hevaluates := evaluates_of_call he
  refine ⟨h.toResembles.leave (size_le_of_call he) ht.toResembles,
    A.invariant.leave h.holds he ht.holds, ?_⟩
  rw [hevaluates.current]
  intro q hq
  rw [hevaluates.chain_eq] at hq
  exact h.visible q hq

end Alike

/-! ## Binding names -/

/-- A name leads to the same scope on both sides, or it is refused on both. -/
theorem agree_scopeOf {item item' : Option Item} (heq : item' = item) (name : String)
    (hitem : ∀ {q : Nat}, item = some (.space q) → A.Visible s q) :
    Agree (fun q q' => q' = q ∧ A.Visible s q) (scopeOf name item) (scopeOf name item') :=
  .of_eq (congrArg (scopeOf name) heq) fun hq => ⟨rfl, hitem (scopeOf_eq_ok hq)⟩

namespace Alike

variable (h : Alike A s s')
include h

/-- So does a path of names. -/
theorem agree_foldlM (inner : List String) (hp : A.Visible s p) :
    Agree (fun q q' => q' = q ∧ A.Visible s q)
      (inner.foldlM (fun scope name => scopeOf name (s.item? scope name)) p)
      (inner.foldlM (fun scope name => scopeOf name (s'.item? scope name)) p) := by
  induction inner generalizing p with
  | nil => exact .ok ⟨rfl, hp⟩
  | cons name inner ih =>
    rw [List.foldlM_cons, List.foldlM_cons]
    refine .bind (agree_scopeOf (h.item?_eq (h.not_hides hp) name) name (hp.space h.holds)) ?_
    rintro q _ - ⟨rfl, hq⟩
    exact ih hq

/-- **Both sessions bind a path in the same scope**, which is before the veil. -/
theorem agree_target (path : String) :
    Agree (fun x x' => x' = x ∧ A.Visible s x.1) (s.target path) (s'.target path) := by
  rw [target, target]
  split
  · exact .ok ⟨by rw [h.current], h.visible⟩
  · rename_i first inner _
    refine .bind (agree_scopeOf (A := A) (s := s) (by rw [h.find?_eq]) first fun {q} hq => ?_) ?_
    · obtain ⟨⟨p, item⟩, hfind, heq⟩ := Option.map_eq_some_iff.1 hq
      obtain ⟨hp, hitem⟩ := visible_of_find? h.visible hfind
      exact hp.space h.holds (hitem.trans (congrArg some heq))
    · rintro p _ - ⟨rfl, hp⟩
      refine .bind (h.agree_foldlM inner hp) ?_
      rintro q _ - ⟨rfl, hq⟩
      exact .ok ⟨rfl, hq⟩

/-- In a scope that is not behind the veil, a name is bound or refused on both sides. -/
theorem agree_bind (hp : ¬A.Hides p) (name : String) (item : Item) :
    Agree (Resembles A) (s.afterBind p name item) (s'.afterBind p name item) := by
  rw [afterBind, afterBind, h.item?_eq hp]
  split
  · split
    · exact .ok (h.insert hp name item)
    · exact .error _
  · exact .ok (h.insert hp name item)

/-- The current scope is not behind the veil, so what is bound there is bound on both sides. -/
theorem agree_bind_current
    (hmove : ∀ {t : Session}, s.afterBind s.current name item = .ok t → Move s t) :
    Agree (Alike A) (s.afterBind s.current name item) (s'.afterBind s'.current name item) := by
  rw [h.current]
  exact (h.agree_bind h.not_hides_current name item).imp fun hok => h.of_move (hmove hok)

theorem agree_define (path : String) (value : Quantity) :
    Agree (Alike A) (s.afterDefine path value) (s'.afterDefine path value) := by
  refine (Agree.bind (h.agree_target path) ?_).imp fun hok => h.of_move (move_of_define hok)
  rintro ⟨p, name⟩ _ - ⟨rfl, hp⟩
  exact h.agree_bind (h.not_hides hp) name _

theorem agree_assign (path : String) (value : Quantity) :
    Agree (Alike A) (s.afterAssign path value) (s'.afterAssign path value) := by
  have hinsert {p : Nat} (hp : ¬A.Hides p)
      (hok : s.afterAssign path value = .ok (s.insert p path (.var value))) :
      Alike A (s.insert p path (.var value)) (s'.insert p path (.var value)) :=
    h.of_move (move_of_assign hok) (h.insert hp path _)
  have hassign := afterAssign.eq_def s path value
  rw [afterAssign, afterAssign]
  split
  · exact h.agree_define path value
  · rename_i hdotted
    rw [if_neg hdotted] at hassign
    rw [h.find?_eq]
    rcases hfind : s.find? path with _ | ⟨p, v | _ | _ | _ | _⟩
    · rw [hfind] at hassign
      rw [h.current]
      exact .ok (hinsert h.not_hides_current hassign)
    · rw [hfind] at hassign
      obtain ⟨hvisible, -⟩ := visible_of_find? h.visible hfind
      exact .ok (hinsert (h.not_hides hvisible) hassign)
    -- an item that is no variable is refused
    all_goals exact .error _

/-- Both sessions have the same system, so a unit gets the same number. -/
theorem agree_registerUnit (symbol : String) (value : Quantity) :
    Agree (fun x x' => x'.1 = x.1 ∧ Alike A x.2 x'.2) (s.afterRegisterUnit symbol value)
      (s'.afterRegisterUnit symbol value) := by
  refine Agree.imp (P := fun x x' => x'.1 = x.1 ∧ Resembles A x.2 x'.2) ?_ ?_
  · rw [afterRegisterUnit, afterRegisterUnit, h.system]
    split
    · exact .ok ⟨rfl, { h.toResembles with system := rfl }⟩
    · exact .error _
  · rintro ⟨id, t⟩ x' hok ⟨hid, ht⟩
    obtain ⟨d, hnew, -, -, rfl, hmove⟩ := registerUnit_eq_ok hok
    exact ⟨hid, h.of_move hmove ht⟩

/-- A namespace gets the same scope on both sides. -/
theorem agree_declareNamespace (path : String) :
    Agree (fun x x' => x'.1 = x.1 ∧ Alike A x.2 x'.2) (s.afterDeclareNamespace path)
      (s'.afterDeclareNamespace path) := by
  refine (Agree.bind (Q := fun x x' => x'.1 = x.1 ∧ Resembles A x.2 x'.2) (h.agree_target path)
    ?_).imp fun hok ⟨hid, ht⟩ => ⟨hid, h.of_move (move_of_declareNamespace hok) ht⟩
  rintro ⟨p, name⟩ _ - ⟨rfl, hp⟩
  rw [h.floor, h.size_eq]
  simp only
  split
  · exact .error _
  · refine .bind (h.agree_bind (h.not_hides hp) name _) fun _ ht => ?_
    exact .ok ⟨rfl, ht.pushScope _⟩

theorem agree_registerFunction (f : UserFunction) :
    Agree (Alike A) (s.afterRegisterFunction f) (s'.afterRegisterFunction f) := by
  refine Agree.imp (P := Resembles A) ?_ fun hok => h.of_move (move_of_registerFunction hok)
  have hcurrent := h.not_hides_current
  rw [afterRegisterFunction, afterRegisterFunction, h.current, h.item?_eq hcurrent]
  split
  · split
    · exact .ok (h.insert hcurrent _ _)
    · exact .error _
  · exact .ok (h.insert hcurrent _ _)

theorem agree_remove (path : String) :
    Agree (fun x x' => x'.1 = x.1 ∧ Alike A x.2 x'.2) (s.afterRemove path)
      (s'.afterRemove path) := by
  have hscope : Agree (fun p p' => p' = p ∧ A.Visible s p) (s.scopeToClear path)
      (s'.scopeToClear path) := by
    rw [scopeToClear, scopeToClear]
    split
    · refine Agree.bind (h.agree_target path) ?_
      rintro x _ - ⟨rfl, hp⟩
      exact .ok ⟨rfl, hp⟩
    · rw [h.find?_eq]
      match hfind : s.find? path with
      | none => exact .error _
      | some (p, item) => exact .ok ⟨rfl, (visible_of_find? h.visible hfind).1⟩
  refine (Agree.bind (Q := fun x x' => x'.1 = x.1 ∧ Resembles A x.2 x'.2) hscope ?_).imp
    fun hok ⟨hitem, ht⟩ => ⟨hitem, h.of_move (move_of_remove hok) ht⟩
  rintro p _ - ⟨rfl, hp⟩
  simp only [h.item?_eq (h.not_hides hp)]
  split
  · exact .error _
  · exact .error _
  · exact .ok ⟨rfl, h.modifyScope (h.not_hides hp) _⟩

/-! ## Declarations in progress -/

theorem setDraft (d? : Option Draft) : Resembles A (s.setDraft d?) (s'.setDraft d?) := by
  rw [Session.setDraft, Session.setDraft, h.current]
  exact h.modifyScope h.not_hides_current _

theorem cancelDraft : s'.cancelDraft.1 = s.cancelDraft.1 ∧
    Alike A s.cancelDraft.2 s'.cancelDraft.2 := by
  refine ⟨?_, h.of_move (move_of_cancelDraft s) (h.setDraft none)⟩
  rw [Session.cancelDraft, Session.cancelDraft, h.draft?_eq]

/-- A declaration goes on with the same draft on both sides. -/
theorem continueDeclaration (t : Text) :
    (s'.continueDeclaration t).1 = (s.continueDeclaration t).1 ∧
      Alike A (s.continueDeclaration t).2 (s'.continueDeclaration t).2 := by
  refine ⟨?_, h.of_move (move_of_continueDeclaration s t) ?_⟩
  · rw [Session.continueDeclaration, Session.continueDeclaration, h.draft?_eq]
  · simp only [Session.continueDeclaration, h.draft?_eq]
    exact h.setDraft _

end Alike

end QuantityCalc
