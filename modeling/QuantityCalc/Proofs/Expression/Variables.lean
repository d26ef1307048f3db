import QuantityCalc.Proofs.Expression.Typed
import QuantityCalc.Proofs.Run.Invariants
import QuantityCalc.Proofs.Session.Paths
import QuantityCalc.Proofs.Text.Run
import QuantityCalc.Proofs.Trailer.Text

/-!
# Variables that are written and read

Writing a variable looks its path up by scopes, reading an expression looks it up name by name. Both
lead to the same item (`Session.valueOf?_of_binds`, `Session.binds_of_valueOf?`). So an expression
that is the path of a variable has the value that was written last, and all other variables keep
their values, apart from those that a new variable hides because their paths go on from its own
(`Session.reads_written`).
-/

namespace QuantityCalc

open Text

variable {s t : Session} {p q : Nat} {item : Item} {path : List String} {v : Quantity}

namespace Session

/-- The value of the variable that a whole text names. -/
def valueOf? (s : Session) (t : Text) : Option Quantity :=
  match Name.scan? t with
  | none => none
  | some (word, rest) =>
    let r := s.resolve (String.ofList word) rest
    match r.rest, r.meaning? with
    | [], some ⟨.var, home⟩ => s.valueAt? home r.last
    | _, _ => none

/-- Whether names can be the segments of a path. -/
def AreNames (path : List String) : Prop :=
  ∀ name ∈ path, Name.scan? name.toList = some (name.toList, [])

/-- The text of segments behind a first one. -/
def behindFirst (path : List String) : Text := path.flatMap fun name => '.' :: name.toList

theorem toList_intercalate_cons (first : String) (more : List String) :
    (".".intercalate (first :: more)).toList = first.toList ++ behindFirst more := by
  induction more generalizing first with
  | nil => simp [behindFirst]
  | cons second more ih =>
    rw [String.intercalate_cons_cons, String.toList_append, ih]
    simp [behindFirst]

theorem notMem_of_areNames (h : AreNames path) : ∀ name ∈ path, '.' ∉ name.toList := by
  intro name hname hdot
  have hscan := h name hname
  match hlist : name.toList with
  | [] =>
    rw [hlist] at hdot
    cases hdot
  | x :: word =>
    rw [hlist] at hscan hdot
    simp only [Name.scan?, Option.ite_none_right_eq_some, Option.some.injEq, Prod.mk.injEq] at hscan
    obtain ⟨hstart, -, hword⟩ := hscan
    rcases List.mem_cons.1 hdot with rfl | hdot
    · exact absurd hstart (by decide)
    · exact absurd (List.dropWhile_eq_nil_iff.1 hword _ hdot) (by decide)

theorem areNames_cons_of_scan? {t word rest : Text} (h : Name.scan? t = some (word, rest))
    (hpath : AreNames path) : AreNames (String.ofList word :: path) := by
  rintro name (_ | ⟨_, hname⟩)
  · rw [String.toList_ofList]
    exact Name.scan?_self h
  · exact hpath name hname

/-- The text of a path that goes on from another one. -/
theorem toList_intercalate_of_prefix {path' : List String} (hne : path ≠ []) (h : path <+: path') :
    (".".intercalate path').toList = (".".intercalate path).toList ∨
      (".".intercalate path).toList ++ ['.'] <+: (".".intercalate path').toList := by
  obtain ⟨first, more, rfl⟩ := List.exists_cons_of_ne_nil hne
  obtain ⟨others, rfl⟩ := h
  rw [List.cons_append, toList_intercalate_cons, toList_intercalate_cons]
  cases others with
  | nil => simp
  | cons next others =>
    right
    exact ⟨next.toList ++ behindFirst others, by simp [behindFirst]⟩

theorem apart_of_reachable {fs : List Frame} (h : Reachable fs s) : Valid s ∧ Apart s := by
  refine invariant_apart.of_reachable (fun options files => ?_) (fun options files hs => ?_) h
  · exact ⟨valid_start options files, apart_start options files⟩
  · exact ⟨valid_of_scopes_eq hs.1 rfl rfl hs.1.current, apart_of_scopes_eq hs.2 rfl rfl⟩

/-! ## Following names -/

theorem scan?_append_of_head? {t word rest u : Text} (h : Name.scan? t = some (word, rest))
    (hu : ∀ x ∈ u.head?, Name.isChar x = false) :
    Name.scan? (t ++ u) = some (word, rest ++ u) := by
  have hrest : ∀ x ∈ rest.head?, Name.isChar x = false := by
    match t with
    | c :: t =>
      simp only [Name.scan?, Option.ite_none_right_eq_some, Option.some.injEq,
        Prod.mk.injEq] at h
      obtain ⟨-, -, rfl⟩ := h
      exact Text.head?_dropWhile Name.isChar t
  obtain ⟨rfl, -⟩ := Name.eq_append_of_scan? h
  rw [List.append_assoc]
  refine Name.scan?_front (Name.scan?_self h) fun x hx => ?_
  cases rest with
  | nil => exact hu x hx
  | cons y rest => exact hrest x hx

theorem follow_nil (s : Session) (text last : String) (m? : Option Meaning) :
    s.follow text last m? [] = ⟨text, last, m?, []⟩ :=
  follow_eq_self nofun

/-- What follows a name that is read to its end is followed from there. -/
theorem follow_append_of_rest {text last : String} {m? : Option Meaning} {t u : Text}
    (hu : ∀ x ∈ u.head?, Name.isChar x = false) (h : (s.follow text last m? t).rest = []) :
    s.follow text last m? (t ++ u) = s.follow (s.follow text last m? t).path
      (s.follow text last m? t).last (s.follow text last m? t).meaning? u := by
  fun_induction Session.follow s text last m? t with
  | case1 text last t' m hm word rest hscan _ segment ih =>
    rw [List.cons_append, follow_of_scan? hm (scan?_append_of_head? hscan hu)]
    exact ih h
  | case2 => cases h
  | case3 => cases h
  | case4 text last t m? hne =>
    cases h
    rfl

theorem resolve_of_binds (hnames : AreNames path) (h : Binds s path p item) :
    ∃ first more, path = first :: more ∧ (s.resolve first (behindFirst more)).rest = [] ∧
      (s.resolve first (behindFirst more)).meaning? = some (.ofItem p item) ∧
      path.getLast? = some (s.resolve first (behindFirst more)).last := by
  induction h with
  | @first name p item h =>
    have hmeaning : s.meaning? name = some (.ofItem p item) := by simp [meaning?, h]
    have hself : s.resolve name [] = ⟨name, name, some (.ofItem p item), []⟩ := by
      rw [resolve, hmeaning, follow_nil]
    exact ⟨name, [], rfl, by simp [behindFirst, hself], by simp [behindFirst, hself],
      by simp [behindFirst, hself]⟩
  | @inner path p id name item h hitem ih =>
    obtain ⟨first, more, rfl, hrest, hmeaning, -⟩ :=
      ih fun n hn => hnames n (List.mem_append_left _ hn)
    have hname := hnames name (List.mem_append_right _ List.mem_cons_self)
    have hinner : s.meaningIn? (.scope id) name = some (.ofItem id item) := by
      simp [meaningIn?, hitem]
    have htext : behindFirst (more ++ [name]) = behindFirst more ++ '.' :: name.toList := by
      simp [behindFirst]
    have hfollow := follow_append_of_rest (u := '.' :: name.toList) (by rintro x ⟨⟩; decide) hrest
    change s.resolve first _ = s.follow (s.resolve first _).path (s.resolve first _).last
      (s.resolve first (behindFirst more)).meaning? _ at hfollow
    rw [hmeaning, follow_of_scan? rfl hname, follow_nil, String.ofList_toList] at hfollow
    refine ⟨first, more ++ [name], rfl, ?_, ?_, ?_⟩ <;> rw [htext, hfollow]
    · exact hinner
    · exact List.getLast?_concat

/-- **The variable that a path is bound to is the one that the path names.** -/
theorem valueOf?_of_binds (hnames : AreNames path) (h : Binds s path p (.var v)) :
    s.valueOf? (".".intercalate path).toList = some v := by
  have hitem := h.item?
  obtain ⟨first, more, rfl, hrest, hmeaning, hlast⟩ := resolve_of_binds hnames h
  have hfirst := hnames first List.mem_cons_self
  have hhead : ∀ x ∈ (behindFirst more).head?, Name.isChar x = false := by
    cases more with
    | nil => nofun
    | cons second more =>
      rintro x ⟨⟩
      decide
  rw [toList_intercalate_cons, valueOf?, Name.scan?_front hfirst hhead]
  simp only [String.ofList_toList, hrest, hmeaning]
  obtain ⟨name, hname, hitem⟩ := hitem
  rw [hlast] at hname
  cases hname
  simp [Meaning.ofItem, Item.kind, valueAt?, itemAt?, hitem]

theorem follow_of_not_container {text last : String} (t : Text) (m? : Option Meaning)
    (h : ∀ m ∈ m?, m.isContainer = false) : s.follow text last m? t = ⟨text, last, m?, t⟩ :=
  follow_eq_self fun _ m _ hm hcontainer => by
    rw [h m hm] at hcontainer
    cases hcontainer

/-- Only a variable of a scope has the meaning of a variable. -/
theorem eq_var_of_ofItem {home : Home} (h : Meaning.ofItem p item = ⟨.var, home⟩) :
    (∃ v, item = .var v) ∧ home = .scope p := by
  cases item <;> cases h
  exact ⟨⟨_, rfl⟩, rfl⟩

/-- The scope of units binds no variables. -/
theorem meaning?_follow_system_ne_var (text last name : String) (t : Text) (home : Home) :
    (s.follow text last (s.meaningIn? .system name) t).meaning? ≠ some ⟨.var, home⟩ := by
  have hunit : ∀ m ∈ s.meaningIn? .system name, m = ⟨.unit, .system⟩ := by
    intro m hm
    simp only [meaningIn?, Option.mem_def, Option.ite_none_right_eq_some,
      Option.some.injEq] at hm
    exact hm.2.symm
  rw [follow_of_not_container t _ fun m hm => by rw [hunit m hm]; rfl]
  intro hmeaning
  cases hunit _ hmeaning

theorem binds_of_follow {text last : String} {m? : Option Meaning} {t : Text} {home : Home}
    (h : Binds s path p item) (hm : m? = some (.ofItem p item)) (hlast : path.getLast? = some last)
    (hrest : (s.follow text last m? t).rest = [])
    (hmeaning : (s.follow text last m? t).meaning? = some ⟨.var, home⟩)
    (hvalue : s.valueAt? home (s.follow text last m? t).last = some v) :
    ∃ more q, t = behindFirst more ∧ AreNames more ∧ Binds s (path ++ more) q (.var v) := by
  -- from segment to segment, the path so far is bound to the item that is followed
  fun_induction Session.follow s text last m? t generalizing path p item with
  | case1 text last t m hcontainer word rest hscan _ segment =>
    rename_i ih
    cases hm
    cases item with
    | space id =>
      change (s.follow _ _ (s.meaningIn? (.scope id) segment) rest).rest = [] at hrest
      change (s.follow _ _ (s.meaningIn? (.scope id) segment) rest).meaning? = _ at hmeaning
      have hinner : s.meaningIn? (.scope id) segment = (s.item? id segment).map (.ofItem id) := rfl
      cases hitem : s.item? id segment with
      | none =>
        rw [hitem, Option.map_none] at hinner
        rw [hinner, follow_of_not_container rest none (by simp)] at hmeaning
        cases hmeaning
      | some item =>
        rw [hitem, Option.map_some] at hinner
        obtain ⟨more, q, hmore, hnames, hbinds⟩ :=
          ih (h.inner hitem) hinner List.getLast?_concat hrest hmeaning hvalue
        obtain ⟨rfl, -⟩ := Name.eq_append_of_scan? hscan
        exact ⟨segment :: more, q, by simp [behindFirst, hmore, segment],
          areNames_cons_of_scan? hscan hnames, by simpa using hbinds⟩
    | unitSystem => exact absurd hmeaning (meaning?_follow_system_ne_var _ _ segment rest home)
    | _ => cases hcontainer
  | case2 => cases hrest
  | case3 => cases hrest
  | case4 text last t m? hne =>
    subst hm
    cases hrest
    obtain ⟨⟨v', rfl⟩, rfl⟩ := eq_var_of_ofItem (Option.some.inj hmeaning)
    obtain ⟨name, hname, hitem⟩ := h.item?
    rw [hlast] at hname
    cases hname
    have hv : v' = v := by simpa [valueAt?, itemAt?, hitem] using hvalue
    exact ⟨[], p, rfl, List.forall_mem_nil _, by simpa [hv] using h⟩

/-- A name that no scope binds is no variable. -/
theorem exists_of_meaning?_resolve {name : String} {t : Text} {home : Home}
    (h : (s.resolve name t).meaning? = some ⟨.var, home⟩) :
    ∃ p item, s.find? name = some (p, item) := by
  cases hfind : s.find? name with
  | some found => exact ⟨_, _, rfl⟩
  | none =>
    have hkind : ∀ m ∈ s.meaning? name, m.isContainer = false ∧ m.kind ≠ .var := by
      intro m hm
      unfold meaning? at hm
      rw [hfind] at hm
      dsimp only at hm
      split at hm
      · cases hm
        decide
      · split at hm <;> cases hm
        decide
    rw [resolve, follow_of_not_container t _ fun m hm => (hkind m hm).1] at h
    exact absurd rfl (hkind _ h).2

/-- **A text that names a variable is a path** that is bound to it. -/
theorem binds_of_valueOf? {t : Text} (h : s.valueOf? t = some v) :
    ∃ path p, path ≠ [] ∧ AreNames path ∧ t = (".".intercalate path).toList ∧
      Binds s path p (.var v) := by
  unfold valueOf? at h
  split at h
  · cases h
  · rename_i word rest hscan
    dsimp only at h
    split at h
    · rename_i home hrest hmeaning
      obtain ⟨p, item, hfind⟩ := exists_of_meaning?_resolve hmeaning
      have hfirst : s.meaning? (String.ofList word) = some (.ofItem p item) := by
        simp [meaning?, hfind]
      obtain ⟨more, q, rfl, hnames, hbinds⟩ :=
        binds_of_follow (.first hfind) hfirst rfl hrest hmeaning h
      obtain ⟨rfl, -⟩ := Name.eq_append_of_scan? hscan
      exact ⟨String.ofList word :: more, q, List.cons_ne_nil _ _,
        areNames_cons_of_scan? hscan hnames,
        by rw [toList_intercalate_cons, String.toList_ofList], hbinds⟩
    · cases h

/-! ## Reading variables -/

theorem exists_of_valueOf? {t : Text} (h : s.valueOf? t = some v) :
    ∃ word rest home, Name.scan? t = some (word, rest) ∧
      (s.resolve (String.ofList word) rest).rest = [] ∧
      (s.resolve (String.ofList word) rest).meaning? = some ⟨.var, home⟩ ∧
      s.valueAt? home (s.resolve (String.ofList word) rest).last = some v := by
  unfold valueOf? at h
  split at h
  · cases h
  · rename_i word rest hscan
    dsimp only at h
    split at h
    · rename_i home hrest hmeaning
      exact ⟨word, rest, home, hscan, hrest, hmeaning, h⟩
    · cases h

theorem endsAt_of_isStart {x : Char} (h : Name.isStart x = true) (u : Text) :
    Expression.endsAt (x :: u) = false := by
  have hnot : ∀ y ∈ ['/', ',', '[', ']', ';', '{', '}'], Name.isStart y = false :=
    forall_mem_of_all (by decide)
  refine Expression.endsAt_cons (fun hmem => ?_) u
  rw [hnot x hmem] at h
  cases h

/-- The name of a variable is read as its value. -/
theorem step_of_valueOf? {t : Text} (context : ReadingContext) (h : s.valueOf? t = some v) :
    ∃ d, d.rest = [] ∧ (Expression.step context {}).outcome (.start t) s =
      .ok ((.ok (.more [.ok (.operand v)] (Yard.operand {})), d), s) := by
  obtain ⟨word, rest, home, hscan, hrest, hmeaning, hvalue⟩ := exists_of_valueOf? h
  obtain ⟨x, u, rfl⟩ := List.exists_cons_of_ne_nil (show t ≠ [] by rintro rfl; cases hscan)
  have hstart := Name.isStart_of_scan? hscan x rfl
  have hblank : trimStart (x :: u) = x :: u :=
    trimStart_of_head? fun y hy => Name.isBlank_of_isStart (Name.isStart_of_scan? hscan y hy)
  have hclose : ¬((x :: u).head? = some ')' ∧ Yard.depth {} = 0) := by
    rintro ⟨hx, -⟩
    cases hx
    exact absurd hstart (by decide)
  refine ⟨((Cursor.start (x :: u)).skipBlanks.moveTo rest).moveTo [], rfl, ?_⟩
  rw [Expression.step_eq_word context hblank (endsAt_of_isStart hstart u) hclose
    (Lexeme.scan?_eq_name_iff.2 hscan)]
  have hcheck : Yard.checkOperand {} = .ok () := rfl
  simp only [Expression.word, Expression.operand, Reading.named, hcheck, Reading.outcome_bind,
    Reading.outcome_check, Except.mapError_ok, Reading.outcome_get, Reading.outcome_session,
    Reading.outcome_set, Cursor.rest_moveTo, hrest, hmeaning, hvalue, Reading.outcome_pure]

/-- **A text that names a variable is read to its end and has its value.** -/
theorem outcome_readExpression {t : Text} (h : s.valueOf? t = some v) (budget : Nat) :
    (readExpression budget t).outcome s = .ok (⟨.ok v, []⟩, s) := by
  let context : ReadingContext := ⟨activation budget,
    Expression.arguments (activation budget) s.options.maxNesting, false⟩
  have htop : (Expression.topLevel (activation budget)).outcome s = .ok (context, s) := rfl
  obtain ⟨d, hd, hstep⟩ := step_of_valueOf? context h
  have hne : t ≠ [] := by
    rintro rfl
    cases h
  have hlt : d.rest.length < (Cursor.start t).rest.length := by
    rw [hd]
    exact List.length_pos_iff.2 hne
  have hend := Expression.step_of_end (y := Yard.operand {}) (s := s) context
    (c := d) (by rw [hd]; rfl)
  have hfeed : (Expression.feed context Postfix.run [] {} (.start t)).outcome s =
      .ok (⟨.ok [v], d.skipBlanks⟩, s) := by
    rw [Expression.feed]
    simp only [Run.outcome_bind, Run.outcome_reading, hstep, Postfix.run, hlt, if_true]
    rw [Expression.feed]
    simp only [Run.outcome_bind, Run.outcome_reading, hend]
    rfl
  have hrest : d.skipBlanks.rest = [] := by
    rw [Cursor.rest_skipBlanks, hd]
    rfl
  rw [readExpression, Run.outcome_bind, htop, ← hrest]
  exact Expression.outcome_value hfeed

variable {fs : List Frame} {s' : Session}

/-- **What is written is read.** After a variable is defined or assigned at a path, in any reachable
session, also within calls, an expression that is the path has the value that was written, and the
whole text of it is read. All other paths that named variables before name them still, with the
values that they had, unless they go on from the path that was written. -/
theorem reads_written (h : Reachable fs s) (hne : path ≠ []) (hnames : AreNames path)
    {value : Quantity}
    (hwrite : (define (".".intercalate path) value).outcome s = .ok (.ok (), s') ∨
      (assign (".".intercalate path) value).outcome s = .ok (.ok (), s')) :
    (∀ budget, (readExpression budget (".".intercalate path).toList).outcome s' =
      .ok (⟨.ok value, []⟩, s')) ∧
    ∀ (other : Text) (v : Quantity), s.valueOf? other = some v →
      other ≠ (".".intercalate path).toList → ¬(".".intercalate path).toList ++ ['.'] <+: other →
      s'.valueOf? other = some v ∧
        ∀ budget, (readExpression budget other).outcome s = .ok (⟨.ok v, []⟩, s) ∧
          (readExpression budget other).outcome s' = .ok (⟨.ok v, []⟩, s') := by
  obtain ⟨hs, ha⟩ := apart_of_reachable h
  obtain ⟨p, name, rfl, hreceives, hbinds⟩ :=
    binds_of_written hs ha hne (notMem_of_areNames hnames)
      (hwrite.imp (outcome_define_eq_ok ..).1 (outcome_assign_eq_ok ..).1)
  refine ⟨outcome_readExpression (valueOf?_of_binds hnames hbinds), ?_⟩
  intro other v hother hdiffers hbehind
  obtain ⟨path', q, -, hnames', rfl, hbinds'⟩ := binds_of_valueOf? hother
  have hprefix : ¬path <+: path' := by
    intro hprefix
    rcases toList_intercalate_of_prefix hne hprefix with heq | hle
    · exact hdiffers heq
    · exact hbehind hle
  have hafter : (s.insert p name (.var value)).valueOf? (".".intercalate path').toList = some v :=
    valueOf?_of_binds hnames' (hbinds'.insert hs ha hreceives hprefix)
  exact ⟨hafter, fun budget => ⟨outcome_readExpression hother budget,
    outcome_readExpression hafter budget⟩⟩

/-- A variable in a namespace is written and read, beside one of the same name around it. -/
theorem reads_written_sample : ∃ s s', Reachable [] s ∧
    (define "a.b" (.plain 5)).outcome s = .ok (.ok (), s') ∧
    (readExpression 0 "a.b".toList).outcome s' = .ok (⟨.ok (.plain 5), []⟩, s') ∧
    (readExpression 0 "b".toList).outcome s' = .ok (⟨.ok (.plain 2), []⟩, s') := by
  have hok : (do
      let (_, s₁) ← (start {} .unknown).afterDeclareNamespace "a"
      let s₂ ← s₁.afterDefine "b" (.plain 2)
      s₂.afterDefine "a.b" (.plain 5)).isOk = true := by decide +kernel
  obtain ⟨s', hwhole⟩ := Except.exists_of_isOk hok
  obtain ⟨⟨id, s₁⟩, hspace, hwhole⟩ := Except.bind_eq_ok.1 hwhole
  obtain ⟨s₂, hother, hwhole⟩ := Except.bind_eq_ok.1 hwhole
  have hwrite := (outcome_define_eq_ok ..).2 hwhole
  have h₁ : Reachable [] s₁ :=
    (Reachable.start {} .unknown).step (.space "a" ((outcome_declareNamespace_eq_ok ..).2 hspace))
  have h₂ : Reachable [] s₂ := h₁.step (.define "b" _ ((outcome_define_eq_ok ..).2 hother))
  have hvalue : s₂.valueOf? "b".toList = some (.plain 2) := by
    obtain ⟨hs, ha⟩ := apart_of_reachable h₁
    obtain ⟨p, name, -, -, hbinds⟩ :=
      binds_of_written hs ha (List.cons_ne_nil "b" []) (by decide) (.inl hother)
    exact valueOf?_of_binds (by unfold AreNames; decide) hbinds
  obtain ⟨hread, hothers⟩ := reads_written h₂ (List.cons_ne_nil "a" ["b"])
    (by unfold AreNames; decide) (.inl hwrite)
  obtain ⟨-, hrest⟩ := hothers _ _ hvalue (by decide) (by decide)
  exact ⟨s₂, s', h₂, hwrite, hread 0, (hrest 0).2⟩

end Session

end QuantityCalc
