import Mathlib.Data.List.Induction
import QuantityCalc.Proofs.Expression.Words

/-!
# Sentences

The words of complete expressions are the sentences of a grammar (`Derives`):

    expression = term | expression binary-operator term
    term       = ("+" | "-" | "!") term | operand | "(" expression ")"

A `Slot` is what has to be known of words to tell which word may follow: how many parentheses are
open, and whether an operand has just been completed. A sentence leads from the empty slot to the
filled slot outside of all parentheses, and nothing else does (`sentence_iff`). Words that lead to
any slot begin a sentence, and a plain operand and closing parentheses are enough to complete it
(`exists_plain_of_follow?`).
-/

namespace QuantityCalc

namespace Expression

variable {s : Session}

/-- What words can be derived from. -/
inductive Phrase where
  | expression
  | term

/-- The words that the grammar derives. -/
inductive Derives : Phrase → List (Word s) → Prop where
  | term {ws : List (Word s)} (h : Derives .term ws) : Derives .expression ws
  | binary {op : Operator} {ws ws' : List (Word s)} (spelled : op ∈ Operator.spelled)
      (hop : op ≠ .not) (hl : Derives .expression ws) (hr : Derives .term ws') :
      Derives .expression (ws ++ .operator op spelled :: ws')
  | sign {op : Operator} {ws : List (Word s)} (spelled : op ∈ Operator.spelled)
      (hop : op ∈ [.add, .sub, .not]) (h : Derives .term ws) :
      Derives .term (.operator op spelled :: ws)
  | operand (o : Operand s) : Derives .term [.operand o]
  | group {ws : List (Word s)} (h : Derives .expression ws) :
      Derives .term (.parenOpen :: ws ++ [.parenClose])

/-- The words of a complete expression. -/
def Sentence (ws : List (Word s)) : Prop := Derives .expression ws

/-! ## Slots -/

/-- The place behind words: the number of parentheses that are open, and whether an operand has just
been completed. -/
structure Slot where
  depth : Nat
  filled : Bool
deriving DecidableEq

namespace Slot

/-- The place in front of an expression. -/
def empty : Slot := ⟨0, false⟩

/-- The place behind a complete expression. -/
def full : Slot := ⟨0, true⟩

/-- The place behind a word, if it may stand here. -/
def behind? (p : Slot) : Word s → Option Slot
  | .operand _ => if p.filled then none else some ⟨p.depth, true⟩
  | .operator op _ =>
    if p.filled then if op = .not then none else some ⟨p.depth, false⟩
    else if op ∈ [.add, .sub, .not] then some p else none
  | .parenOpen => if p.filled then none else some ⟨p.depth + 1, false⟩
  | .parenClose => if p.filled ∧ 0 < p.depth then some ⟨p.depth - 1, true⟩ else none

/-- The place behind words, if each of them may stand where it does. -/
def follow? (p : Slot) (ws : List (Word s)) : Option Slot := ws.foldlM behind? p

variable {p p' : Slot} {w : Word s} {ws ws' : List (Word s)} {d : Nat}

@[simp] theorem follow?_nil (p : Slot) : follow? p ([] : List (Word s)) = some p := rfl

@[simp] theorem follow?_cons (p : Slot) (w : Word s) (ws : List (Word s)) :
    follow? p (w :: ws) = (behind? p w).bind (follow? · ws) := rfl

@[simp] theorem follow?_append (p : Slot) (ws ws' : List (Word s)) :
    follow? p (ws ++ ws') = (follow? p ws).bind (follow? · ws') :=
  List.foldlM_append

end Slot

/-! ## From derivations to slots -/

variable {ws ws' : List (Word s)}

/-- **Derived words fill a slot**, at any depth. -/
theorem follow?_of_derives {phrase : Phrase} (h : Derives phrase ws) (d : Nat) :
    Slot.follow? ⟨d, false⟩ ws = some ⟨d, true⟩ := by
  induction h generalizing d with
  | term _ ih => exact ih d
  | @binary op ws ws' spelled hop _ _ ihl ihr =>
    have hbehind : Slot.behind? ⟨d, true⟩ (.operator op spelled : Word s) = some ⟨d, false⟩ := by
      simp [Slot.behind?, hop]
    simp [ihl d, hbehind, ihr d]
  | @sign op ws spelled hop _ ih =>
    have hbehind : Slot.behind? ⟨d, false⟩ (.operator op spelled : Word s) = some ⟨d, false⟩ :=
      if_pos hop
    simp [hbehind, ih d]
  | operand o => rfl
  | group _ ih =>
    have hopen : Slot.behind? ⟨d, false⟩ (.parenOpen : Word s) = some ⟨d + 1, false⟩ := rfl
    have hclose : Slot.behind? ⟨d + 1, true⟩ (.parenClose : Word s) = some ⟨d, true⟩ := by
      simp [Slot.behind?]
    simp [hopen, ih (d + 1), hclose]

/-! ## From slots to derivations -/

/-- Words end with an expression behind so many open parentheses, and in front of the innermost one
a term is awaited. -/
def Fills : (depth : Nat) → List (Word s) → Prop
  | 0, ws => Sentence ws
  | depth + 1, ws => ∃ us es, ws = us ++ .parenOpen :: es ∧ Derives .expression es ∧
      ∀ ts, Derives .term ts → Fills depth (us ++ ts)

/-- Behind the words a term is awaited. -/
def Awaits (depth : Nat) (us : List (Word s)) : Prop :=
  ∀ ts, Derives .term ts → Fills depth (us ++ ts)

variable {us : List (Word s)} {op : Operator} {d : Nat}

theorem awaits_nil : Awaits 0 ([] : List (Word s)) := by
  intro ts hts
  exact .term hts

theorem Awaits.operand (h : Awaits d us) (o : Operand s) : Fills d (us ++ [.operand o]) :=
  h _ (.operand o)

theorem Awaits.sign (h : Awaits d us) (spelled : op ∈ Operator.spelled)
    (hop : op ∈ [.add, .sub, .not]) : Awaits d (us ++ [.operator op spelled]) := by
  intro ts hts
  have hsigned := h _ (.sign spelled hop hts)
  rwa [List.append_assoc]

theorem Awaits.parenOpen (h : Awaits d us) : Awaits (d + 1) (us ++ [.parenOpen]) := by
  intro ts hts
  exact ⟨us, ts, by rw [List.append_assoc]; rfl, .term hts, h⟩

theorem Fills.binary (h : Fills d ws) (spelled : op ∈ Operator.spelled) (hop : op ≠ .not) :
    Awaits d (ws ++ [.operator op spelled]) := by
  intro ts hts
  rw [List.append_assoc]
  cases d with
  | zero => exact .binary spelled hop h hts
  | succ d =>
    obtain ⟨us, es, rfl, hes, hus⟩ := h
    exact ⟨us, es ++ .operator op spelled :: ts, by simp, .binary spelled hop hes hts, hus⟩

theorem Fills.parenClose (h : Fills (d + 1) ws) : Fills d (ws ++ [.parenClose]) := by
  obtain ⟨us, es, rfl, hes, hus⟩ := h
  have hgroup := hus _ (.group hes)
  rwa [List.append_assoc]

/-- **Words that lead to a slot** end with an expression there, or a term is awaited behind them. -/
theorem fills_of_follow? {p : Slot} (h : Slot.empty.follow? ws = some p) :
    if p.filled then Fills p.depth ws else Awaits p.depth ws := by
  -- from the right: the last word is put into the slot behind the others
  induction ws using List.reverseRecOn generalizing p with
  | nil =>
    cases h
    exact awaits_nil
  | append_singleton ws w ih =>
    rw [Slot.follow?_append] at h
    obtain ⟨⟨d, filled⟩, hws, hw⟩ := Option.bind_eq_some_iff.1 h
    replace hw : Slot.behind? ⟨d, filled⟩ w = some p := by simpa using hw
    have hstage := ih hws
    cases filled with
    | true =>
      replace hstage : Fills d ws := hstage
      cases w with
      | operand o => cases hw
      | parenOpen => cases hw
      | operator op spelled =>
        obtain ⟨hop, rfl⟩ : op ≠ .not ∧ ⟨d, false⟩ = p := by simpa [Slot.behind?] using hw
        exact hstage.binary spelled hop
      | parenClose =>
        obtain ⟨hd, rfl⟩ : 0 < d ∧ ⟨d - 1, true⟩ = p := by simpa [Slot.behind?] using hw
        obtain ⟨d, rfl⟩ := Nat.exists_eq_add_of_lt hd
        exact Fills.parenClose (by simpa using hstage)
    | false =>
      replace hstage : Awaits d ws := hstage
      cases w with
      | operand o =>
        cases hw
        exact hstage.operand o
      | parenOpen =>
        cases hw
        exact hstage.parenOpen
      | operator op spelled =>
        obtain ⟨hop, rfl⟩ : op ∈ [.add, .sub, .not] ∧ ⟨d, false⟩ = p := by
          simpa [Slot.behind?] using hw
        exact hstage.sign spelled hop
      | parenClose => simp [Slot.behind?] at hw

/-- **The sentences are what leads from the empty slot to the full one.** -/
theorem sentence_iff : Sentence ws ↔ Slot.empty.follow? ws = some .full := by
  constructor
  · intro h
    exact follow?_of_derives h 0
  · intro h
    exact fills_of_follow? h

/-! ## Beginnings of sentences -/

/-- Whether no unit follows a word. -/
def Word.IsPlain : Word s → Prop
  | .operand o => o.suffix? = none
  | _ => True

/-- The words that complete an expression behind a slot. -/
def Slot.completion (p : Slot) : List (Word s) :=
  (if p.filled then [] else [.operand one]) ++ .replicate p.depth .parenClose
where
  /-- An operand without a unit. -/
  one : Operand s := .ofDigits ['1'] none (by simp) (List.forall_mem_singleton.2 rfl)

theorem Slot.isPlain_of_mem_completion (p : Slot) :
    ∀ w ∈ (p.completion : List (Word s)), w.IsPlain := by
  intro w hw
  rcases List.mem_append.1 hw with hw | hw
  · split at hw
    · cases hw
    · rw [List.mem_singleton.1 hw]
      rfl
  · rw [List.eq_of_mem_replicate hw]
    trivial

theorem Slot.follow?_replicate (d : Nat) :
    follow? ⟨d, true⟩ (.replicate d .parenClose : List (Word s)) = some full := by
  induction d with
  | zero => rfl
  | succ d ih =>
    have hclose : behind? ⟨d + 1, true⟩ (.parenClose : Word s) = some ⟨d, true⟩ := by
      simp [behind?]
    rw [List.replicate_succ, follow?_cons, hclose]
    exact ih

theorem Slot.follow?_completion (p : Slot) :
    p.follow? (p.completion : List (Word s)) = some full := by
  obtain ⟨d, filled⟩ := p
  cases filled with
  | true => exact follow?_replicate d
  | false =>
    rw [completion, follow?_append]
    exact follow?_replicate d

/-- **The words that a sentence begins with lead to a slot.** -/
theorem exists_follow?_of_sentence (h : Sentence (ws ++ ws')) :
    ∃ p, Slot.empty.follow? ws = some p := by
  have hfull := sentence_iff.1 h
  rw [Slot.follow?_append] at hfull
  obtain ⟨p, hp, -⟩ := Option.bind_eq_some_iff.1 hfull
  exact ⟨p, hp⟩

/-- **Words that lead to a slot begin a sentence**, and plain words complete it. -/
theorem exists_plain_of_follow? {p : Slot} (h : Slot.empty.follow? ws = some p) :
    ∃ ws', (∀ w ∈ ws', w.IsPlain) ∧ Sentence (ws ++ ws') := by
  refine ⟨p.completion, p.isPlain_of_mem_completion, sentence_iff.2 ?_⟩
  rw [Slot.follow?_append, h]
  exact p.follow?_completion

end Expression

end QuantityCalc
