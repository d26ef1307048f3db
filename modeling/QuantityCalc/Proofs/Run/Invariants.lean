import QuantityCalc.Proofs.Run.Reachable

/-!
# Invariants of reachable sessions

An invariant that new sessions have, and that does not depend on the options and the files, holds of
every reachable session (`Invariant.of_reachable`). When a call ends, the session goes back to the
one around it, so the induction carries the invariant for all calls that are running.
-/

namespace QuantityCalc.Session

variable {I : Session → Prop} {s t : Session} {f : Frame} {fs : List Frame}

/-- The calls that are running began in sessions of an invariant, each in the course of the one
around it. -/
inductive Within (I : Session → Prop) : List Frame → Session → Prop where
  | base {s : Session} (hs : I s) : Within I [] s
  | call {fs : List Frame} {s t : Session} {name : String} {parent : Nat}
      {args : List (String × Quantity)} (h : Within I fs s) (hs : I s)
      (he : Evolves (s.enter name parent args) t) (ht : I t) : Within I (s.frame :: fs) t

theorem Within.holds (h : Within I fs s) : I s := by
  cases h with
  | base hs => exact hs
  | call _ _ _ ht => exact ht

theorem Within.evolves (h : Within I fs s) (he : Evolves s t) (ht : I t) : Within I fs t := by
  cases h with
  | base => exact .base ht
  | call h hs he' _ => exact .call h hs (he'.trans he) ht

theorem Within.leave (hI : Invariant I) (h : Within I (f :: fs) t) :
    Within I fs (t.leave f) := by
  cases h with
  | call h hs he ht => exact h.evolves (evaluates_of_call he).toEvolves (hI.leave hs he ht)

/-- **Invariants hold of every reachable session.** -/
theorem Invariant.of_reachable (hI : Invariant I)
    (hstart : ∀ (options : Options) (files : Files), I (start options files))
    (hconfigure : ∀ {s : Session} (options : Options) (files : Files), I s →
      I { s with options := options, files := files }) (h : Reachable fs s) : I s := by
  suffices h : Within I fs s from h.holds
  induction h with
  | start options files => exact .base (hstart options files)
  | configure _ options files ih =>
    cases ih with
    | base hs => exact .base (hconfigure options files hs)
  | step _ ht ih =>
    obtain ⟨he, hI⟩ := evolves_of_step hI ih.holds ht
    exact ih.evolves he hI
  | enter _ hcaller hlt args ih =>
    exact .call ih ih.holds (.refl _) (hI.enter ih.holds hcaller hlt)
  | leave _ ih => exact ih.leave hI

end QuantityCalc.Session
