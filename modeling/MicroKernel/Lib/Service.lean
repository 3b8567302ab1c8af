import MicroKernel.Lib.Run

/-!
# Services and their specifications

A service answers requests one at a time, and may fail. A client generates its next request from the
answers so far. A specification says which answers a request may get, and which requests a client may
make: it may leave an answer open, so that only the answers tell the state. A service that simulates
its specification answers every client that keeps to it, and as it says.

## Main definitions

* `Service.Client`: the next request of a client
* `Service.serve step client n`: the answers of a service to a client
* `Service.Allows spec client`: the answers a specification allows
* `Service.KeepsTo spec legal client`: a client whose requests are legal, whatever it is answered
* `Service.Simulates`: each legal request is answered as the specification says

## Main results

* `Service.Simulates.serve`: a simulation serves clients
* `Service.Simulates.of_refines`: a refinement of a simulation is one
* `Service.Allows.of_cons`: an answer is that to the last request
-/

namespace Service

variable {Q R S A E : Type*}

/-- The next request of a client, if it has one, after the answers so far: the latest is the first of
the list. -/
abbrev Client (Q R : Type*) := List R → Option Q

/-- The answers to a client after `n` more requests, and the state of the service. -/
def serve (step : Q → S → Except E (R × S)) (client : Client Q R) :
    ℕ → List R → S → Except E (List R × S)
  | 0, answers, s => .ok (answers, s)
  | n + 1, answers, s =>
    match client answers with
    | none => .ok (answers, s)
    | some q => step q s >>= fun (r, t) => serve step client n (r :: answers) t

variable {step : Q → S → Except E (R × S)} {spec : Q → A → R → A → Prop} {legal : Q → A → Prop}
  {I : A → S → Prop} {client : Client Q R} {answers : List R} {a b : A} {s t : S} {q : Q} {r : R}

theorem serve_succ_of_ok (hq : client answers = some q) (hstep : step q s = .ok (r, t)) (n : ℕ) :
    serve step client (n + 1) answers s = serve step client n (r :: answers) t := by
  simp only [serve, hq, hstep]
  rfl

theorem serve_succ_of_none (hq : client answers = none) (n : ℕ) :
    serve step client (n + 1) answers s = .ok (answers, s) := by
  simp only [serve, hq]

/-- A client can get the answers of a list from the specification, which is then in a state. -/
inductive Allows (spec : Q → A → R → A → Prop) (client : Client Q R) (a₀ : A) : List R → A → Prop
  | start : Allows spec client a₀ [] a₀
  | next {answers : List R} {a b : A} {q : Q} {r : R} (h : Allows spec client a₀ answers a)
      (hq : client answers = some q) (hstep : spec q a r b) :
      Allows spec client a₀ (r :: answers) b

/-- Every request of the client is legal, whichever answers it gets from the specification. -/
def KeepsTo (spec : Q → A → R → A → Prop) (legal : Q → A → Prop) (client : Client Q R) (a₀ : A) :
    Prop :=
  ∀ answers a q, Allows spec client a₀ answers a → client answers = some q → legal q a

/-- A legal request does not fail, and gets an answer of the specification; `I` relates the states. -/
def Simulates (step : Q → S → Except E (R × S)) (spec : Q → A → R → A → Prop)
    (legal : Q → A → Prop) (I : A → S → Prop) : Prop :=
  ∀ q a s, I a s → legal q a → ∃ r t b, step q s = .ok (r, t) ∧ spec q a r b ∧ I b t

/-- An answer is that to the request of the client after the answers before it. -/
theorem Allows.of_cons {a₀ : A} (h : Allows spec client a₀ (r :: answers) b) :
    ∃ a q, Allows spec client a₀ answers a ∧ client answers = some q ∧ spec q a r b := by
  cases h with
  | next h hq hstep => exact ⟨_, _, h, hq, hstep⟩

/-- Answers that go on from those of a run are answers of the specification. -/
theorem Simulates.serve_from (hsim : Simulates step spec legal I) {a₀ : A}
    (hk : KeepsTo spec legal client a₀) (n : ℕ) (h : Allows spec client a₀ answers a) (hI : I a s) :
    ∃ answers' t b, serve step client n answers s = .ok (answers', t) ∧
      Allows spec client a₀ answers' b ∧ I b t := by
  induction n generalizing answers a s with
  | zero => exact ⟨answers, s, a, rfl, h, hI⟩
  | succ n ih =>
    rcases hq : client answers with _ | q
    · exact ⟨answers, s, a, serve_succ_of_none hq n, h, hI⟩
    · obtain ⟨r, t, b, hstep, hspec, hb⟩ := hsim q a s hI (hk answers a q h hq)
      obtain ⟨answers', u, c, hserve, hallows, hc⟩ := ih (h.next hq hspec) hb
      exact ⟨answers', u, c, (serve_succ_of_ok hq hstep n).trans hserve, hallows, hc⟩

/-- A service that does what another does, along a relation of their states, simulates what that
simulates. -/
theorem Simulates.of_refines {T : Type*} {step' : Q → T → Except E (R × T)} {K : S → T → Prop}
    (hsim : Simulates step spec legal I)
    (hrefines : ∀ q s s' r t, K s s' → step q s = .ok (r, t) →
      ∃ t', step' q s' = .ok (r, t') ∧ K t t') :
    Simulates step' spec legal fun a s' => ∃ s, I a s ∧ K s s' := by
  rintro q a s' ⟨s, hI, hK⟩ hq
  obtain ⟨r, t, b, hstep, hspec, hb⟩ := hsim q a s hI hq
  obtain ⟨t', hstep', hK'⟩ := hrefines q s s' r t hK hstep
  exact ⟨r, t', b, hstep', hspec, t, hb, hK'⟩

/-- **A simulation serves** every client that keeps to the specification: no request fails, and the
answers are of the specification. -/
theorem Simulates.serve (hsim : Simulates step spec legal I) (hk : KeepsTo spec legal client a)
    (hI : I a s) (n : ℕ) :
    ∃ answers t b, serve step client n [] s = .ok (answers, t) ∧
      Allows spec client a answers b ∧ I b t :=
  hsim.serve_from hk n .start hI

end Service
