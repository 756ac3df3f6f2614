import Turnstile.Proofs.Gateway.Replies
import Turnstile.Proofs.Run

namespace Turnstile

theorem identifier_ofClaims (c : Claims) : (Principal.ofClaims c).identifier = c.subject := by
  unfold Principal.identifier Claims.subject Principal.ofClaims firstNonEmpty
  simp only [List.findSome?_cons, List.findSome?_nil]
  cases c.sub.filter (!·.isEmpty) with
  | some sub => rfl
  | none => cases c.stellarAddress.filter (!·.isEmpty) <;> rfl

namespace Gateway

/-- The claims of a request's bearer token, if it has one that is accepted. -/
def claimsOf (v : Token.Verifier) (r : Request) : Option Claims :=
  Token.bearer? r.headers >>= fun token => (v token).toOption

def principalOf (v : Token.Verifier) (r : Request) : Option Principal :=
  (claimsOf v r).map Principal.ofClaims

/-- Whom a request is charged to. -/
def callerOf (v : Token.Verifier) (r : Request) : Caller :=
  Caller.resolve (principalOf v r) (claimsOf v r) r

def isExempt (v : Token.Verifier) (r : Request) : Bool :=
  Caller.isExempt (principalOf v r) (claimsOf v r)

theorem isAdmin_ofClaims (c : Claims) : (Principal.ofClaims c).isAdmin = c.isAdmin := by
  rw [Principal.isAdmin, Principal.ofClaims, Claims.isAdmin]
  cases c.role with
  | none => rfl
  | some role => cases role <;> rfl

/-- A request whose token does not make it an administrator's has no administrator for principal. -/
theorem isAdmin_principalOf {v : Token.Verifier} {r : Request}
    (others : ∀ c, claimsOf v r = some c → c.isAdmin = false) :
    ∀ p, principalOf v r = some p → p.isAdmin = false := by
  intro p found
  obtain ⟨c, claimed, rfl⟩ := Option.map_eq_some_iff.mp found
  rw [isAdmin_ofClaims]
  exact others c claimed

/-- A request behind the stage that looks at its token. -/
def identified (v : Token.Verifier) (r : Request) : Exchange where
  request := r
  principal := principalOf v r
  notes := Slots.empty.insert .token (claimsOf v r)

theorem claims_ofRequest {σ : Type} (v : Token.Verifier) (r : Request) :
    (Exchange.ofRequest r).claims (TokenCheck.ofVerifier v) =
      (pure (claimsOf v r,
        { request := r, notes := Slots.empty.insert .token (claimsOf v r) }) :
          Run σ (Option Claims × Exchange)) := by
  unfold Exchange.claims claimsOf
  simp only [Exchange.ofRequest, Slots.empty]
  cases Token.bearer? r.headers with
  | none => rfl
  | some token =>
    simp only [TokenCheck.ofVerifier, pure_bind, Option.bind_eq_bind, Option.bind_some]
    cases v token <;> rfl

theorem authenticate_ofRequest {σ : Type} (v : Token.Verifier) (next : Handler σ) (r : Request) :
    Stage.authenticate (TokenCheck.ofVerifier v) next (Exchange.ofRequest r) =
      next (identified v r) := by
  have start : (Exchange.ofRequest r).principal = none := rfl
  rw [Stage.authenticate, start, claims_ofRequest, pure_bind]
  unfold identified principalOf
  cases claimsOf v r <;> rfl

theorem throttle_identified {σ : Type} (plan : ThrottlePlan) (store : CounterStore σ)
    (v : Token.Verifier) (next : Handler σ) (r : Request) :
    Stage.throttle plan store (TokenCheck.ofVerifier v) next (identified v r) =
      if isExempt v r then next (identified v r)
      else do
        match ← Throttle.charge store (plan.charges r (callerOf v r).key) with
        | .refused refusal => return refusal
        | .admitted told =>
          let x := identified v r
          let answer ← next { x with notes := x.notes.insert .caller (callerOf v r) }
          return answer.addHeaders told := by
  have seen : (identified v r).claims (TokenCheck.ofVerifier v) =
      (pure (claimsOf v r, identified v r) : Run σ (Option Claims × Exchange)) := by
    simp [Exchange.claims, identified]
  rw [Stage.throttle, seen, pure_bind]
  rfl

theorem answer_inMemory (s : Settings) (v : Token.Verifier) (o : Occasion) (r : Request) :
    (inMemory s v).answer o r =
      Stage.cors { origins := s.origins }
        (Stage.authenticate (TokenCheck.ofVerifier v)
          (Stage.throttle (throttlePlan s.rateLimits) Memory.counterStore
            (TokenCheck.ofVerifier v) (behind s o)))
        (Exchange.ofRequest r) := by
  simp only [answer, stages, inMemory, Stage.chain, List.foldr_cons, List.foldr_nil, behind]

end Gateway

end Turnstile
