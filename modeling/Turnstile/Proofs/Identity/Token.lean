import Turnstile.Identity.Token
import Turnstile.Proofs.Bits
import Turnstile.Proofs.Gateway.Identified
import Turnstile.Proofs.Identity.Claims

/-!
Signed tokens are accepted with the claims that they were signed for. No part of a token has a point
in it, so that the token is split where its parts were joined; each part is read as the bytes that
it was written for; and those of the body are read as the claims. Whether the digest can be forged
does not matter here.
-/

namespace Turnstile.Token

theorem isLawful_base64 : base64.IsLawful := ⟨by decide, by decide, by decide⟩

/-- Any bytes come back from their part of a token. -/
theorem decodePart?_encode (s : List UInt8) : decodePart? (base64.encode s) = some s := by
  obtain ⟨k, few, read⟩ := Bits.Code.exists_bits?_encode isLawful_base64 s
  have fewer : k < 6 := few
  have bytes : Bits.toBytes (Bits.ofBytes s ++ List.replicate k false) =
      (s, List.replicate k false) :=
    Bits.toBytes_ofBytes_append s (by rw [List.length_replicate]; omega)
  simp [decodePart?, read, bytes, fewer]

theorem decodePart?_encodePart (v : Json.Value) :
    decodePart? (encodePart v) = some (Utf8.encodeChars v.chars) :=
  decodePart?_encode _

theorem point_notMem_encode (s : List UInt8) : '.' ∉ base64.encode s := by
  intro mem
  exact absurd (Bits.Code.mem_alphabet_of_mem_encode isLawful_base64 mem) (by decide)

/-- A text is split at the point in front of a part that has none. -/
theorem splitLast?_append {behind : List Char} (part : '.' ∉ behind) (front : List Char) :
    splitLast? (front ++ '.' :: behind) = some (front, behind) := by
  have unpointed : ∀ c ∈ behind.reverse, (c != '.') = true := by
    intro c mem
    rw [bne_iff_ne]
    rintro rfl
    exact part (List.mem_reverse.mp mem)
  have taken : (front ++ '.' :: behind).reverse.takeWhile (· != '.') = behind.reverse := by
    rw [List.reverse_append, List.reverse_cons, List.append_assoc,
      List.takeWhile_append_of_pos unpointed]
    simp
  have pointed : (front ++ '.' :: behind).contains '.' = true := by simp
  have length : (front ++ '.' :: behind).length - behind.length - 1 = front.length := by
    rw [List.length_append, List.length_cons]
    omega
  rw [splitLast?, if_pos pointed]
  simp only [taken, List.reverse_reverse, length, List.take_left]

/-- What the text of the own header reads as. -/
def ownHeaderTree : Json.Tree :=
  Json.objectTree [("typ", Json.textTree "JWT"), ("alg", Json.textTree ownAlgorithm)]

theorem reads_ownHeader : Json.Reads ownHeader ownHeaderTree :=
  Json.reads_object (.cons ⟨rfl, Json.reads_string "JWT"⟩
    (.cons ⟨rfl, Json.reads_string ownAlgorithm⟩ .nil))

theorem headerAlgorithm?_ownHeaderTree : headerAlgorithm? ownHeaderTree = some ownAlgorithm := by
  have fields : ownHeaderTree.fields? headerNames =
      some [some (Json.textTree "JWT"), some (Json.textTree ownAlgorithm), none, none, none, none,
        none, none, none, none] := by
    rw [ownHeaderTree, Json.fields?_objectTree (by decide)]
    simp [headerNames, Keyed.get?]
  have typ : Json.optional Json.Tree.string? (some (Json.textTree "JWT")) = some (some "JWT") :=
    Json.optional_textTree Json.string?_textTree (some "JWT")
  have missing {α : Type} (read : Json.Tree → Option α) : Json.optional read none = some none := rfl
  have alg : nameIn? algorithms (Json.textTree ownAlgorithm) = some ownAlgorithm := by
    rw [nameIn?, Json.variant?_textTree]
    decide
  obtain ⟨ms, object⟩ : ∃ ms, ownHeaderTree = .object ms := ⟨_, rfl⟩
  rw [object] at fields ⊢
  simp [headerAlgorithm?, fields, typ, missing, Json.required, alg]

/-- The text of claims has no members beside those of the holder, and so no audience. -/
theorem audience?_tree (c : Claims) : audience? c.tree = some false := by
  have members : c.tree.members? = some c.members := Json.members?_objectTree c.members
  have fields : c.tree.fields? ["exp", "nbf", "sub", "iss", "aud"] =
      some [some (.numeral (.ofNat c.exp)), none, c.sub.map Json.textTree, none, none] := by
    simp [Claims.fields?_tree, Claims.members, Keyed.get?_append, Claims.get?_entry, Keyed.get?]
  simp [audience?, members, fields, isReadable]

/-- Tokens are accepted with the claims that they were signed for, up to a while after their
expiry. -/
theorem verify_sign (secret : List UInt8) (now : Nat) {c : Claims}
    (fits : c.exp < Claims.expiryBound) :
    verify secret now (sign secret c) = if c.exp + leeway < now then .error .expired else .ok c := by
  generalize written : encodePart ownHeader ++ '.' :: encodePart c.toJson = message
  -- Both sides take the digest of this message, so it is compared and never computed.
  have signed : splitLast? (sign secret c).toList = some (message, signature secret message) := by
    rw [sign, String.toList_ofList]
    simp only [written]
    exact splitLast?_append (point_notMem_encode _) message
  have parted : splitLast? message = some (encodePart ownHeader, encodePart c.toJson) :=
    written ▸ splitLast?_append (point_notMem_encode _) (encodePart ownHeader)
  have header : (Json.Tree.parse? (Utf8.encodeChars ownHeader.chars)).bind headerAlgorithm? =
      some ownAlgorithm := by
    rw [reads_ownHeader.parse?]
    exact headerAlgorithm?_ownHeaderTree
  have tree := c.reads_toJson.parse?
  have claims := Claims.ofTree?_tree fits
  have audience := audience?_tree c
  calc
    verify secret now (sign secret c) =
        if c.exp + leeway < now then .error .expired else pure c := by
      simp [verify, signed, parted, decodePart?_encodePart, header, tree, claims, audience]
    _ = if c.exp + leeway < now then .error .expired else .ok c := rfl

theorem sign_ne_empty (secret : List UInt8) (c : Claims) : sign secret c ≠ "" := by
  intro nothing
  have chars := congrArg String.toList nothing
  rw [sign, String.toList_ofList] at chars
  simp at chars

/-- A field that starts with the scheme carries the token behind it. -/
theorem bearer?_of_get? {h : Headers} {token : String} (some_token : token ≠ "")
    (given : h.get? "authorization" = some ("Bearer " ++ token)) : bearer? h = some token := by
  have scheme : "Bearer ".toList.isPrefixOf ("Bearer " ++ token).toList = true := by
    rw [String.toList_append, List.isPrefixOf_iff_prefix]
    exact List.prefix_append _ _
  have behind : ("Bearer " ++ token).toList.drop "Bearer ".toList.length = token.toList := by
    rw [String.toList_append, List.drop_left]
  have some_char : token.toList.isEmpty = false := by
    rwa [List.isEmpty_eq_false_iff, ne_eq, String.toList_eq_nil_iff]
  simp only [bearer?, given, Option.bind_eq_bind, Option.bind_some, scheme, if_true, behind,
    some_char, Bool.false_eq_true, if_false, String.ofList_toList]

/-- A caller with claims is counted under their subject, and without a subject as a stranger. -/
theorem key_resolve (c : Claims) (r : Request) :
    (Caller.resolve (some (Principal.ofClaims c)) (some c) r).key =
      match c.subject with
      | some id => "user:" ++ id
      | none => (Caller.resolve none none r).key := by
  simp only [Caller.resolve, Option.bind_some, Option.bind_none, identifier_ofClaims]
  cases c.subject <;> rfl

/-- Claims whose expiry has 64 bits and is not past come back from the token that was signed for
them. So the bearer of the token is the principal that these claims make, and is counted under their
subject, or as a stranger if they have none. -/
theorem signed_claims_come_back (secret : List UInt8) (now : Nat) (c : Claims)
    (fits : c.exp < Claims.expiryBound) (current : now ≤ c.exp) :
    verify secret now (sign secret c) = .ok c ∧
    ∀ r : Request, r.headers.get? "authorization" = some ("Bearer " ++ sign secret c) →
      Gateway.claimsOf (verify secret now) r = some c ∧
      Gateway.principalOf (verify secret now) r = some (Principal.ofClaims c) ∧
      Gateway.callerOf (verify secret now) r =
        Caller.resolve (some (Principal.ofClaims c)) (some c) r ∧
      (Gateway.callerOf (verify secret now) r).key =
        match c.subject with
        | some id => "user:" ++ id
        | none => (Caller.resolve none none r).key := by
  have valid : ¬c.exp + leeway < now := by omega
  have accepted : verify secret now (sign secret c) = .ok c := by
    rw [verify_sign secret now fits, if_neg valid]
  refine ⟨accepted, fun r given => ?_⟩
  have claimed : Gateway.claimsOf (verify secret now) r = some c := by
    rw [Gateway.claimsOf, bearer?_of_get? (sign_ne_empty secret c) given]
    simp [accepted, Except.toOption]
  have principal : Gateway.principalOf (verify secret now) r = some (Principal.ofClaims c) :=
    congrArg (Option.map Principal.ofClaims) claimed
  have caller : Gateway.callerOf (verify secret now) r =
      Caller.resolve (some (Principal.ofClaims c)) (some c) r :=
    congrArg₂ (Caller.resolve · · r) principal claimed
  exact ⟨claimed, principal, caller, caller ▸ key_resolve c r⟩

section Case

/-- The holder of an address, in a role that is not known. -/
def guest : Claims := ⟨none, some "G\"é\n", some .unknown, Nat.pow 2 64 - 1⟩

/-- A request of the holder of a token, from an address of its own. -/
def errand (token : String) : Request :=
  ⟨⟨.get, "/quests", none, .http11,
    ⟨[("X-Forwarded-For", "10.0.0.7"), ("Authorization", "Bearer " ++ token)]⟩⟩, [], none, []⟩

/-- A quote, a letter beyond ASCII and a line feed come back, and so does the latest expiry. -/
theorem guest_comes_back :
    let v := verify "key".toUTF8.toList (Nat.pow 2 64 - 1)
    let token := sign "key".toUTF8.toList guest
    v token = .ok guest ∧
    Gateway.principalOf v (errand token) =
      some ⟨none, some "G\"é\n", none, .unknown⟩ ∧
    (Gateway.callerOf v (errand token)).key = "user:G\"é\n" := by
  intro v token
  have other : Ascii.sameWord "X-Forwarded-For" "authorization" = false := by decide
  have own : Ascii.sameWord "Authorization" "authorization" = true := by decide
  have given : (errand token).headers.get? "authorization" = some ("Bearer " ++ token) := by
    simp [errand, Headers.get?, other, own]
  obtain ⟨accepted, carried⟩ := signed_claims_come_back "key".toUTF8.toList (Nat.pow 2 64 - 1)
    guest (by decide) (by decide)
  obtain ⟨-, principal, -, key⟩ := carried (errand token) given
  exact ⟨accepted, principal, key⟩

end Case

end Turnstile.Token
