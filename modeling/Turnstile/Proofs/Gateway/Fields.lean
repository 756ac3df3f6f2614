import Turnstile.Gateway.Basic
import Turnstile.Proofs.Run

namespace Turnstile

namespace Response

theorem addHeaders_nil (r : Response) : r.addHeaders [] = r := by
  simp [addHeaders, Headers.append]

theorem addHeaders_addHeaders (r : Response) (first second : List (String × String)) :
    (r.addHeaders first).addHeaders second = r.addHeaders (first ++ second) := by
  simp [addHeaders, Headers.append]

/-- The name of the field by which the cache marks its answers. -/
def isMarkName (name : String) : Bool := Ascii.sameWord name ResponseCache.marker

/-- The answer tells what the cache had to do with it. -/
def isMarked (r : Response) : Bool := r.headers.contains ResponseCache.marker

theorem isMarked_eq_any (r : Response) :
    r.isMarked = r.headers.entries.any fun f => isMarkName f.1 := by
  rw [isMarked, Headers.contains, Headers.get?, Option.isSome_map, List.isSome_find?]
  rfl

theorem isMarked_eq_false {r : Response}
    (plain : ∀ f ∈ r.headers.entries, isMarkName f.1 = false) : r.isMarked = false := by
  rw [isMarked_eq_any, List.any_eq_false]
  intro f mem
  simp [plain f mem]

theorem isMarked_addHeaders {r : Response} {more : List (String × String)}
    (plain : ∀ f ∈ more, isMarkName f.1 = false) : (r.addHeaders more).isMarked = r.isMarked := by
  have none_more : more.any (fun f => isMarkName f.1) = false :=
    List.any_eq_false.mpr fun f mem => by simp [plain f mem]
  rw [isMarked_eq_any, isMarked_eq_any]
  simp only [addHeaders, Headers.append, List.any_append, none_more, Bool.or_false]

theorem isMarked_ofJson (s : Status) (v : Json.Value) : (ofJson s v).isMarked = false := by
  apply isMarked_eq_false
  intro f mem
  obtain rfl : f = ("Content-Type", "application/json") := by
    simpa [ofJson, ofText, addHeader, Headers.insert, Headers.empty] using mem
  decide +kernel

end Response

namespace Stage

variable {σ : Type}

/-- Puts fields behind every answer. -/
def withFields (more : List (String × String)) : Stage σ := fun next x => do
  let r ← next x
  return r.addHeaders more

theorem withFields_nil (next : Handler σ) : withFields [] next = next := by
  funext x
  simp [withFields, Response.addHeaders_nil]

theorem withFields_withFields (first second : List (String × String)) (next : Handler σ) :
    withFields second (withFields first next) = withFields (first ++ second) next := by
  funext x
  simp [withFields, Response.addHeaders_addHeaders]

theorem withFields_snd (more : List (String × String)) (next : Handler σ) (x : Exchange) (s : σ) :
    (withFields more next x s).2 = (next x s).2 := by
  rw [withFields, Run.bind_apply]
  rcases next x s with ⟨e | r, t⟩ <;> rfl

theorem withFields_eq_ok {more : List (String × String)} {next : Handler σ} {x : Exchange}
    {s t : σ} {r : Response} (h : withFields more next x s = (.ok r, t)) :
    ∃ a, next x s = (.ok a, t) ∧ r = a.addHeaders more := by
  obtain ⟨a, u, came, told⟩ := Run.bind_eq_ok.mp h
  cases told
  exact ⟨a, came, rfl⟩

end Stage

namespace CorsPolicy

/-- The names of the fields behind the answer to a request. -/
def answerNames : List String :=
  ["Access-Control-Allow-Origin", "Access-Control-Allow-Credentials", "Vary",
    "Access-Control-Expose-Headers"]

/-- The names of the fields of the policy's own answers. -/
def preflightNames : List String :=
  ["Access-Control-Allow-Methods", "Access-Control-Allow-Headers", "Access-Control-Max-Age",
    "Access-Control-Allow-Origin", "Access-Control-Allow-Credentials", "Vary"]

theorem name_mem_answerNames (p : CorsPolicy) (origin : String) :
    ∀ f ∈ p.answerFields origin, f.1 ∈ answerNames := by
  simp only [answerFields, originFields, answerNames]
  split <;> simp

theorem name_mem_preflightNames (p : CorsPolicy) (origin : String) :
    ∀ f ∈ (p.preflight origin).headers.entries, f.1 ∈ preflightNames := by
  simp only [preflight, Response.ofStatus, Response.addHeaders, Headers.append, Headers.empty,
    originFields, preflightNames]
  split <;> simp

/-- The origin of a request as it is answered, if the request has one that is allowed. -/
def origin? (p : CorsPolicy) (r : Request) : Option String :=
  match r.headers.get? "origin" with
  | none => none
  | some origin =>
    if "*" ∈ p.origins then some "*" else if origin ∈ p.origins then some origin else none

theorem origin?_eq (p : CorsPolicy) (r : Request) :
    p.origin? r = r.headers.get? "origin" >>= p.allowedOrigin? := by
  rw [origin?]
  cases r.headers.get? "origin" with
  | none => rfl
  | some origin =>
    rw [Option.bind_eq_bind, Option.bind_some, allowedOrigin?, anyOrigin]
    simp only [List.contains_iff_mem]

/-- The policy answers the request by itself. -/
def answers (p : CorsPolicy) (r : Request) : Bool :=
  r.method == .options && (p.origin? r).isSome

/-- What the policy puts behind the answers of others. -/
def marks (p : CorsPolicy) (r : Request) : List (String × String) :=
  ((p.origin? r).map p.answerFields).getD []

theorem cors_of_answers {σ : Type} {p : CorsPolicy} {x : Exchange}
    (h : p.answers x.request = true) (next : Handler σ) :
    Stage.cors p next x = pure (p.preflight ((p.origin? x.request).getD "")) := by
  obtain ⟨asking, allowed⟩ := Bool.and_eq_true_iff.mp h
  obtain ⟨origin, found⟩ := Option.isSome_iff_exists.mp allowed
  rw [beq_iff_eq] at asking
  rw [found]
  rw [origin?_eq] at found
  simp only [Stage.cors, found, if_pos asking, Option.getD_some]

theorem cors_of_not_answers {σ : Type} {p : CorsPolicy} {x : Exchange}
    (h : p.answers x.request = false) (next : Handler σ) :
    Stage.cors p next x = Stage.withFields (p.marks x.request) next x := by
  rw [answers, origin?_eq] at h
  rw [Stage.cors, marks, origin?_eq]
  cases found : x.request.headers.get? "origin" >>= p.allowedOrigin? with
  | none => simp [Stage.withFields_nil]
  | some origin =>
    have reading : x.request.method ≠ .options := by simpa [found] using h
    simp [if_neg reading, Stage.withFields]

theorem isMarkName_marks (p : CorsPolicy) (r : Request) :
    ∀ f ∈ p.marks r, Response.isMarkName f.1 = false := by
  have plain : ∀ name ∈ answerNames, Response.isMarkName name = false := by decide +kernel
  intro f mem
  rw [marks] at mem
  cases found : p.origin? r with
  | none =>
    rw [found] at mem
    cases mem
  | some origin =>
    rw [found] at mem
    exact plain f.1 (name_mem_answerNames p origin f mem)

theorem isMarked_preflight (p : CorsPolicy) (origin : String) :
    (p.preflight origin).isMarked = false := by
  have plain : ∀ name ∈ preflightNames, Response.isMarkName name = false := by decide +kernel
  apply Response.isMarked_eq_false
  exact fun f mem => plain f.1 (name_mem_preflightNames p origin f mem)

end CorsPolicy

namespace Throttle

theorem isMarkName_fields (b : Bucket) (h : Hit) :
    ∀ f ∈ fields b h, Response.isMarkName f.1 = false := by
  simp [fields, Response.isMarkName, Ascii.sameWord, ResponseCache.marker]

theorem isMarked_refusal (b : Bucket) (h : Hit) : (refusal b h).isMarked = false := by
  have retry : Response.isMarkName ("Retry-After" ++ b.suffix) = false := by
    simp [Response.isMarkName, Ascii.sameWord, ResponseCache.marker]
  have plain : ∀ f ∈ [("Retry-After" ++ b.suffix, toString (Clock.wholeSeconds h.timeToUnblock))],
      Response.isMarkName f.1 = false := by
    intro f mem
    obtain rfl := List.mem_singleton.mp mem
    exact retry
  exact (Response.isMarked_addHeaders plain).trans (Response.isMarked_ofJson _ _)

end Throttle

end Turnstile
