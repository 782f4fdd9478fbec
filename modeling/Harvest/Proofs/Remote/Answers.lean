import Harvest.Paging.Walk
import Harvest.Remote.Http
import Harvest.Remote.Introspect
import Harvest.Proofs.Basic

/-!
# What becomes of a posted request

A posted request is to end with an object or with an error of the remote, and an error is to become a
failure of sourcing, whether the schema was asked for or a page. `Http.executor_kept` says how far this
holds. A request breaks, with a fault that nothing along the way is prepared for, exactly if it cannot be
sent, if a response comes from no place, or if the remote reports an error whose message is no text
(`Sample.numbered_error_breaks`).

The order of the module is that of a response on its way in. An error object has a text or it has none
(`RemoteError.Words`); a body counts if it has the agreed form, which says what its data and its errors are
(`decode?_eq_some_iff`); a response is data, errors or an error of transport, with two cases for each side
(`answerOf_accepted`, `answerOf_cases`). On the way out there is one obstacle, a host that has to be named
and cannot be written. `Http.Breaks` collects the reasons for which either direction breaks.

What the connection does is a parameter. Nothing is assumed of it but that it gives a response or a text
that says why there is none.
-/

namespace Harvest

/-! ## Errors and their texts

Errors are joined by their texts for the message of a failure. A message that is there and is no text cannot
be joined. -/

namespace RemoteError

/-- Whether an error object is known by a text: its message, or all of it if it has none. -/
inductive Words : Value → String → Prop
  | message {ms : Members} {t : String} (h : Members.field? ms "message" = some (.str t)) :
      Words (.object ms) t
  | whole {ms : Members} (h : Members.field? ms "message" = none) :
      Words (.object ms) (Value.object ms).display

/-- Whether an error object has a message that is no text. -/
def Wordless (e : Value) : Prop :=
  ∃ ms m, e = .object ms ∧ Members.field? ms "message" = some m ∧ ∀ t, m ≠ .str t

variable {e : Value} {errors : List Value} {t : String}

theorem textOf_ok (h : textOf e = .ok t) : Words e t := by
  unfold textOf at h
  split at h
  next ms =>
    split at h
    next hnone =>
      cases h
      exact .whole hnone
    next s hs =>
      cases h
      exact .message hs
    next => cases h
  next => cases h

theorem textOf_error {f : Fault} (he : isObject e = true) (h : textOf e = .error f) :
    Wordless e ∧ f = .kind := by
  unfold textOf at h
  split at h
  next ms =>
    split at h
    next => cases h
    next => cases h
    next m hne hm =>
      cases h
      exact ⟨⟨ms, m, rfl, hm, fun t ht => hne t ht⟩, rfl⟩
  next hne =>
    unfold isObject at he
    split at he
    next ms => exact absurd rfl (hne ms)
    next => cases he

theorem Words.not_wordless (h : Words e t) : ¬Wordless e := by
  rintro ⟨ms, m, he, hm, hne⟩
  cases h with
  | message hs =>
      cases he
      exact hne t (Option.some.inj (hm.symm.trans hs))
  | whole hnone =>
      cases he
      cases hm.symm.trans hnone

/-- Errors are reported with their texts, unless one of them has none. -/
theorem ofObjects_cases (h : ∀ e ∈ errors, isObject e = true) :
    (∃ texts, List.Forall₂ Words errors texts ∧ ofObjects errors = .ok (.reported errors texts))
      ∨ ((∃ e ∈ errors, Wordless e) ∧ ofObjects errors = .error .kind) := by
  have hall : errors.all isObject = true := List.all_eq_true.mpr h
  rw [ofObjects, if_pos hall]
  cases hm : errors.mapM textOf with
  | ok texts =>
      exact .inl ⟨texts, (mapM_ok hm).imp fun _ _ => textOf_ok, rfl⟩
  | error f =>
      obtain ⟨before, e, after, rfl, -, he⟩ := mapM_error hm
      have hmem : e ∈ before ++ e :: after := List.mem_append_right before List.mem_cons_self
      obtain ⟨hwordless, rfl⟩ := textOf_error (h e hmem) he
      exact .inr ⟨⟨e, hmem, hwordless⟩, rfl⟩

end RemoteError

/-! ## Bodies

A body is JSON text that holds an object, with an object or nothing as its data and a list of objects or
nothing as its errors. Everything else is no response at all. -/

namespace Http

/-- Whether a body is a response in the agreed form: an object with an object or nothing as its data, and
with a list of objects or nothing as its errors. -/
def Accepted (body : String) (data : Members) (errors : List Value) : Prop :=
  ∃ ms, Json.parseBytes? body = some (.object ms)
    ∧ (Members.field ms "data" = .object data ∨ Members.field ms "data" = .null ∧ data = [])
    ∧ (Members.field ms "errors" = .list errors ∨ Members.field ms "errors" = .null ∧ errors = [])
    ∧ ∀ e ∈ errors, RemoteError.isObject e = true

variable {body : String} {data : Members} {errors : List Value}

theorem Accepted.isObject (h : Accepted body data errors) :
    ∀ e ∈ errors, RemoteError.isObject e = true := by
  obtain ⟨-, -, -, -, hobjects⟩ := h
  exact hobjects

theorem errorsOf?_eq_some_iff {v : Value} :
    errorsOf? v = some errors ↔
      (v = .list errors ∨ v = .null ∧ errors = []) ∧ ∀ e ∈ errors, RemoteError.isObject e = true := by
  -- absent errors read as none, a list as its objects, and nothing else is accepted
  unfold errorsOf?
  split
  next =>
    constructor
    · rintro ⟨⟩
      exact ⟨.inr ⟨rfl, rfl⟩, List.forall_mem_nil _⟩
    · rintro ⟨h | ⟨-, rfl⟩, -⟩
      · cases h
      · rfl
  next es =>
    split
    next hall =>
      constructor
      · rintro ⟨⟩
        exact ⟨.inl rfl, List.all_eq_true.mp hall⟩
      · rintro ⟨h | ⟨h, -⟩, -⟩
        · cases h
          rfl
        · cases h
    next hall =>
      refine ⟨nofun, ?_⟩
      rintro ⟨h | ⟨h, -⟩, hobjects⟩
      · cases h
        exact absurd (List.all_eq_true.mpr hobjects) hall
      · cases h
  next hnull hlist =>
    refine ⟨nofun, ?_⟩
    rintro ⟨rfl | ⟨rfl, -⟩, -⟩
    · exact absurd rfl (hlist errors)
    · exact absurd rfl hnull

/-- **A body counts exactly if it is a response in the agreed form.** -/
theorem decode?_eq_some_iff {v : Value} :
    decode? body = some (v, errors) ↔ ∃ data, v = .object data ∧ Accepted body data errors := by
  unfold decode?
  constructor
  · intro h
    split at h
    next ms hms =>
      split at h
      next es hdata hes =>
        cases h
        exact ⟨[], rfl, ms, hms, .inr ⟨hdata, rfl⟩, errorsOf?_eq_some_iff.mp hes⟩
      next d es hdata hes =>
        cases h
        exact ⟨d, rfl, ms, hms, .inl hdata, errorsOf?_eq_some_iff.mp hes⟩
      next => cases h
    next => cases h
  · rintro ⟨data, rfl, ms, hms, hdata, hes⟩
    rw [hms]
    dsimp only
    rw [errorsOf?_eq_some_iff.mpr hes]
    rcases hdata with hdata | ⟨hdata, rfl⟩
    · rw [hdata]
    · rw [hdata]

/-! ## Responses

The status counts before the body does, so that a body in the agreed form under a bad status is an error of
transport. -/

/-- **What a response in the agreed form is**: its data if it reports no errors, and else the errors with
their texts, unless one of them has none. -/
theorem answerOf_accepted (url : String) (h : Accepted body data errors) :
    (errors = [] ∧ answerOf url (.response okStatus body) = .data (.object data))
      ∨ (errors ≠ [] ∧ ∃ texts, List.Forall₂ RemoteError.Words errors texts
        ∧ answerOf url (.response okStatus body) = .failed (.reported errors texts))
      ∨ ((∃ err ∈ errors, RemoteError.Wordless err)
        ∧ answerOf url (.response okStatus body) = .broken .kind) := by
  have hd : decode? body = some (.object data, errors) := decode?_eq_some_iff.mpr ⟨data, rfl, h⟩
  have hobjects := h.isObject
  cases errors with
  | nil =>
      refine .inl ⟨rfl, ?_⟩
      simp only [answerOf, ne_eq, not_true_eq_false, if_false, hd]
  | cons err errs =>
      rcases RemoteError.ofObjects_cases hobjects with ⟨texts, hwords, hx⟩ | ⟨hwordless, hx⟩
      · refine .inr (.inl ⟨List.cons_ne_nil err errs, texts, hwords, ?_⟩)
        simp only [answerOf, ne_eq, not_true_eq_false, if_false, hd, hx]
      · refine .inr (.inr ⟨hwordless, ?_⟩)
        simp only [answerOf, ne_eq, not_true_eq_false, if_false, hd, hx]

/-- A response that does not count is an error of transport. -/
theorem answerOf_cases (url : String) (status : Int) (body : String) :
    (∃ text, answerOf url (.response status body) = .failed (.transport url status text))
      ∨ (status = okStatus ∧ ∃ data errors, Accepted body data errors) := by
  by_cases hs : status = okStatus
  · cases hd : decode? body with
    | none =>
        refine .inl ⟨invalidBody, ?_⟩
        simp only [answerOf, hs, ne_eq, not_true_eq_false, if_false, hd]
    | some found =>
        obtain ⟨v, errors⟩ := found
        obtain ⟨data, -, h⟩ := decode?_eq_some_iff.mp hd
        exact .inr ⟨hs, data, errors, h⟩
  · exact .inl ⟨body, if_pos hs⟩

/-! ## Requests

From the request to the answer, with the cases in which it is not sent and those in which it breaks
afterwards. -/

theorem any_withDefault {headers : List (String × String)} {header : String × String} {name : String}
    (h : isNamed name header = false) :
    (withDefault headers header).any (isNamed name) = headers.any (isNamed name) := by
  unfold withDefault
  split
  · rfl
  · rw [List.any_append, List.any_cons, h, List.any_nil, Bool.or_false, Bool.or_false]

/-- **A request is not sent exactly if its host, when it has to be named, cannot be**: a header of that
name is taken as it was given. -/
theorem message_eq_error_iff {e : HttpEndpoint} {v : Value} {f : Fault} :
    message e v = .error f ↔ e.headers.any (isNamed "Host") = false ∧ hostHeader e.target = .error f := by
  have hlength (v : String) : isNamed "Host" ("Content-Length", v) = false := by
    show ("Content-Length".map Char.toLower == "Host".map Char.toLower) = false
    decide +kernel
  have htype (v : String) : isNamed "Host" ("Content-Type", v) = false := by
    show ("Content-Type".map Char.toLower == "Host".map Char.toLower) = false
    decide +kernel
  -- the headers that are added on the way name no host
  have hhost (length : String) : (withDefault (withDefault e.headers ("Content-Length", length))
      ("Content-Type", "application/json")).any (isNamed "Host") = e.headers.any (isNamed "Host") := by
    rw [any_withDefault (htype _), any_withDefault (hlength _)]
  unfold message
  dsimp only
  rw [hhost]
  cases e.headers.any (isNamed "Host") with
  | true =>
      refine ⟨nofun, ?_⟩
      rintro ⟨h, -⟩
      cases h
  | false =>
      cases hostHeader e.target with
      | ok host =>
          refine ⟨nofun, ?_⟩
          rintro ⟨-, h⟩
          cases h
      | error f' =>
          show (Except.error f' : Except Fault HttpMessage) = .error f ↔ _
          simp

section Executor

variable {σ : Type} {e : HttpEndpoint} {post : HttpMessage → StateM σ HttpAnswer} {r : Request} {s : σ}

/-- Why a request may end neither with data nor with an error of the remote. -/
inductive Breaks (e : HttpEndpoint) (r : Request) (reply : HttpMessage → HttpAnswer) : Fault → Prop
  /-- The host has no name that can be sent. -/
  | hostless {f : Fault} (hheaders : e.headers.any (isNamed "Host") = false)
      (hhost : hostHeader e.target = .error f) : Breaks e r reply f
  /-- There is no place that a response can come from, and yet there is one. -/
  | placeless {m : HttpMessage} {status : Int} {body : String} (hm : message e r.payload = .ok m)
      (hreply : reply m = .response status body) (h : e.target.isAbsolute = false) :
      Breaks e r reply .content
  /-- The remote reports an error whose message is no text. -/
  | wordless {m : HttpMessage} {body : String} {data : Members} {errors : List Value} {err : Value}
      (hm : message e r.payload = .ok m) (hreply : reply m = .response okStatus body)
      (h : e.target.isAbsolute = true) (hbody : Accepted body data errors) (hmem : err ∈ errors)
      (herr : RemoteError.Wordless err) : Breaks e r reply .kind

/-! ### The executor

A request is put together, sent, and answered by what came back. Each of the three can break it, and nothing
else can. -/

theorem executor_unsent {f : Fault} (h : message e r.payload = .error f) :
    executor e post r s = (.broken f, s) := by
  rw [executor, h]
  rfl

/-- What a request that is sent is answered with. -/
theorem executor_sent {m : HttpMessage} (h : message e r.payload = .ok m) :
    (executor e post r s).1 = match (post m s).1 with
      | .unreachable text => answerOf e.given (.unreachable text)
      | .response status body =>
        if e.target.isAbsolute then answerOf e.given (.response status body) else .broken .content := by
  rw [executor, h]
  dsimp only [bind, StateT.bind]
  generalize post m s = x
  obtain ⟨a, s'⟩ := x
  cases a with
  | unreachable text => rfl
  | response status body => rfl

theorem executor_response {m : HttpMessage} {status : Int} {body : String}
    (hm : message e r.payload = .ok m) (hx : (post m s).1 = .response status body)
    (h : e.target.isAbsolute = true) :
    (executor e post r s).1 = answerOf e.given (.response status body) := by
  rw [executor_sent hm, hx]
  simp only [h, if_true]

theorem executor_breaks {f : Fault} (h : Breaks e r (fun m => (post m s).1) f) :
    (executor e post r s).1 = .broken f := by
  cases h with
  | hostless hheaders hhost =>
      rw [executor_unsent (message_eq_error_iff.mpr ⟨hheaders, hhost⟩)]
  | placeless hm hreply h =>
      rw [executor_sent hm, hreply]
      simp only [h, Bool.false_eq_true, if_false]
  | wordless hm hreply h hbody hmem herr =>
      rw [executor_response hm hreply h]
      rcases answerOf_accepted e.given hbody with ⟨rfl, -⟩ | ⟨-, texts, hwords, -⟩ | ⟨-, hx⟩
      · cases hmem
      · obtain ⟨t, -, ht⟩ := exists_of_forall₂ hwords hmem
        exact absurd herr ht.not_wordless
      · exact hx

/-- A request that does not break ends with an object or with an error of the remote. -/
theorem executor_cases (e : HttpEndpoint) (post : HttpMessage → StateM σ HttpAnswer) (r : Request) (s : σ) :
    (∃ f, Breaks e r (fun m => (post m s).1) f)
      ∨ (∃ data, (executor e post r s).1 = .data (.object data))
      ∨ (∃ status text, (executor e post r s).1 = .failed (.transport e.given status text))
      ∨ ∃ errors texts, (executor e post r s).1 = .failed (.reported errors texts) := by
  cases hm : message e r.payload with
  | error f =>
      obtain ⟨hheaders, hhost⟩ := message_eq_error_iff.mp hm
      exact .inl ⟨_, .hostless hheaders hhost⟩
  | ok m =>
      cases hx : (post m s).1 with
      | unreachable text =>
          refine .inr (.inr (.inl ⟨0, text, ?_⟩))
          rw [executor_sent hm, hx]
          rfl
      | response status body =>
          cases habs : e.target.isAbsolute with
          | false => exact .inl ⟨_, .placeless hm hx habs⟩
          | true =>
              rw [executor_response hm hx habs]
              rcases answerOf_cases e.given status body with ⟨text, h⟩ | ⟨rfl, data, errors, h⟩
              · exact .inr (.inr (.inl ⟨status, text, h⟩))
              · rcases answerOf_accepted e.given h with
                  ⟨-, ha⟩ | ⟨-, texts, -, ha⟩ | ⟨⟨err, hmem, herr⟩, -⟩
                · exact .inr (.inl ⟨data, ha⟩)
                · exact .inr (.inr (.inr ⟨errors, texts, ha⟩))
                · exact .inl ⟨_, .wordless hm hx habs h hmem herr⟩

/-- **A request breaks for these reasons only**, and is otherwise answered with an object or an error of
the remote. A response in the agreed form is answered with its data if it reports no errors, and errors
that are all known by a text are reported with these texts. What fails makes a failure of sourcing of the
request for the schema, or of the page; what breaks makes a fault of both. -/
theorem executor_kept (e : HttpEndpoint) (post : HttpMessage → StateM σ HttpAnswer) (r : Request) (s : σ) :
    let a := (executor e post r s).1
    (∀ f, a = .broken f ↔ Breaks e r (fun m => (post m s).1) f)
      ∧ ((∃ f, a = .broken f) ∨ (∃ data, a = .data (.object data))
        ∨ (∃ status text, a = .failed (.transport e.given status text))
        ∨ ∃ errors texts, a = .failed (.reported errors texts))
      ∧ (∀ m body data errors, message e r.payload = .ok m → (post m s).1 = .response okStatus body →
        e.target.isAbsolute = true → Accepted body data errors →
        (errors = [] → a = .data (.object data))
          ∧ (errors ≠ [] → (∀ err ∈ errors, ¬RemoteError.Wordless err) →
            ∃ texts, List.Forall₂ RemoteError.Words errors texts ∧ a = .failed (.reported errors texts)))
      ∧ (∀ err, a = .failed err → schemaOfAnswer a = .error (.schema (.request err))
        ∧ ∀ w : Walk, w.receive a = ([], .error (w.fetchFailure (.remote err))))
      ∧ ∀ f, a = .broken f → schemaOfAnswer a = .error (.fault f)
        ∧ ∀ w : Walk, w.receive a = ([], .error (.fault f)) := by
  intro a
  -- an answer is broken, data, a failed transport or reported errors; every part is read off from these four
  have hcases := executor_cases e post r s
  refine ⟨fun f => ⟨fun ha => ?_, executor_breaks⟩, ?_, ?_, ?_, ?_⟩
  · rcases hcases with ⟨f', hf'⟩ | ⟨data, h⟩ | ⟨status, text, h⟩ | ⟨errors, texts, h⟩
    · cases ha.symm.trans (executor_breaks hf')
      exact hf'
    · cases ha.symm.trans h
    · cases ha.symm.trans h
    · cases ha.symm.trans h
  · rcases hcases with ⟨f, hf⟩ | hkept
    · exact .inl ⟨f, executor_breaks hf⟩
    · exact .inr hkept
  · intro m body data errors hm hx habs h
    have ha : a = answerOf e.given (.response okStatus body) := executor_response hm hx habs
    rw [ha]
    rcases answerOf_accepted e.given h with
      ⟨hnil, hdata⟩ | ⟨hne, texts, hwords, hreported⟩ | ⟨⟨err, hmem, herr⟩, -⟩
    · exact ⟨fun _ => hdata, fun hne => absurd hnil hne⟩
    · exact ⟨fun hnil => absurd hnil hne, fun _ _ => ⟨texts, hwords, hreported⟩⟩
    · refine ⟨fun hnil => ?_, fun _ hwords => absurd herr (hwords err hmem)⟩
      rw [hnil] at hmem
      cases hmem
  · intro err ha
    rw [ha]
    exact ⟨rfl, fun _ => rfl⟩
  · intro f ha
    rw [ha]
    exact ⟨rfl, fun _ => rfl⟩

end Executor

end Http

/-! ## An error with a number for a message -/

namespace Sample

def endpoint : HttpEndpoint :=
  { given := "https://remote/graphql"
    target := { scheme := "https", userinfo := "", host := "remote", socket := none, path := "/graphql",
                query := none, fragment := none }
    headers := [("Host", "remote")] }

/-- A remote that reports an error whose message is the number five. -/
def numbering : HttpMessage → StateM Unit HttpAnswer := fun _ =>
  return .response Http.okStatus "\x7b\"errors\": [\x7b\"message\": 5\x7d]\x7d"

/-- Whether an answer is a fault of some kind. -/
def faultOf : Answer → Option Fault
  | .broken f => some f
  | _ => none

theorem faultOf_numbering :
    faultOf (Http.executor endpoint numbering introspectionRequest ()).1 = some .kind := by
  decide +kernel

/-- Such an error is not reported: asking for the schema ends with a fault. -/
theorem numbered_error_breaks :
    Http.Breaks endpoint introspectionRequest (fun m => (numbering m ()).1) .kind
      ∧ schemaOfAnswer (Http.executor endpoint numbering introspectionRequest ()).1
        = .error (.fault .kind) := by
  have hfault := faultOf_numbering
  obtain ⟨hbreaks, -, -, -, hfaults⟩ :=
    Http.executor_kept endpoint numbering introspectionRequest ()
  generalize hx : (Http.executor endpoint numbering introspectionRequest ()).1 = a at hfault ⊢
  cases a with
  | broken f =>
      cases hfault
      exact ⟨(hbreaks _).mp hx, (hx ▸ hfaults _ hx).1⟩
  | data v => cases hfault
  | failed e => cases hfault

end Sample

end Harvest
