import Harvest.Proofs.Paging.Outcomes

/-!
# Streaming and merging

The pages of a listing can be walked through in two ways: `Walk.run` hands over the records of every page
as it comes, and `Walk.collect` puts all pages together. `collect_alike` says that it makes no difference
which way is taken: turn by turn both send the same requests, both break off with the same failure, and
when they come to their end the records that were handed over are the items of what was put together.

What carries the proof is that one answer does the same to both. As the numbers of a walk are integers, a
page that has no items makes both fail alike (`receive_alike`).
-/

namespace Harvest

/-! ## One answer

What an answer does to the walk that hands over, what it does to the walk that merges, and that both go on
or fail together. -/

namespace LimitOffset

/-- The state after a page, where the variables are integers. -/
theorem next_eq (limit offset : Int) (goesOn : Bool) (page : Value) :
    next ⟨pageVariables (.int limit) (.int offset), goesOn⟩ page
      = (items page).map fun vs =>
          let size := if limit = 0 then defaultLimit else limit
          ⟨pageVariables (.int size) (.int (offset + size)), decide (size ≤ vs.length)⟩ := by
  show (do
    let l ← LimitOffset.limit (.int limit)
    let o ← LimitOffset.offset (.int offset)
    let count := (← items page).length
    return ⟨pageVariables (.int l) (.int (o + l)), decide (l ≤ count)⟩ : Except Fault PageState) = _
  have hl : LimitOffset.limit (.int limit) = .ok (if limit = 0 then defaultLimit else limit) := rfl
  rw [hl, offset_int]
  cases items page with
  | error f => rfl
  | ok vs => rfl

/-- Two pages put together have the items of both. -/
theorem concat_ok {before page : Value} {xs ys : List Value} (hx : items before = .ok xs)
    (hy : items page = .ok ys) :
    ∃ v, concat before page = .ok v ∧ items v = .ok (xs ++ ys) := by
  refine ⟨.record [(entitiesField, .list (xs ++ ys))], ?_, items_list _⟩
  simp only [concat, hx, hy, bind, Except.bind, pure, Except.pure]

theorem concat_error {before page : Value} {xs : List Value} {f : Fault} (hx : items before = .ok xs)
    (hy : items page = .error f) : concat before page = .error f := by
  simp only [concat, hx, hy, bind, Except.bind]

end LimitOffset

namespace Walk

variable {doc : CompiledDocument} {l : String} {size : Int} {w : Walk} {before : Option Value}
  {vs : List Value}

/-- Whether a walk of a document in a language goes by limit and offset, which are integers. -/
def Counts (doc : CompiledDocument) (l : String) (size : Int) (w : Walk) : Prop :=
  ∃ limit offset goesOn, w =
    { document := doc, language := l, paging := .bySize size
      state := ⟨LimitOffset.pageVariables (.int limit) (.int offset), goesOn⟩ }

/-- Whether the pages that were put together have certain items. Before the first page there are none. -/
def Holds (before : Option Value) (vs : List Value) : Prop :=
  match before with
  | none => vs = []
  | some v => LimitOffset.items v = .ok vs

/-! ### The step of both ways

The state of a walk by limit and offset depends on the number of items only. So the walk that merges asks for
the same pages as the one that streams, although it gives its state the pages put together. -/

theorem counts_start : Counts doc l size (start doc l ⟨.int size⟩) := ⟨size, 0, true, rfl⟩

/-- A walk goes by the items of a page, and nothing else of it. -/
theorem Counts.advance (hw : Counts doc l size w) (page : Value) :
    (∃ ys w', LimitOffset.items page = .ok ys ∧ w.advance page = .ok w' ∧ Counts doc l size w')
      ∨ ∃ f, LimitOffset.items page = .error f ∧ w.advance page = .error (.fault f) := by
  obtain ⟨limit, offset, goesOn, rfl⟩ := hw
  have hnext : (PagingStrategy.bySize size).next
      ⟨LimitOffset.pageVariables (.int limit) (.int offset), goesOn⟩ page
      = (LimitOffset.next ⟨LimitOffset.pageVariables (.int limit) (.int offset), goesOn⟩ page).mapError
          Failure.fault := rfl
  rw [LimitOffset.next_eq] at hnext
  cases hi : LimitOffset.items page with
  | ok ys =>
      rw [hi] at hnext
      let count := if limit = 0 then LimitOffset.defaultLimit else limit
      refine .inl ⟨ys, _, rfl, ?_, count, offset + count, decide (count ≤ ys.length), rfl⟩
      rw [Walk.advance, hnext]
      rfl
  | error f =>
      rw [hi] at hnext
      refine .inr ⟨f, rfl, ?_⟩
      rw [Walk.advance, hnext]
      rfl

theorem Counts.items (hw : Counts doc l size w) (page : Value) :
    w.paging.items page = (LimitOffset.items page).mapError .fault := by
  obtain ⟨limit, offset, goesOn, rfl⟩ := hw
  rfl

/-- What merging makes of a page that has items. -/
theorem Counts.merge_ok {a : Answer} {page : Value} {ys : List Value} {w' : Walk}
    (hw : Counts doc l size w) (hb : Holds before vs) (hp : w.page a = .ok page)
    (hi : LimitOffset.items page = .ok ys) (hadv : w.advance page = .ok w') :
    ∃ v, w.merge before a = .ok (v, w') ∧ LimitOffset.items v = .ok (vs ++ ys) := by
  cases before with
  | none =>
      cases hb
      refine ⟨page, ?_, hi⟩
      simp only [merge, hp, hadv, bind, Except.bind, pure, Except.pure]
  | some b =>
      obtain ⟨v, hv, hitems⟩ := LimitOffset.concat_ok hb hi
      refine ⟨v, ?_, hitems⟩
      have hconcat : w.paging.concat b page = .ok v := by
        obtain ⟨limit, offset, goesOn, rfl⟩ := hw
        show (LimitOffset.concat b page).mapError Failure.fault = _
        rw [hv]
        rfl
      simp only [merge, hp, hconcat, hadv, bind, Except.bind, pure, Except.pure]

/-- What merging makes of a page that has no items: it fails where the pages are put together, or else
where the next state is asked for. -/
theorem Counts.merge_error {a : Answer} {page : Value} {f : Fault} (hw : Counts doc l size w)
    (hb : Holds before vs) (hp : w.page a = .ok page) (hi : LimitOffset.items page = .error f)
    (hadv : w.advance page = .error (.fault f)) : w.merge before a = .error (.fault f) := by
  cases before with
  | none => simp only [merge, hp, hadv, bind, Except.bind]
  | some b =>
      have hconcat : w.paging.concat b page = .error (.fault f) := by
        obtain ⟨limit, offset, goesOn, rfl⟩ := hw
        show (LimitOffset.concat b page).mapError Failure.fault = _
        rw [LimitOffset.concat_error hb hi]
        rfl
      simp only [merge, hp, hconcat, bind, Except.bind]

/-- **One answer does the same to both ways.** Either both fail, and for the same reason, or the items of a
page are handed over on one way and put behind the earlier ones on the other. -/
theorem Counts.receive_alike (hw : Counts doc l size w) (hb : Holds before vs) (a : Answer) :
    (∃ e, w.receive a = ([], .error e) ∧ w.merge before a = .error e)
      ∨ ∃ ys w' v, w.receive a = (doc.definition.records l ys, .ok w')
          ∧ w.merge before a = .ok (v, w') ∧ LimitOffset.items v = .ok (vs ++ ys)
          ∧ Counts doc l size w' := by
  cases hp : w.page a with
  | error e =>
      refine .inl ⟨e, ?_, ?_⟩
      · rw [receive, hp]
      · simp only [merge, hp, bind, Except.bind]
  | ok page =>
      rcases hw.advance page with ⟨ys, w', hi, hadv, hw'⟩ | ⟨f, hi, hadv⟩
      · obtain ⟨v, hmerge, hv⟩ := hw.merge_ok hb hp hi hadv
        refine .inr ⟨ys, w', v, ?_, hmerge, hv, hw'⟩
        have hrecords : w.records ys = doc.definition.records l ys := by
          obtain ⟨limit, offset, goesOn, rfl⟩ := hw
          rfl
        rw [receive, hp]
        dsimp only
        rw [hw.items, hi]
        show (w.records ys, w.advance page) = _
        rw [hrecords, hadv]
      · refine .inl ⟨.fault f, ?_, hw.merge_error hb hp hi hadv⟩
        rw [receive, hp]
        dsimp only
        rw [hw.items, hi]
        rfl

end Walk

/-! ## All answers

The induction, with the items that were handed over so far and those that were put together as what it
carries. -/

/-- Surroundings in which a remote answers by a request and those before it, and in which a walk is
cancelled from the beginning or never. They keep a list of what is done. -/
def Surroundings.replying (reply : List Request → Request → Answer) (cancelled : Bool) :
    Surroundings (List Walk.Act) where
  ask r := fun acts => (reply (Walk.requests acts) r, acts ++ [.asked r])
  cancelled _ := cancelled
  emit r acts := acts ++ [.yielded r]

namespace Walk

/-- How the two ways stand after as many turns: both are under way, both broke off with the same failure,
or both came to their end. Then the records handed over are those items of the merged pages that name the
type as their own.

A failure of a request and a cancellation have their messages, which are the same in both. A fault is only
of a kind and has no message: that two faults are alike says that an answer was misused in the same way. -/
inductive Alike (doc : CompiledDocument) (l : String) (handed : List EntityRecord) :
    Option (Except Failure Unit) → Option (Except Failure (Option Value)) → Prop
  | running : Alike doc l handed none none
  | failed (e : Failure) : Alike doc l handed (some (.error e)) (some (.error e))
  | ended {merged : Value} {vs : List Value} (hv : LimitOffset.items merged = .ok vs)
      (hs : Shows doc l handed (vs.filter (Value.isOf doc.typeName))) :
      Alike doc l handed (some (.ok ())) (some (.ok (some merged)))

section Turns

variable {doc : CompiledDocument} {l : String} {size : Int} {w : Walk} {before : Option Value}
  {vs : List Value} {acts : List Act} {reply : List Request → Request → Answer} {cancelled : Bool}
  {turns : Nat}

theorem emit_replying (rs : List EntityRecord) :
    rs.foldl (fun acts r => (Surroundings.replying reply cancelled).emit r acts) acts
      = acts ++ rs.map .yielded := by
  induction rs generalizing acts with
  | nil => simp
  | cons r rs ih =>
      rw [List.foldl_cons, ih, List.map_cons, List.append_cons]
      rfl

/-! ### The induction -/

theorem requests_asks (rs : List Request) : requests (rs.map .asked) = rs := by
  induction rs with
  | nil => rfl
  | cons r rs ih => rw [List.map_cons, requests_asked, ih]

theorem turn_ne_finished (h : w.state.hasNext = true) (cancelled : Bool) :
    w.turn cancelled ≠ .finished := by
  intro hturn
  rw [turn, h] at hturn
  simp only [Bool.not_true, Bool.false_eq_true, if_false] at hturn
  split at hturn
  · cases hturn
  · split at hturn <;> cases hturn

/-- The records of some items come behind those of earlier ones. -/
theorem Shows.append {rs rs' : List EntityRecord} {xs ys : List Value} (h : Shows doc l rs xs)
    (h' : Shows doc l rs' ys) : Shows doc l (rs ++ rs') (xs ++ ys) := by
  unfold Shows at *
  rw [List.map_append, List.map_append, h, h']

/-- From wherever both ways stand alike, they go on alike. The induction is on the turns that are left;
what was handed over so far and what was put together so far have the same items. -/
theorem collect_alike_from (hw : Counts doc l size w) (hb : Holds before vs)
    (hfirst : before = none → w.state.hasNext = true)
    (hs : Shows doc l (yields acts) (vs.filter (Value.isOf doc.typeName))) :
    (w.collect (.replying reply cancelled) turns before ((requests acts).map .asked)).2
        = (requests (w.run (.replying reply cancelled) turns acts).2).map .asked
      ∧ Alike doc l (yields (w.run (.replying reply cancelled) turns acts).2)
          (w.run (.replying reply cancelled) turns acts).1
          (w.collect (.replying reply cancelled) turns before ((requests acts).map .asked)).1 := by
  induction turns generalizing w before vs acts with
  | zero => exact ⟨rfl, .running⟩
  | succ turns ih =>
      rw [run, collect]
      have hcancelled (s : List Act) : (Surroundings.replying reply cancelled).cancelled s = cancelled :=
        rfl
      rw [hcancelled, hcancelled]
      cases hturn : w.turn cancelled with
      | finished =>
          cases before with
          | none =>
              -- Before the first page a walk is not at its end.
              exact absurd hturn (turn_ne_finished (hfirst rfl) cancelled)
          | some v => exact ⟨rfl, .ended hb hs⟩
      | failed e => exact ⟨rfl, .failed e⟩
      | ask r =>
          have hreply : (Surroundings.replying reply cancelled).ask r ((requests acts).map .asked)
              = (reply (requests acts) r, (requests (acts ++ [.asked r])).map .asked) := by
            show (reply (requests ((requests acts).map .asked)) r, _) = _
            rw [requests_asks, requests_append, List.map_append]
            rfl
          have hask : (Surroundings.replying reply cancelled).ask r acts
              = (reply (requests acts) r, acts ++ [.asked r]) := rfl
          dsimp only
          rw [hreply, hask]
          dsimp only
          rcases hw.receive_alike hb (reply (requests acts) r) with
            ⟨e, hreceive, hmerge⟩ | ⟨ys, w', v, hreceive, hmerge, hv, hw'⟩
          · rw [hreceive, hmerge]
            exact ⟨rfl, .failed e⟩
          · rw [hreceive, hmerge]
            dsimp only
            rw [emit_replying]
            -- What was sent does not change with the records that are handed over.
            have hsent : requests (acts ++ [.asked r])
                = requests (acts ++ [.asked r] ++ (doc.definition.records l ys).map .yielded) := by
              rw [requests_append _ (List.map _ _), requests_yielded, List.append_nil]
            rw [hsent]
            refine ih hw' hv (fun hnone => absurd hnone (Option.some_ne_none v)) ?_
            have hyields : yields (acts ++ [.asked r] ++ (doc.definition.records l ys).map .yielded)
                = yields acts ++ doc.definition.records l ys := by
              simp [yields]
            rw [hyields, List.filter_append]
            exact hs.append (shows_records ys)

/-- **Streaming and merging agree**, for every remote and after any number of turns: the merging walk has
sent the requests of the streaming one, in their order, and both stand alike.

Where both break off, the failures are equal as far as a `Failure` goes: with their messages for what a
request or a cancellation ends in, by their kind for a fault of the runtime, which carries no text. As the
requests are the same ones, it is the same answer at which both break off. -/
theorem collect_alike (doc : CompiledDocument) (l : String) (size : Int)
    (reply : List Request → Request → Answer) (cancelled : Bool) (turns : Nat) :
    let streamed := (start doc l ⟨.int size⟩).run (.replying reply cancelled) turns []
    let merged := (start doc l ⟨.int size⟩).collect (.replying reply cancelled) turns none []
    merged.2 = (requests streamed.2).map .asked
      ∧ Alike doc l (yields streamed.2) streamed.1 merged.1 := by
  have hnone : Holds none [] := rfl
  have hshows : Shows doc l (yields []) ([].filter (Value.isOf doc.typeName)) := rfl
  exact collect_alike_from counts_start hnone (fun _ => rfl) hshows

end Turns

end Walk

end Harvest
