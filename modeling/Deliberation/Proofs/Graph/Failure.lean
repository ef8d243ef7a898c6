import Deliberation.Proofs.Graph.Transcript
import Mathlib.Data.List.Permutation

/-!
Visitors that fail. A walk knows its visitor by the answers alone, so a visitor that answers as
another one does is led through the same calls. Where it fails, the walk ends at once: nothing that
was open is finished any more, and no child that was still to be looked at is visited.
-/

namespace Deliberation

/-- The failure that a call was answered with, if it was. -/
def Exchange.error? {ρ : Type} : Exchange ρ → Option Error
  | .visited _ _ _ (.error e) | .finished _ _ _ _ (.error e) => some e
  | _ => none

theorem Exchange.error?_visited {ρ : Type} {idea : Idea} {level : Nat} {above : Option ρ}
    {answer : Except Error (Outcome ρ)} {e : Error} :
    (Exchange.visited idea level above answer).error? = some e ↔ answer = .error e := by
  cases answer with
  | error cause => simp [error?]
  | ok outcome => simp [error?]

theorem Exchange.error?_finished {ρ : Type} {idea : Idea} {level : Nat} {own : Option ρ}
    {below : List ρ} {answer : Except Error (Option ρ)} {e : Error} :
    (Exchange.finished idea level own below answer).error? = some e ↔ answer = .error e := by
  cases answer with
  | error cause => simp [error?]
  | ok came => simp [error?]

namespace Visitor

variable {σ ρ : Type}

/-- Makes a call. Says what was answered, and the state of the visitor after it. -/
def respond (visitor : Visitor σ ρ) : Callback ρ → σ → Exchange ρ × σ
  | .visited idea level above, state =>
    match visitor.visit idea level above state with
    | (answer, after) => (.visited idea level above answer, after)
  | .finished idea level own below, state =>
    match visitor.finish idea level own below state with
    | (answer, after) => (.finished idea level own below answer, after)

/-- Makes some calls, one after another, whatever is answered. -/
def responses (visitor : Visitor σ ρ) : List (Callback ρ) → σ → List (Exchange ρ) × σ
  | [], state => ([], state)
  | call :: rest, state =>
    match visitor.respond call state with
    | (exchange, after) =>
      match visitor.responses rest after with
      | (exchanges, last) => (exchange :: exchanges, last)

variable {visitor : Visitor σ ρ} {state after : σ}

/-- A visitor that is called writes down the call that it got. -/
theorem call_respond (visitor : Visitor σ ρ) (call : Callback ρ) (state : σ) :
    (visitor.respond call state).1.call = call := by
  cases call with
  | visited => rfl
  | finished => rfl

/-- The answers to some calls and further ones are the answers to the first, and then those from the
state that these have led to. -/
theorem responses_append (first second : List (Callback ρ)) :
    visitor.responses (first ++ second) state =
      ((visitor.responses first state).1 ++
        (visitor.responses second (visitor.responses first state).2).1,
        (visitor.responses second (visitor.responses first state).2).2) := by
  induction first generalizing state with
  | nil => rfl
  | cons call rest ih => simp only [List.cons_append, responses, ih]

theorem length_responses (calls : List (Callback ρ)) :
    (visitor.responses calls state).1.length = calls.length := by
  induction calls generalizing state with
  | nil => rfl
  | cons call rest ih => simp only [responses, List.length_cons, ih]

/-- Called as a transcript has it, the visitor answers as the transcript has it. -/
def Repeats (visitor : Visitor σ ρ) (state : σ) (transcript : List (Exchange ρ)) (after : σ) :
    Prop :=
  visitor.responses (transcript.map Exchange.call) state = (transcript, after)

/-- A visitor repeats a transcript if it repeats its beginning, and then the rest from the state
that it has come to. -/
theorem repeats_append_iff {first second : List (Exchange ρ)} :
    visitor.Repeats state (first ++ second) after ↔
      ∃ between, visitor.Repeats state first between ∧ visitor.Repeats between second after := by
  unfold Repeats
  rw [List.map_append, responses_append]
  constructor
  · intro h
    obtain ⟨hexchanges, hafter⟩ := Prod.mk.inj h
    have hlength : (visitor.responses (first.map Exchange.call) state).1.length = first.length := by
      rw [length_responses, List.length_map]
    obtain ⟨hfirst, hsecond⟩ := List.append_inj hexchanges hlength
    exact ⟨_, Prod.ext hfirst rfl, Prod.ext hsecond hafter⟩
  · rintro ⟨between, hfirst, hsecond⟩
    rw [hfirst]
    simp only [hsecond]

/-- Called as a transcript has it, the visitor answers as the transcript has it until it fails in
one of the calls. -/
def FailsIn (visitor : Visitor σ ρ) (state : σ) (transcript made : List (Exchange ρ)) (e : Error)
    (after : σ) : Prop :=
  ∃ before now later reached failed, transcript = before ++ now :: later ∧
    visitor.Repeats state before reached ∧ visitor.respond now.call reached = (failed, after) ∧
    failed.error? = some e ∧ before ++ [failed] = made

theorem repeats_singleton_iff {exchange : Exchange ρ} :
    visitor.Repeats state [exchange] after ↔ visitor.respond exchange.call state =
      (exchange, after) := by
  simp [Repeats, responses, Prod.ext_iff]

/-- A visitor fails in a transcript of a single call if it answers this call by a failure. -/
theorem failsIn_singleton_iff {exchange : Exchange ρ} {made : List (Exchange ρ)} {e : Error} :
    visitor.FailsIn state [exchange] made e after ↔
      ∃ failed, visitor.respond exchange.call state = (failed, after) ∧ failed.error? = some e ∧
        [failed] = made := by
  constructor
  · rintro ⟨before, now, later, reached, failed, hsplit, hbefore, hfailed, herror, rfl⟩
    obtain ⟨rfl, hrest⟩ | ⟨more, rfl, hrest⟩ := List.cons_eq_append_iff.mp hsplit
    · obtain ⟨rfl, -⟩ := List.cons.inj hrest
      cases hbefore
      exact ⟨failed, hfailed, herror, rfl⟩
    · exact absurd hrest (by simp)
  · rintro ⟨failed, hfailed, herror, rfl⟩
    exact ⟨[], exchange, [], state, failed, rfl, rfl, hfailed, herror, rfl⟩

/-- A visitor that fails in a transcript fails in its beginning, or it repeats the beginning and
fails in the rest. -/
theorem FailsIn.append_cases {first second made : List (Exchange ρ)} {e : Error}
    (h : visitor.FailsIn state (first ++ second) made e after) :
    visitor.FailsIn state first made e after ∨
      ∃ between rest, visitor.Repeats state first between ∧
      visitor.FailsIn between second rest e after ∧ first ++ rest = made := by
  obtain ⟨before, now, later, reached, failed, hsplit, hbefore, hfailed, herror, rfl⟩ := h
  rcases List.append_eq_append_iff.mp hsplit with ⟨more, rfl, hsecond⟩ | ⟨more, rfl, hsecond⟩
  · obtain ⟨between, hfirst, hmore⟩ := repeats_append_iff.mp hbefore
    refine Or.inr ⟨between, more ++ [failed], hfirst, ?_, (List.append_assoc ..).symm⟩
    exact ⟨more, now, later, reached, failed, hsecond, hmore, hfailed, herror, rfl⟩
  · cases more with
    | nil =>
      refine Or.inr ⟨reached, [failed], by simpa using hbefore, ?_, by simp⟩
      exact ⟨[], now, later, reached, failed, hsecond.symm, rfl, hfailed, herror, rfl⟩
    | cons other rest =>
      obtain ⟨rfl, -⟩ := List.cons.inj hsecond
      exact Or.inl ⟨before, now, rest, reached, failed, rfl, hbefore, hfailed, herror, rfl⟩

end Visitor

namespace Attempt

variable {σ τ ρ α β : Type} {visitor : Visitor σ ρ} {failing : Visitor τ ρ}

/-- From a state on a computation that calls one visitor makes the calls of a transcript, and
another computation, which calls another visitor, makes them too as long as it gets the answers of
the transcript. Once it gets a failure instead, it fails. -/
structure MirrorsFrom (visitor : Visitor σ ρ) (failing : Visitor τ ρ)
    (x : Attempt (σ × List (Exchange ρ)) α) (y : Attempt (τ × List (Exchange ρ)) α)
    (s : σ × List (Exchange ρ)) (transcript : List (Exchange ρ)) : Prop where
  written : (x s).2.2 = s.2 ++ transcript
  repeats : visitor.Repeats s.1 transcript (x s).2.1
  goesOn : ∀ {start last log}, failing.Repeats start transcript last →
    y (start, log) = ((x s).1, last, log ++ transcript)
  stops : ∀ {start last made e log}, failing.FailsIn start transcript made e last →
    y (start, log) = (.error e, last, log ++ made)

/-- A computation makes the same calls as another one until a call fails. -/
def Mirrors (visitor : Visitor σ ρ) (failing : Visitor τ ρ) (x : Attempt (σ × List (Exchange ρ)) α)
    (y : Attempt (τ × List (Exchange ρ)) α) : Prop :=
  ∀ s, ∃ transcript, MirrorsFrom visitor failing x y s transcript

theorem Mirrors.yield (a : α) : Mirrors visitor failing (pure a) (pure a) := by
  intro s
  refine ⟨[], (List.append_nil _).symm, rfl, ?_, ?_⟩
  · rintro start last log ⟨⟩
    rw [List.append_nil]
    rfl
  · rintro start last made e log ⟨before, now, later, _, _, hnone, -⟩
    exact absurd hnone (by simp)

theorem Mirrors.bind {x : Attempt (σ × List (Exchange ρ)) α} {y : Attempt (τ × List (Exchange ρ)) α}
    {next : α → Attempt (σ × List (Exchange ρ)) β} {others : α → Attempt (τ × List (Exchange ρ)) β}
    (h : Mirrors visitor failing x y)
    (hnext : ∀ s a t, x s = (.ok a, t) → Mirrors visitor failing (next a) (others a)) :
    Mirrors visitor failing (x >>= next) (y >>= others) := by
  intro s
  obtain ⟨first, hfirst⟩ := h s
  obtain ⟨hwritten, hrepeats, hgoesOn, hstops⟩ := hfirst
  rcases hx : x s with ⟨e | a, t⟩
  · rw [hx] at hwritten hrepeats hgoesOn
    refine ⟨first, ?_, ?_, ?_, ?_⟩
    · rw [bind_of_error hx]
      exact hwritten
    · rw [bind_of_error hx]
      exact hrepeats
    · intro start last log hagain
      rw [bind_of_error hx]
      exact bind_of_error (hgoesOn hagain)
    · intro start last made cause log hfails
      exact bind_of_error (hstops hfails)
  · rw [hx] at hwritten hrepeats hgoesOn
    obtain ⟨second, hsecond⟩ := hnext s a t hx t
    refine ⟨first ++ second, ?_, ?_, ?_, ?_⟩
    · rw [bind_of_ok hx, hsecond.written, hwritten, List.append_assoc]
    · rw [bind_of_ok hx]
      exact Visitor.repeats_append_iff.mpr ⟨t.1, hrepeats, hsecond.repeats⟩
    · intro start last log hagain
      obtain ⟨between, hbetween, hrest⟩ := Visitor.repeats_append_iff.mp hagain
      rw [bind_of_ok hx, bind_of_ok (hgoesOn hbetween), hsecond.goesOn hrest, List.append_assoc]
    · intro start last made cause log hfails
      rcases hfails.append_cases with hearly | ⟨between, rest, hbetween, hlate, rfl⟩
      · exact bind_of_error (hstops hearly)
      · rw [bind_of_ok (hgoesOn hbetween), hsecond.stops hlate, List.append_assoc]

/-- The two visitors mirror each other wherever they are called: one call is one exchange. -/
theorem mirrors_visit (visitor : Visitor σ ρ) (failing : Visitor τ ρ) (idea : Idea) (level : Nat)
    (above : Option ρ) : Mirrors visitor failing (visitor.transcribed.visit idea level above)
      (failing.transcribed.visit idea level above) := by
  intro s
  refine ⟨[.visited idea level above (visitor.visit idea level above s.1).1], rfl, rfl, ?_, ?_⟩
  · intro start last log hagain
    obtain ⟨hanswer, rfl⟩ := Prod.mk.inj (Visitor.repeats_singleton_iff.mp hagain)
    injection hanswer with _ _ _ hanswer
    exact Visitor.transcribed_visit (Prod.ext hanswer rfl)
  · intro start last made e log hfails
    obtain ⟨failed, hfailed, herror, rfl⟩ := Visitor.failsIn_singleton_iff.mp hfails
    obtain ⟨rfl, rfl⟩ := Prod.mk.inj hfailed
    have hanswer := Exchange.error?_visited.mp herror
    rw [hanswer]
    exact Visitor.transcribed_visit (Prod.ext hanswer rfl)

theorem mirrors_finish (visitor : Visitor σ ρ) (failing : Visitor τ ρ) (idea : Idea) (level : Nat)
    (own : Option ρ) (below : List ρ) :
    Mirrors visitor failing (visitor.transcribed.finish idea level own below)
      (failing.transcribed.finish idea level own below) := by
  intro s
  refine ⟨[.finished idea level own below (visitor.finish idea level own below s.1).1], rfl,
    rfl, ?_, ?_⟩
  · intro start last log hagain
    obtain ⟨hanswer, rfl⟩ := Prod.mk.inj (Visitor.repeats_singleton_iff.mp hagain)
    injection hanswer with _ _ _ _ hanswer
    exact Visitor.transcribed_finish (Prod.ext hanswer rfl)
  · intro start last made e log hfails
    obtain ⟨failed, hfailed, herror, rfl⟩ := Visitor.failsIn_singleton_iff.mp hfails
    obtain ⟨rfl, rfl⟩ := Prod.mk.inj hfailed
    have hanswer := Exchange.error?_finished.mp herror
    rw [hanswer]
    exact Visitor.transcribed_finish (Prod.ext hanswer rfl)

end Attempt

namespace Walk

variable {graph : Graph} {σ τ ρ : Type}

/-- A step of the one walk makes the calls of a step of the other one. -/
theorem step_mirrors (visitor : Visitor σ ρ) (failing : Visitor τ ρ) (order : WalkOrder)
    (unseen : List graph.Node) (frame : Frame graph ρ) (outer : List (Frame graph ρ))
    (result : Option ρ) :
    Attempt.Mirrors visitor failing (step visitor.transcribed order unseen frame outer result)
      (step failing.transcribed order unseen frame outer result) := by
  unfold step
  split
  · split
    · exact (Attempt.mirrors_visit visitor failing _ _ _).bind fun _ _ _ _ => .yield _
    · exact .yield _
  · exact .yield _
  · exact (Attempt.mirrors_finish visitor failing _ _ _ _).bind fun _ _ _ _ => .yield _
  · exact (Attempt.mirrors_finish visitor failing _ _ _ _).bind fun _ _ _ _ => .yield _

/-- By induction on the steps, so does all that is left of the walk. -/
theorem run_mirrors (visitor : Visitor σ ρ) (failing : Visitor τ ρ) (order : WalkOrder)
    (progress : Progress graph ρ) :
    Attempt.Mirrors visitor failing (run visitor.transcribed order progress)
      (run failing.transcribed order progress) := by
  induction progress using run.induct visitor.transcribed order with
  | case1 unseen result =>
    have hnone {υ : Type} (other : Visitor υ ρ) :
        run other order (⟨unseen, [], result⟩ : Progress graph ρ) = pure result := by
      funext s
      rw [run]
      rfl
    rw [hnone, hnone]
    exact .yield result
  | case2 unseen frame outer result ih =>
    rw [run_cons, run_cons]
    exact (step_mirrors visitor failing order unseen frame outer result).bind fun s after t hstep =>
      ih s after t hstep

end Walk

/-- A walk makes the same calls as the one with another visitor until a call fails. -/
theorem Graph.walk_mirrors {σ τ ρ : Type} (graph : Graph) (visitor : Visitor σ ρ)
    (failing : Visitor τ ρ) (order : WalkOrder) (root : Id) : Attempt.Mirrors visitor failing
      (graph.walk order visitor.transcribed root) (graph.walk order failing.transcribed root) := by
  unfold Graph.walk
  split
  · exact .yield none
  · refine (Attempt.mirrors_visit visitor failing _ _ _).bind fun _ outcome _ _ => ?_
    cases outcome with
    | proceed value => exact Walk.run_mirrors visitor failing order _
    | cut => exact Attempt.mirrors_finish visitor failing _ _ _ _

structure Visitor.FailsAfter {σ τ ρ : Type} (visitor : Visitor σ ρ) (state : σ)
    (failing : Visitor τ ρ) (start : τ) (calls : List (Callback ρ)) (call : Callback ρ)
    (e : Error) : Prop where
  alike : (failing.responses calls start).1 = (visitor.responses calls state).1
  fails : (failing.respond call (failing.responses calls start).2).1.error? = some e

/-- A visitor that answers the first calls alike and the next one by a failure fails in a transcript
that begins with them. -/
theorem Visitor.FailsAfter.failsIn {σ τ ρ : Type} {visitor : Visitor σ ρ} {state after : σ}
    {failing : Visitor τ ρ} {start : τ} {transcript before later : List (Exchange ρ)}
    {now : Exchange ρ} {e : Error}
    (h : visitor.FailsAfter state failing start (before.map Exchange.call) now.call e)
    (hrepeats : visitor.Repeats state transcript after)
    (hsplit : transcript = before ++ now :: later) :
    ∃ failed last, failing.FailsIn start transcript (before ++ [failed]) e last ∧
      failed.call = now.call := by
  obtain ⟨between, hbefore, -⟩ := repeats_append_iff.mp (hsplit ▸ hrepeats)
  let reached := (failing.responses (before.map Exchange.call) start).2
  have hsame : failing.Repeats start before reached := by
    refine Prod.ext ?_ rfl
    exact h.alike.trans (congrArg Prod.fst hbefore)
  exact ⟨_, _, ⟨before, now, later, reached, _, hsplit, hsame, rfl, h.fails, rfl⟩,
    failing.call_respond now.call reached⟩

/-- A visitor that answers the calls of a walk as another visitor does, but fails in call number
`k`, counted from zero, is led through the calls up to that one and through no other. The walk fails
with its failure. -/
theorem Graph.walk_stops_at_failure {graph : Graph} {σ τ ρ : Type} {visitor : Visitor σ ρ}
    {failing : Visitor τ ρ}
    {order : WalkOrder} {root : Id} {state after : σ} {start : τ} {result : Except Error (Option ρ)}
    {transcript : List (Exchange ρ)} {k : Nat} {call : Callback ρ} {e : Error}
    (hwalk : graph.walk order visitor.transcribed root (state, []) = (result, after, transcript))
    (hcall : (transcript.map Exchange.call)[k]? = some call)
    (hfails :
      visitor.FailsAfter state failing start ((transcript.map Exchange.call).take k) call e) :
    ∃ last exchanges, graph.walk order failing.transcribed root (start, []) =
      (.error e, last, exchanges) ∧
      exchanges.map Exchange.call = (transcript.map Exchange.call).take (k + 1) ∧
      graph.walk order failing root start = (.error e, last) := by
  obtain ⟨mirrored, hwritten, hrepeats, -, hstops⟩ :=
    graph.walk_mirrors visitor failing order root (state, [])
  rw [hwalk] at hwritten hrepeats
  obtain rfl : transcript = mirrored := hwritten
  obtain ⟨now, hnow, rfl⟩ := Option.map_eq_some_iff.mp (List.getElem?_map .. ▸ hcall)
  obtain ⟨hk, hget⟩ := List.getElem?_eq_some_iff.mp hnow
  have hsplit : transcript = transcript.take k ++ now :: transcript.drop (k + 1) := by
    rw [← hget, List.getElem_cons_drop, List.take_append_drop]
  rw [← List.map_take] at hfails
  obtain ⟨failed, last, hfailsIn, hsame⟩ := hfails.failsIn hrepeats hsplit
  have hfailing : graph.walk order failing.transcribed root (start, []) = _ := hstops hfailsIn
  refine ⟨last, _, hfailing, ?_, ?_⟩
  · rw [List.nil_append, ← List.map_take, List.take_add_one, hnow, List.map_append, List.map_append,
      List.map_singleton, hsame]
    rfl
  · have hfollows := Graph.walk_follows (failing.transcribed_follows graph) order root (start, [])
    rw [hfailing] at hfollows
    exact hfollows.symm

/-- The walk in breadth from the first of the four ideas, as it is taken down. -/
def Graph.aroundFirst (recorder : Recorder) :=
  (ofParts roundabout.1 roundabout.2).walk .breadthFirst recorder.visitor.transcribed 1 ([], [])

/-- Where the end of the second idea fails, the third one has been visited. Neither it nor the first
one is finished. -/
theorem Graph.around_first_stops_at_second :
    ∃ last exchanges, aroundFirst { cut := [3], failEnd := some 2 } =
        (.error (.validation (.told "end 2")), last, exchanges) ∧
      (exchanges.map Exchange.call).filterMap Callback.visitedIdea? = roundabout.1.take 3 ∧
      (exchanges.map Exchange.call).filterMap Callback.finishedIdea? = [roundabout.1[1]] := by
  let edges : List (Edge 4) :=
    [⟨0, 1, 1, .zero⟩, ⟨1, 0, 2, .zero⟩, ⟨1, 1, 3, .zero⟩, ⟨1, 2, 4, .zero⟩,
      ⟨0, 2, 5, .zero⟩, ⟨2, 3, 6, .zero⟩]
  have hgraph : ofParts roundabout.1 roundabout.2 = ⟨roundabout.1, edges⟩ := rfl
  have hnode : (⟨roundabout.1, edges⟩ : Graph).node? 1 = some ⟨0, by decide⟩ := rfl
  have hwritten : (aroundFirst { cut := [3] }).2.2 = [
      .visited roundabout.1[0] 0 none (.ok (.proceed [1])),
      .visited roundabout.1[1] 1 (some [1]) (.ok (.proceed [2])),
      .visited roundabout.1[2] 1 (some [1]) (.ok .cut),
      .finished roundabout.1[1] 1 (some [2]) [] (.ok (some [2])),
      .finished roundabout.1[2] 1 none [] (.ok none),
      .finished roundabout.1[0] 0 (some [1]) [[2]] (.ok (some [1, 2]))] := by
    rw [aroundFirst, hgraph, walk, hnode]
    cbv
  have hwalk : aroundFirst { cut := [3] } =
      ((aroundFirst { cut := [3] }).1, (aroundFirst { cut := [3] }).2.1, _) :=
    congrArg (fun written => (_, _, written)) hwritten
  have hfails : (Recorder.visitor { cut := [3] }).FailsAfter []
      (Recorder.visitor { cut := [3], failEnd := some 2 }) []
      [.visited roundabout.1[0] 0 none, .visited roundabout.1[1] 1 (some [1]),
        .visited roundabout.1[2] 1 (some [1])]
      (.finished roundabout.1[1] 1 (some [2]) []) (.validation (.told "end 2")) := by
    constructor
    · rfl
    · rfl
  obtain ⟨last, exchanges, hfailing, hcalls, -⟩ := walk_stops_at_failure (k := 3) hwalk rfl hfails
  refine ⟨last, exchanges, hfailing, ?_, ?_⟩
  · rw [hcalls]
    rfl
  · rw [hcalls]
    rfl

end Deliberation
