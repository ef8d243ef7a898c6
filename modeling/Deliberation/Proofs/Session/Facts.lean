import Deliberation.Proofs.Aggregation.Facts
import Deliberation.Proofs.Evaluation

/-!
Facts about content in any order. Whether a tie or an action is accepted depends on posts and ideas,
which no such fact changes; and what is told afterwards depends on which facts have been accepted.
Only the room for rows is used up by them, so that it runs out either in all orders or in none.
-/

namespace Deliberation

open Store

inductive Fact where
  | tie (new : NewContentLink)
  | action (new : NewAction)
deriving DecidableEq, Repr

namespace Fact

def request : Fact → Request
  | .tie new => .linkContent new
  | .action new => .recordAction new

def isTie : Fact → Bool
  | .tie _ => true
  | .action _ => false

/-- What a store says to a fact, as long as there is room for it. -/
def verdict (store : Store) : Fact → Except Error Unit
  | .tie new => store.requireTieable new
  | .action new => (store.requirePost new.post).map fun _ => ()

/-- What the database says about a fact when it adds the row. -/
def step : Fact → String
  | .tie _ => "insert content link"
  | .action _ => "insert post action"

def addTo (now : Timestamp) (store : Store) : Fact → Store
  | .tie new => { store with
      contents :=
        store.contents.push ⟨new.idea, new.post, new.kind, new.important, new.creator, now⟩ }
  | .action new =>
    { store with actions := store.actions.push ⟨new.kind, new.actor, new.post, now, none⟩ }

def Ties (post idea : Id) : Fact → Prop
  | .tie new => new.post = post ∧ new.idea = some idea ∧
      (new.kind = .relatedPost ∨ new.kind = .extract)
  | .action _ => False

/-- The fact is that an agent has read a post. -/
def Reads (agent post : Id) (fact : Fact) : Prop := fact = .action ⟨.read, agent, post⟩

end Fact

namespace Store

variable {store after one other : Store} {fact : Fact} {facts : List Fact} {now : Timestamp}

/-- The number of rows of one of the two tables. -/
def rowCount (store : Store) : Bool → Nat
  | true => store.contents.size
  | false => store.actions.size

/-- A fact is accepted if there is room for it. -/
def admits (store : Store) (fact : Fact) : Bool := (fact.verdict store).isOk

theorem admits_iff : store.admits fact ↔ fact.verdict store = .ok () := by
  unfold admits
  cases fact.verdict store with
  | ok u => simp [Except.isOk, Except.toBool]
  | error e => simp [Except.isOk, Except.toBool]

/-- No fact changes what is said to the other ones. -/
@[simp]
theorem verdict_addTo (other : Fact) :
    other.verdict (fact.addTo now store) = other.verdict store := by
  cases fact <;> cases other <;> rfl

@[simp]
theorem admits_addTo (other : Fact) : (fact.addTo now store).admits other = store.admits other := by
  rw [admits, verdict_addTo, admits]

theorem rowCount_addTo (isTie : Bool) : (fact.addTo now store).rowCount isTie =
    store.rowCount isTie + if fact.isTie = isTie then 1 else 0 := by
  cases fact <;> cases isTie <;> simp [Fact.addTo, Fact.isTie, rowCount]

/-- After one fact more a post is tied to what it was tied to before, and to what the fact ties it
to. -/
theorem tiedTo_addTo {post idea : Id} :
    (fact.addTo now store).TiedTo post idea ↔ store.TiedTo post idea ∨ fact.Ties post idea := by
  cases fact with
  | action new => exact (or_iff_left id).symm
  | tie new =>
    simp only [TiedTo, Fact.addTo, Table.get?_push_eq_some_iff, Fact.Ties]
    constructor
    · rintro ⟨content, row, ⟨-, rfl⟩ | hold, hpost, hnames, hpositive⟩
      · exact Or.inr ⟨hpost, hnames, hpositive⟩
      · exact Or.inl ⟨content, row, hold, hpost, hnames, hpositive⟩
    · rintro (⟨content, row, hold, htied⟩ | hnew)
      · exact ⟨content, row, Or.inr hold, htied⟩
      · exact ⟨_, _, Or.inl ⟨rfl, rfl⟩, hnew⟩

/-- After one fact more an agent has read what it had read before, and what the fact says. -/
theorem readBy_addTo {agent post : Id} :
    (fact.addTo now store).ReadBy agent post ↔ store.ReadBy agent post ∨ fact.Reads agent post := by
  cases fact with
  | tie new => exact (or_iff_left (by simp [Fact.Reads])).symm
  | action new =>
    have hactions : ((Fact.action new).addTo now store).actions =
        store.actions.push ⟨new.kind, new.actor, new.post, now, none⟩ := rfl
    unfold ReadBy
    simp only [hasAction_push hactions, exists_or, Fact.Reads, Fact.action.injEq, exists_eq_left']

/-! ## Room -/

/-- How many of some facts get a row in one of the tables. -/
def newcomers (store : Store) (facts : List Fact) (isTie : Bool) : Nat :=
  facts.countP fun fact => fact.isTie == isTie && store.admits fact

/-- There are row numbers for all facts that are accepted. -/
def HasRoom (store : Store) (facts : List Fact) : Prop :=
  ∀ isTie, store.newcomers facts isTie = 0 ∨
    store.rowCount isTie + store.newcomers facts isTie ≤ Table.capacity

theorem newcomers_cons (isTie : Bool) : store.newcomers (fact :: facts) isTie =
    store.newcomers facts isTie + if fact.isTie = isTie ∧ store.admits fact then 1 else 0 := by
  simp [newcomers, List.countP_cons]

theorem newcomers_addTo (isTie : Bool) : (fact.addTo now store).newcomers facts isTie =
    store.newcomers facts isTie := by
  simp only [newcomers, admits_addTo]

theorem hasRoom_cons_of_refused (h : ¬store.admits fact) :
    store.HasRoom (fact :: facts) ↔ store.HasRoom facts := by
  simp [HasRoom, newcomers_cons, h]

/-- An accepted fact takes up one row of the room that there is. -/
theorem hasRoom_cons_of_taken (h : store.admits fact)
    (hfits : store.rowCount fact.isTie < Table.capacity) :
    store.HasRoom (fact :: facts) ↔ (fact.addTo now store).HasRoom facts := by
  refine forall_congr' fun isTie => ?_
  rw [newcomers_cons, newcomers_addTo, rowCount_addTo]
  by_cases hsame : fact.isTie = isTie
  · subst hsame
    simp only [h, and_self, if_true]
    omega
  · simp only [hsame, false_and, if_false]
    omega

/-- Where there is room for some facts there is room for the first one. -/
theorem HasRoom.fits (h : store.HasRoom (fact :: facts)) (hadmits : store.admits fact) :
    store.rowCount fact.isTie < Table.capacity := by
  have hroom := h fact.isTie
  rw [newcomers_cons, if_pos ⟨rfl, hadmits⟩] at hroom
  omega

theorem hasRoom_congr {others : List Fact} (h : facts.Perm others) :
    store.HasRoom facts ↔ store.HasRoom others :=
  forall_congr' fun isTie => by rw [newcomers, newcomers, h.countP_eq]

/-! ## What is learned -/

structure Learns (store : Store) (facts : List Fact) (after : Store) : Prop where
  rest : after = { store with contents := after.contents, actions := after.actions }
  ties : ∀ post idea, after.TiedTo post idea ↔
    store.TiedTo post idea ∨ ∃ fact ∈ facts, store.admits fact ∧ fact.Ties post idea
  reads : ∀ agent post, after.ReadBy agent post ↔
    store.ReadBy agent post ∨ ∃ fact ∈ facts, store.admits fact ∧ fact.Reads agent post

namespace Learns

theorem nil (store : Store) : store.Learns [] store := ⟨rfl, by simp, by simp⟩

theorem cons_of_refused (h : store.Learns facts after) (hrefused : ¬store.admits fact) :
    store.Learns (fact :: facts) after :=
  ⟨h.rest, by simpa [hrefused] using h.ties, by simpa [hrefused] using h.reads⟩

/-- What is learned from an accepted fact and further ones is the fact and what is learned from the
others after it. -/
theorem cons_of_taken (h : (fact.addTo now store).Learns facts after)
    (hadmits : store.admits fact) : store.Learns (fact :: facts) after := by
  refine ⟨?_, fun post idea => ?_, fun agent post => ?_⟩
  · rw [h.rest]
    cases fact <;> rfl
  · simp only [h.ties, tiedTo_addTo, admits_addTo, List.exists_mem_cons_iff, hadmits, true_and,
      or_assoc]
  · simp only [h.reads, readBy_addTo, admits_addTo, List.exists_mem_cons_iff, hadmits, true_and,
      or_assoc]

/-- The same facts in another order leave the same behind. -/
theorem tellsSame {others : List Fact} (h : store.Learns facts one)
    (hother : store.Learns others other) (hsame : facts.Perm others) : one.TellsSame other := by
  refine ⟨?_, fun post idea => ?_, fun agent post => ?_⟩
  · rw [h.rest]
    exact hother.rest
  · simp only [h.ties, hother.ties, hsame.mem_iff]
  · simp only [h.reads, hother.reads, hsame.mem_iff]

end Learns

end Store

namespace Session

variable {now : Timestamp} {fact : Fact} {session : Session} {calls : List (Timestamp × Fact)}

/-- What a session says to a fact: that it has been recorded, or why it has not. -/
def answer (now : Timestamp) (fact : Fact) (session : Session) : Except Error Unit :=
  (perform now fact.request session).1.map fun _ => ()

/-- What a session says to some facts, one after another. -/
def answers : List (Timestamp × Fact) → Session → List (Except Error Unit)
  | [], _ => []
  | (now, fact) :: rest, session =>
    session.answer now fact :: answers rest (perform now fact.request session).2

def learn (calls : List (Timestamp × Fact)) (session : Session) : Session :=
  carryOut (calls.map fun call => (call.1, call.2.request)) session

def IsFull (answer : Except Error Unit) : Prop :=
  ∃ step, answer = .error (.database (.during step .full))

/-- A request that looks, adds a row and answers with its number fails for what it has seen, or else
for lack of room. -/
theorem map_look_addRow {α ρ β : Type} {look : Store → Except Error α} {step : String}
    {table : Store → Table ρ} {place : Table ρ → Store → Store} {row : ρ} {reply : Id → β}
    (store : Store) :
    (((Attempt.read look >>= fun _ => addRow step table place row) >>= fun id => pure (reply id))
      store).1.map (fun _ => ()) =
      look store >>= fun _ => during step (if (table store).size < Table.capacity then .ok ()
        else .error .full) := by
  simp only [bind, Attempt.andThen, Attempt.read]
  cases look store with
  | error e => rfl
  | ok a =>
    by_cases hfits : (table store).size < Table.capacity
    · simp [addRow, Table.insert, hfits, during, Except.bind, Except.map, pure, Attempt.yield]
    · simp [addRow, Table.insert, hfits, during, Except.bind, Except.map]

/-- A fact is refused by its verdict, or because its table is full, and else accepted. -/
theorem answer_eq (now : Timestamp) (fact : Fact) (session : Session) : session.answer now fact =
    fact.verdict session.store >>= fun _ => during fact.step
      (if session.store.rowCount fact.isTie < Table.capacity then .ok () else .error .full) := by
  have hreply : session.answer now fact =
      (fact.request.perform now session.store).1.map fun _ => () := by
    unfold answer perform
    split
    · rename_i hperform
      rw [hperform]
      rfl
    · rename_i hperform
      rw [hperform]
      rfl
  rw [hreply]
  cases fact with
  | tie new => exact map_look_addRow session.store
  | action new =>
    refine (map_look_addRow session.store).trans ?_
    change _ = (session.store.requirePost new.post).map (fun _ => ()) >>= _
    cases session.store.requirePost new.post with
    | ok post => rfl
    | error e => rfl

/-- Whoever is told that a fact was recorded finds it, and after a refusal the store is as
before. -/
theorem store_of_answer (now : Timestamp) (fact : Fact) (session : Session) :
    (session.answer now fact = .ok () ∧ (perform now fact.request session).2.store =
      fact.addTo now session.store) ∨
      ∃ e, session.answer now fact = .error e ∧ (perform now fact.request session).2.store =
        session.store := by
  rcases perform_cases now fact.request session with ⟨receipt, hdone, heffect⟩ | ⟨e, hfailed, hsame⟩
  · refine Or.inl ⟨by rw [answer, hdone]; rfl, ?_⟩
    clear hdone
    generalize (perform now fact.request session).2.store = after at heffect ⊢
    cases fact with
    | tie new => cases heffect; rfl
    | action new => cases heffect; rfl
  · exact Or.inr ⟨e, by rw [answer, hfailed]; rfl, hsame⟩

/-- A fact is refused for what it is, or it is added, or there is no room for it. -/
theorem answer_cases (now : Timestamp) (fact : Fact) (session : Session) :
    (¬session.store.admits fact ∧ session.answer now fact = fact.verdict session.store ∧
      (perform now fact.request session).2.store = session.store) ∨
    (session.store.admits fact ∧ session.store.rowCount fact.isTie < Table.capacity ∧
      session.answer now fact = fact.verdict session.store ∧
      (perform now fact.request session).2.store = fact.addTo now session.store) ∨
    (session.store.admits fact ∧ ¬session.store.rowCount fact.isTie < Table.capacity ∧
      IsFull (session.answer now fact)) := by
  have hanswer := answer_eq now fact session
  rw [admits_iff]
  cases hverdict : fact.verdict session.store with
  | error e =>
    rw [hverdict] at hanswer
    rcases store_of_answer now fact session with ⟨hdone, -⟩ | ⟨_, -, hsame⟩
    · cases hanswer.symm.trans hdone
    · exact Or.inl ⟨by simp, hanswer, hsame⟩
  | ok u =>
    rw [hverdict] at hanswer
    refine Or.inr ?_
    by_cases hfits : session.store.rowCount fact.isTie < Table.capacity
    · rw [if_pos hfits] at hanswer
      rcases store_of_answer now fact session with ⟨-, hadded⟩ | ⟨_, hfailed, -⟩
      · exact Or.inl ⟨rfl, hfits, hanswer, hadded⟩
      · cases hanswer.symm.trans hfailed
    · rw [if_neg hfits] at hanswer
      exact Or.inr ⟨rfl, hfits, fact.step, hanswer⟩

/-- As long as there is room for all facts, each gets the answer that it would get alone. By
induction on the facts for all sessions at once, since each is told to the session that those before
it have left. -/
theorem answers_of_hasRoom (h : session.store.HasRoom (calls.map (·.2))) :
    session.answers calls = calls.map (fun call => call.2.verdict session.store) ∧
      session.store.Learns (calls.map (·.2)) (session.learn calls).store := by
  induction calls generalizing session with
  | nil => exact ⟨rfl, .nil session.store⟩
  | cons call rest ih =>
    obtain ⟨now, fact⟩ := call
    rw [List.map_cons] at h
    have hrest := @ih (perform now fact.request session).2
    rw [answers, List.map_cons, List.map_cons, learn, List.map_cons, carryOut]
    rcases answer_cases now fact session with
      ⟨hrefused, hanswer, hstore⟩ | ⟨hadmits, hfits, hanswer, hstore⟩ | ⟨hadmits, hfull, -⟩
    · rw [hstore] at hrest
      obtain ⟨hanswers, hlearns⟩ := hrest ((hasRoom_cons_of_refused hrefused).mp h)
      exact ⟨by rw [hanswer, hanswers], hlearns.cons_of_refused hrefused⟩
    · rw [hstore] at hrest
      obtain ⟨hanswers, hlearns⟩ := hrest ((hasRoom_cons_of_taken hadmits hfits).mp h)
      exact ⟨by simp [hanswer, hanswers], hlearns.cons_of_taken hadmits⟩
    · exact absurd (h.fits hadmits) hfull

/-- Where there is no room for all facts, one of them is told so. -/
theorem exists_full_of_not_hasRoom (h : ¬session.store.HasRoom (calls.map (·.2))) :
    ∃ answer ∈ session.answers calls, IsFull answer := by
  induction calls generalizing session with
  | nil => exact absurd (fun _ => Or.inl rfl) h
  | cons call rest ih =>
    obtain ⟨now, fact⟩ := call
    rw [List.map_cons] at h
    have hrest := @ih (perform now fact.request session).2
    rw [answers, List.exists_mem_cons_iff]
    rcases answer_cases now fact session with
      ⟨hrefused, -, hstore⟩ | ⟨hadmits, hfits, -, hstore⟩ | ⟨-, -, hfull⟩
    · rw [hstore, ← hasRoom_cons_of_refused hrefused] at hrest
      exact Or.inr (hrest h)
    · rw [hstore, ← hasRoom_cons_of_taken hadmits hfits] at hrest
      exact Or.inr (hrest h)
    · exact Or.inl hfull

/-- Ties and actions may come in any order and at any time, right or wrong and more than once: each
is accepted or refused by what the store was before all of them, and afterwards the answers about
related posts, counts, orphans, contributors and ideas are the same. It is otherwise only where row
numbers run out, and then they do in every order. -/
theorem facts_in_any_order (session : Session) (first second : List (Timestamp × Fact))
    (hsame : (first.map (·.2)).Perm (second.map (·.2))) :
    ((∃ answer ∈ session.answers first, IsFull answer) ∧ ∃ answer ∈ session.answers second,
      IsFull answer) ∨
    (session.answers first = first.map (fun call => call.2.verdict session.store) ∧
      session.answers second = second.map (fun call => call.2.verdict session.store) ∧
      ∀ (strategy : ClosureStrategy) (settings : Config.Analytics),
        Aggregator.SameAnswers ⟨(session.learn first).store, strategy, settings⟩
          ⟨(session.learn second).store, strategy, settings⟩) := by
  by_cases hroom : session.store.HasRoom (first.map (·.2))
  · obtain ⟨hfirst, hlearns⟩ := answers_of_hasRoom hroom
    obtain ⟨hsecond, hlearnsToo⟩ := answers_of_hasRoom ((hasRoom_congr hsame).mp hroom)
    have htells := hlearns.tellsSame hlearnsToo hsame
    refine Or.inr ⟨hfirst, hsecond, fun strategy settings => ?_⟩
    let asked : Aggregator := ⟨(session.learn first).store, strategy, settings⟩
    exact asked.sameAnswers_withFacts htells
  · exact Or.inl ⟨exists_full_of_not_hasRoom hroom,
      exists_full_of_not_hasRoom (mt (hasRoom_congr hsame).mpr hroom)⟩

/-- A post and a reply to it, neither of them tied to an idea. -/
def untied : Session := carryOut discussed.dropLast (start .memory .nobody)

/-- An extract of a post, a reading of the reply to it, and a reading of a post that is not
there. -/
def tiedThenRead : List (Timestamp × Fact) := [
  (⟨5, 0⟩, .tie { idea := some 2, post := 1, kind := .extract, creator := 7 }),
  (⟨6, 0⟩, .action ⟨.read, 9, 2⟩),
  (⟨7, 0⟩, .action ⟨.read, 9, 3⟩)]

/-- The same facts from the last to the first. -/
def readThenTied : List (Timestamp × Fact) := [
  (⟨5, 0⟩, .action ⟨.read, 9, 3⟩),
  (⟨6, 0⟩, .action ⟨.read, 9, 2⟩),
  (⟨7, 0⟩, .tie { idea := some 2, post := 1, kind := .extract, creator := 7 })]

/-- The reading that comes too early to be related to the root counts as soon as the extract is
there. -/
theorem tiedThenRead_counts_either_way :
    let one : Aggregator := ⟨(untied.learn tiedThenRead).store, .native, {}⟩
    let other : Aggregator := ⟨(untied.learn readThenTied).store, .native, {}⟩
    untied.answers tiedThenRead = [.ok (), .ok (), .error (.postNotFound 3)] ∧
      untied.answers readThenTied = [.error (.postNotFound 3), .ok (), .ok ()] ∧
      (one.postCounts 1 (some 9)).result = .ok ⟨2, 1⟩ ∧ (other.postCounts 1 (some 9)).result =
        .ok ⟨2, 1⟩ := by
  intro one other
  have hstore : one.store = storeAfter .memory .nobody
      (discussed.dropLast ++ tiedThenRead.map fun call => (call.1, call.2.request)) :=
    congrArg Session.store (carryOut_append _ _ _).symm
  have hlegible : one.store.Legible := hstore ▸ storeAfter_legible .memory .nobody _
  have hversions : one.store.TellsLiveVersions :=
    hstore ▸ storeAfter_tellsLiveVersions .memory .nobody _
  have hsubtree : (one.subtree 1).result = .ok [1, 2] := by
    rw [Aggregator.subtree, ClosureStrategy.descendants_native_eq]
    decide +kernel
  have hposts : one.store.postCount 1 = 2 := by decide +kernel
  have hread : (one.store.relatedCounts 1 [1, 2] (some 9)).read = 1 := by
    simp only [relatedCounts, ascending_eq_insertionSort]
    decide +kernel
  have hcounts : (one.postCounts 1 (some 9)).result = .ok ⟨2, 1⟩ := by
    refine (Aggregator.counts_of_live hlegible hversions rfl rfl hsubtree (some 9)).trans ?_
    exact congrArg Except.ok (congrArg₂ PostCounts.mk ((if_pos rfl).trans hposts) hread)
  have hfirst : untied.answers tiedThenRead = [.ok (), .ok (), .error (.postNotFound 3)] := by
    decide +kernel
  have hsame : (tiedThenRead.map (·.2)).Perm (readThenTied.map (·.2)) := by decide
  rcases facts_in_any_order untied tiedThenRead readThenTied hsame with
    ⟨⟨answer, hanswer, hfull⟩, -⟩ | hanswers
  · rw [hfirst] at hanswer
    obtain ⟨step, rfl⟩ := hfull
    simp at hanswer
  · obtain ⟨-, hsecond, hafter⟩ := hanswers
    refine ⟨hfirst, hsecond.trans ?_, hcounts, ?_⟩
    · decide
    · exact (congrArg Traced.result ((hafter .native {}).postCounts 1 (some 9))).trans hcounts

end Session

end Deliberation
