import Stevedore.Program

/-!
What a program does, one thing after the other, when nothing is known of its surroundings.

A program posts events, asks the engine and changes files. An `Errand` is a program on its way: it
is free to go on, or waits for a reply. `Errand.Does` is one deed of it, in which replies and
outcomes are whatever they are, and `Errand.Goes` a list of deeds. Between two deeds other programs
may have their turn, so the deeds of many programs in any order are what a run is made of.

The histories of a program that has come to its end can be read off the program:
`Program.Through` has an equation for each way to begin, and for one program after another.
-/

namespace Stevedore

/-- Something that is done or learnt on the way. -/
inductive Deed where
  | posted (event : Event)
  | asked (call : EngineCall)
  | answered (call : EngineCall) (reply : Reply call)
  | changed (request : FileChange) (result : Except FileError Unit)

namespace Deed

/-- The event, if one is posted. -/
def event? : Deed → Option Event
  | posted event => some event
  | _ => none

/-- The call, if the engine is asked. -/
def call? : Deed → Option EngineCall
  | asked call => some call
  | _ => none

end Deed

/-- The events that were posted, in order. -/
def eventsOf (history : List Deed) : List Event := history.filterMap Deed.event?

/-- What the engine was asked, in order. -/
def callsOf (history : List Deed) : List EngineCall := history.filterMap Deed.call?

@[simp] theorem mem_eventsOf {history : List Deed} {e : Event} :
    e ∈ eventsOf history ↔ .posted e ∈ history := by
  simp only [eventsOf, List.mem_filterMap]
  constructor
  · rintro ⟨d, hd, he⟩
    cases d <;> simp only [Deed.event?, Option.some.injEq, reduceCtorEq] at he
    exact he ▸ hd
  · intro h
    exact ⟨_, h, rfl⟩

@[simp] theorem mem_callsOf {history : List Deed} {call : EngineCall} :
    call ∈ callsOf history ↔ .asked call ∈ history := by
  simp only [callsOf, List.mem_filterMap]
  constructor
  · rintro ⟨d, hd, hc⟩
    cases d <;> simp only [Deed.call?, Option.some.injEq, reduceCtorEq] at hc
    exact hc ▸ hd
  · intro h
    exact ⟨_, h, rfl⟩

@[simp] theorem eventsOf_append (l r : List Deed) :
    eventsOf (l ++ r) = eventsOf l ++ eventsOf r := List.filterMap_append

@[simp] theorem callsOf_append (l r : List Deed) : callsOf (l ++ r) = callsOf l ++ callsOf r :=
  List.filterMap_append

/-- A program on its way. -/
inductive Errand (α : Type) where
  | free (rest : Program α)
  /-- Waits for the reply to a call. -/
  | pending (call : EngineCall) (announce : Progress → Option Event)
      (next : Reply call → Program α)

namespace Errand

variable {α : Type}

/-- Whether there is nothing left to do. -/
def isDone : Errand α → Bool
  | free (.done _) => true
  | _ => false

/-- One deed. Progress is posted while a reply is waited for. -/
inductive Does : Errand α → Deed → Errand α → Prop
  | post {e : Event} {next : Program α} : Does (free (.post e next)) (.posted e) (free next)
  | ask {call : EngineCall} {announce : Progress → Option Event} {next : Reply call → Program α} :
      Does (free (.ask call announce next)) (.asked call) (pending call announce next)
  | progress {call : EngineCall} {announce : Progress → Option Event}
      {next : Reply call → Program α} {p : Progress} {e : Event} (told : announce p = some e) :
      Does (pending call announce next) (.posted e) (pending call announce next)
  | answer {call : EngineCall} {announce : Progress → Option Event}
      {next : Reply call → Program α} (reply : Reply call) :
      Does (pending call announce next) (.answered call reply) (free (next reply))
  | change {request : FileChange} {next : Except FileError Unit → Program α}
      (result : Except FileError Unit) :
      Does (free (.change request next)) (.changed request result) (free (next result))

/-- Many deeds. -/
inductive Goes : Errand α → List Deed → Errand α → Prop
  | refl (t : Errand α) : Goes t [] t
  | head {t u v : Errand α} {d : Deed} {history : List Deed} (first : Does t d u)
      (rest : Goes u history v) : Goes t (d :: history) v

variable {t u v : Errand α} {d : Deed} {history history' : List Deed}

theorem Does.goes (h : Does t d u) : Goes t [d] u := .head h (.refl u)

theorem Goes.append (h : Goes t history u) (h' : Goes u history' v) :
    Goes t (history ++ history') v := by
  induction h with
  | refl => exact h'
  | head first _ ih => exact .head first (ih h')

theorem Goes.concat (h : Goes t history u) (h' : Does u d v) : Goes t (history ++ [d]) v :=
  h.append h'.goes

/-- While a reply is waited for, progress may be posted. -/
theorem goes_progress {call : EngineCall} {announce : Progress → Option Event}
    {next : Reply call → Program α} {events : List Event}
    (h : ∀ e ∈ events, ∃ p, announce p = some e) :
    Goes (pending call announce next) (events.map .posted) (pending call announce next) := by
  induction events with
  | nil => exact .refl _
  | cons e events ih =>
    obtain ⟨p, hp⟩ := h e (List.mem_cons_self ..)
    exact .head (.progress hp) (ih fun e' he' => h e' (List.mem_cons_of_mem _ he'))

/-- What is done does nothing. -/
theorem Does.not_isDone (h : Does t d u) : t.isDone = false := by
  cases h <;> rfl

theorem eq_free_done (h : t.isDone = true) : ∃ a, t = free (.done a) := by
  unfold isDone at h
  split at h
  · exact ⟨_, rfl⟩
  · simp at h

end Errand

namespace Program

variable {α β : Type} {history : List Deed} {b : β}

open Errand

/-- Whether the program may come to its end like this. -/
def Through (p : Program α) (history : List Deed) (result : α) : Prop :=
  Goes (free p) history (free (done result))

@[simp] theorem through_done {a c : α} : (done a).Through history c ↔ history = [] ∧ a = c := by
  constructor
  · intro h
    cases h with
    | refl => exact ⟨rfl, rfl⟩
    | head first => cases first
  · rintro ⟨rfl, rfl⟩
    exact .refl _

@[simp] theorem through_post {e : Event} {next : Program α} {c : α} :
    (post e next).Through history c ↔
      ∃ rest, history = .posted e :: rest ∧ next.Through rest c := by
  constructor
  · intro h
    cases h with
    | head first rest =>
      cases first
      exact ⟨_, rfl, rest⟩
  · rintro ⟨rest, rfl, h⟩
    exact .head .post h

theorem through_tell {e : Event} {c : Unit} :
    (tell e).Through history c ↔ history = [.posted e] := by
  rw [tell, through_post]
  simp

@[simp] theorem through_change {request : FileChange} {next : Except FileError Unit → Program α}
    {c : α} : (change request next).Through history c ↔
      ∃ result rest, history = .changed request result :: rest ∧ (next result).Through rest c := by
  constructor
  · intro h
    cases h with
    | head first rest =>
      cases first
      exact ⟨_, _, rfl, rest⟩
  · rintro ⟨result, rest, rfl, h⟩
    exact .head (.change result) h

/-- Progress is posted until there is a reply. -/
theorem goes_pending {call : EngineCall} {announce : Progress → Option Event}
    {next : Reply call → Program α} {c : α} :
    Goes (pending call announce next) history (free (done c)) ↔
      ∃ (events : List Event) (reply : Reply call) (rest : List Deed),
        history = events.map .posted ++ .answered call reply :: rest ∧
        (∀ e ∈ events, ∃ p, announce p = some e) ∧ (next reply).Through rest c := by
  constructor
  · intro h
    induction history with
    | nil => cases h
    | cons d history ih =>
      cases h with
      | head first later =>
        cases first with
        | progress told =>
          obtain ⟨events, reply, rest, rfl, hall, hnext⟩ := ih later
          refine ⟨_ :: events, reply, rest, rfl, ?_, hnext⟩
          simpa using ⟨⟨_, told⟩, hall⟩
        | answer reply => exact ⟨[], reply, history, rfl, by simp, later⟩
  · rintro ⟨events, reply, rest, rfl, hall, hnext⟩
    exact (goes_progress hall).append (.head (.answer reply) hnext)

theorem through_ask {call : EngineCall} {announce : Progress → Option Event}
    {next : Reply call → Program α} {c : α} : (ask call announce next).Through history c ↔
      ∃ (events : List Event) (reply : Reply call) (rest : List Deed),
        history = .asked call :: (events.map .posted ++ .answered call reply :: rest) ∧
        (∀ e ∈ events, ∃ p, announce p = some e) ∧ (next reply).Through rest c := by
  constructor
  · intro h
    cases h with
    | head first later =>
      cases first
      obtain ⟨events, reply, rest, rfl, hall, hnext⟩ := goes_pending.1 later
      exact ⟨events, reply, rest, rfl, hall, hnext⟩
  · rintro ⟨events, reply, rest, rfl, hall, hnext⟩
    exact .head .ask (goes_pending.2 ⟨events, reply, rest, rfl, hall, hnext⟩)

/-- If progress is let pass, only the reply comes back. -/
@[simp] theorem through_ask_quietly {call : EngineCall} {next : Reply call → Program α} {c : α} :
    (ask call (fun _ => none) next).Through history c ↔
      ∃ (reply : Reply call) (rest : List Deed),
        history = .asked call :: .answered call reply :: rest ∧ (next reply).Through rest c := by
  rw [through_ask]
  constructor
  · rintro ⟨events, reply, rest, rfl, hall, hnext⟩
    obtain rfl : events = [] := by
      refine List.eq_nil_iff_forall_not_mem.2 ?_
      intro e he
      obtain ⟨p, hp⟩ := hall e he
      simp at hp
    exact ⟨reply, rest, rfl, hnext⟩
  · rintro ⟨reply, rest, rfl, hnext⟩
    exact ⟨[], reply, rest, rfl, by simp, hnext⟩

/-- One program after another. -/
theorem through_bind {p : Program α} {f : α → Program β} :
    (p.bind f).Through history b ↔ ∃ a first second,
      history = first ++ second ∧ p.Through first a ∧ (f a).Through second b := by
  induction p generalizing history with
  | done a =>
    constructor
    · intro h
      exact ⟨a, [], history, rfl, through_done.2 ⟨rfl, rfl⟩, h⟩
    · rintro ⟨c, first, second, rfl, hp, hf⟩
      obtain ⟨rfl, rfl⟩ := through_done.1 hp
      exact hf
  | post e next ih =>
    simp only [bind, through_post, ih]
    constructor
    · rintro ⟨rest, rfl, a, first, second, rfl, hp, hf⟩
      exact ⟨a, .posted e :: first, second, rfl, ⟨first, rfl, hp⟩, hf⟩
    · rintro ⟨a, first, second, rfl, ⟨rest, rfl, hp⟩, hf⟩
      exact ⟨rest ++ second, rfl, a, rest, second, rfl, hp, hf⟩
  | ask call announce next ih =>
    simp only [bind, through_ask, ih]
    constructor
    · rintro ⟨events, reply, rest, rfl, hall, a, first, second, rfl, hp, hf⟩
      refine ⟨a, .asked call :: (events.map .posted ++ .answered call reply :: first), second,
        by simp, ⟨events, reply, first, rfl, hall, hp⟩, hf⟩
    · rintro ⟨a, first, second, rfl, ⟨events, reply, rest, rfl, hall, hp⟩, hf⟩
      exact ⟨events, reply, rest ++ second, by simp, hall, a, rest, second, rfl, hp, hf⟩
  | change request next ih =>
    simp only [bind, through_change, ih]
    constructor
    · rintro ⟨result, rest, rfl, a, first, second, rfl, hp, hf⟩
      exact ⟨a, .changed request result :: first, second, rfl, ⟨result, first, rfl, hp⟩, hf⟩
    · rintro ⟨a, first, second, rfl, ⟨result, rest, rfl, hp⟩, hf⟩
      exact ⟨result, rest ++ second, rfl, a, rest, second, rfl, hp, hf⟩

end Program

/-! ## Programs that may break off -/

namespace Attempt

open Program

variable {α β : Type} {history : List Deed} {message : String}

theorem through_bind {x : Attempt α} {f : α → Attempt β} {result : Except String β} :
    (x >>= f).run.Through history result ↔
      (∃ message, result = .error message ∧ x.run.Through history (.error message)) ∨
        ∃ a first second, history = first ++ second ∧ x.run.Through first (.ok a) ∧
          (f a).run.Through second result := by
  have hbind : (x >>= f).run.Through history result ↔ ∃ outcome first second,
      history = first ++ second ∧ x.run.Through first outcome ∧
        (ExceptT.bindCont f outcome).Through second result :=
    Program.through_bind
  rw [hbind]
  constructor
  · rintro ⟨message | a, first, second, rfl, hx, hf⟩
    · obtain ⟨rfl, rfl⟩ := through_done.1 hf
      rw [List.append_nil]
      exact .inl ⟨message, rfl, hx⟩
    · exact .inr ⟨a, first, second, rfl, hx, hf⟩
  · rintro (⟨message, rfl, hx⟩ | ⟨a, first, second, rfl, hx, hf⟩)
    · exact ⟨.error message, history, [], by simp, hx, through_done.2 ⟨rfl, rfl⟩⟩
    · exact ⟨.ok a, first, second, rfl, hx, hf⟩

/-- What does not break off has done all its parts. -/
theorem through_bind_ok {x : Attempt α} {f : α → Attempt β} {b : β}
    (h : (x >>= f).run.Through history (.ok b)) : ∃ a first second,
      history = first ++ second ∧ x.run.Through first (.ok a) ∧
        (f a).run.Through second (.ok b) := by
  obtain ⟨message, heq, -⟩ | hparts := through_bind.1 h
  · simp at heq
  · exact hparts

theorem through_engine {context : String} {c : EngineCall} {result : Except String c.Answer} :
    (engine context c).run.Through history result ↔ ∃ reply : Reply c,
      history = [.asked c, .answered c reply] ∧
        result = reply.mapError fun e => s!"{context}: {e.fullMessage}" := by
  constructor
  · intro h
    obtain ⟨reply, rest, rfl, hrest⟩ := through_ask_quietly.1 h
    cases reply with
    | error e =>
      obtain ⟨rfl, rfl⟩ := through_done.1 hrest
      exact ⟨.error e, rfl, rfl⟩
    | ok a =>
      obtain ⟨rfl, rfl⟩ := through_done.1 hrest
      exact ⟨.ok a, rfl, rfl⟩
  · rintro ⟨e | a, rfl, rfl⟩
    · exact through_ask_quietly.2 ⟨.error e, [], rfl, through_done.2 ⟨rfl, rfl⟩⟩
    · exact through_ask_quietly.2 ⟨.ok a, [], rfl, through_done.2 ⟨rfl, rfl⟩⟩

theorem through_engine_ok {context : String} {c : EngineCall} {answer : c.Answer}
    (h : (engine context c).run.Through history (.ok answer)) :
    history = [.asked c, .answered c (.ok answer)] := by
  obtain ⟨reply, rfl, heq⟩ := through_engine.1 h
  cases reply with
  | error e => nomatch heq
  | ok a => rw [Except.ok.inj heq]

theorem through_engine_error {context : String} {c : EngineCall}
    (h : (engine context c).run.Through history (.error message)) :
    ∃ e, history = [.asked c, .answered c (.error e)] := by
  obtain ⟨reply, rfl, heq⟩ := through_engine.1 h
  cases reply with
  | error e => exact ⟨e, rfl⟩
  | ok a => nomatch heq

theorem through_lift {p : Program α} {result : Except String α} :
    (ExceptT.lift p : Attempt α).run.Through history result ↔
      ∃ a, result = .ok a ∧ p.Through history a := by
  constructor
  · intro h
    obtain ⟨a, first, second, rfl, hp, hdone⟩ := Program.through_bind.1 h
    obtain ⟨rfl, rfl⟩ := through_done.1 hdone
    rw [List.append_nil]
    exact ⟨a, rfl, hp⟩
  · rintro ⟨a, rfl, hp⟩
    exact Program.through_bind.2 ⟨a, history, [], by simp, hp, through_done.2 ⟨rfl, rfl⟩⟩

end Attempt

end Stevedore
