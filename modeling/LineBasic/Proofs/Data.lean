import LineBasic.Proofs.Abreast
import LineBasic.Proofs.Comparison.Trait
import LineBasic.Proofs.Dialogue.Keeping

/-!
# What is done with the data

The data of a program is a sequence of values with a cursor.  Reading asks for the value at the
cursor and goes on by one, restoring goes back to the start, collecting adds values at the end, and
a reset forgets all of them.  Nothing else looks at the data or changes it, so what is done with it
can be told as a list of events, however the reading is spread over expressions, calls and loops.

* `DataEvent`, `Performs` — the events that an action goes through.
* `Tape`, `Performs.ends` — what events make of the data.
* `Performs.read_eq` — what is read.
* `Traced`, `recording` — actions that go through events of a kind.
-/

set_option autoImplicit false
namespace LineBasic

/-! ## Events -/

/-- Something that is done with the data. -/
inductive DataEvent where
  /-- A value was asked for, and obtained if there was one. -/
  | read (found : Option Value)
  /-- The first value comes next again. -/
  | restored
  /-- Values were added at the end. -/
  | added (values : List Value)
  /-- All values were forgotten. -/
  | forgotten

namespace DataEvent

/-- The values that there are after an event. -/
def gathered (values : List Value) : DataEvent → List Value
  | added more => values ++ more
  | forgotten => []
  | _ => values

/-- How many values were asked for since the first value came next, after an event. -/
def asked (n : Nat) : DataEvent → Nat
  | read _ => n + 1
  | added _ => n
  | restored | forgotten => 0

/-- The value at the cursor is asked for, or the cursor goes back to the start. -/
def IsReading : DataEvent → Prop
  | read _ | restored => True
  | added _ | forgotten => False

theorem foldl_gathered_of_reading {es : List DataEvent} (h : ∀ e ∈ es, e.IsReading)
    (values : List Value) : es.foldl gathered values = values := by
  induction es with
  | nil => rfl
  | cons e es ih =>
    obtain ⟨he, hes⟩ := List.forall_mem_cons.1 h
    cases e with
    | read | restored => exact ih hes
    | added | forgotten => exact he.elim

end DataEvent

/-- The data and how many of its values were read. -/
structure Tape where
  values : List Value
  cursor : Nat

/-- The data of a session. -/
def Session.tape (s : Session) : Tape :=
  ⟨s.data, s.cursor⟩

/-- The session with other data. -/
def Session.withTape (s : Session) (t : Tape) : Session :=
  { s with data := t.values, cursor := t.cursor }

/-- An action that neither looks at the data nor changes it, and goes on collecting if it did so
before. -/
structure Dataless {α : Type} (act : Action α) : Prop where
  commutes : ∀ t : Tape, Commutes (·.withTape t) act
  collecting : ∀ isCollecting, Keeps (fun s ↦ s.isCollecting = isCollecting) (fun _ ↦ True) act

/-- The events that an action goes through in a session. -/
inductive Performs : {α : Type} → Action α → Session → List DataEvent → Prop
  | silent {α : Type} {act : Action α} {s : Session} (h : Dataless act) : Performs act s []
  | bind {α β : Type} {x : Action α} {f : α → Action β} {s s₁ : Session} {a : α}
      {es es' : List DataEvent} (hx : Performs x s es) (ha : x s = .ok a s₁)
      (hf : Performs (f a) s₁ es') : Performs (x >>= f) s (es ++ es')
  | stopped {α β : Type} {x : Action α} {f : α → Action β} {s s₁ : Session} {e : Stop}
      {es : List DataEvent} (hx : Performs x s es) (he : x s = .error e s₁) :
      Performs (x >>= f) s es
  | read {s s₁ : Session} {v : Value} (h : Builtin.nextDatum s = .ok v s₁) :
      Performs Builtin.nextDatum s [.read (some v)]
  | unread {s s₁ : Session} {e : Stop} (h : Builtin.nextDatum s = .error e s₁) :
      Performs Builtin.nextDatum s [.read none]
  | restored {s : Session} : Performs Builtin.restoreOf s [.restored]
  | data {s : Session} {values : List Value} :
      Performs (Builtin.dataOf values) s (if s.isCollecting then [.added values] else [])
  | forgotten {s : Session} : Performs (modify Session.reset) s [.forgotten]
  | full {α : Type} {act : Action α} {s : Session} {c : Closure} {args : Frame}
      (hfull : s.binders.isFull = true) : Performs (Action.inCall c args act) s []
  | inCall {α : Type} {act : Action α} {s : Session} {c : Closure} {args : Frame}
      {es : List DataEvent} (hfull : s.binders.isFull = false)
      (h : Performs act { s with binders := s.binders.enter c args } es) :
      Performs (Action.inCall c args act) s es
  | settled {α : Type} {act : Action α} {s : Session} {es : List DataEvent} (site : Site)
      (h : Performs act s es) : Performs (act.settled site) s es
  | unwinding {α : Type} {act : Action α} {s : Session} {es : List DataEvent}
      (h : Performs act s es) : Performs act.unwinding s es
  | collecting {lines : Listing} {s : Session} {es : List DataEvent}
      (h : Performs lines.executeCollected { s with isCollecting := true } es) :
      Performs (collect lines) s es

/-! ## The data after events -/

namespace Tape

/-- The data after an event. -/
def after (t : Tape) : DataEvent → Tape
  | .read (some _) => { t with cursor := t.cursor + 1 }
  | .read none => t
  | .restored => { t with cursor := 0 }
  | .added values => { t with values := t.values ++ values }
  | .forgotten => ⟨[], 0⟩

/-- A list of events in each of which the value at the cursor is read. -/
def Allows (t : Tape) : List DataEvent → Prop
  | [] => True
  | e :: es => (∀ found, e = .read found → found = t.values[t.cursor]?) ∧ (t.after e).Allows es

variable {t : Tape} {es es' : List DataEvent}

theorem allows_append :
    t.Allows (es ++ es') ↔ t.Allows es ∧ (es.foldl after t).Allows es' := by
  induction es generalizing t with
  | nil => exact ⟨fun h ↦ ⟨trivial, h⟩, fun h ↦ h.2⟩
  | cons e es ih => rw [List.cons_append, Allows, Allows, ih, and_assoc, List.foldl_cons]

theorem values_foldl_after (t : Tape) (es : List DataEvent) :
    (es.foldl after t).values = es.foldl DataEvent.gathered t.values := by
  induction es generalizing t with
  | nil => rfl
  | cons e es ih =>
    rw [List.foldl_cons, ih, List.foldl_cons]
    cases e with
    | read found => cases found <;> rfl
    | restored | added | forgotten => rfl

theorem foldl_after (h : .read none ∉ es) : es.foldl after t =
    ⟨es.foldl DataEvent.gathered t.values, es.foldl DataEvent.asked t.cursor⟩ := by
  induction es generalizing t with
  | nil => rfl
  | cons e es ih =>
    rw [List.foldl_cons, ih fun hes ↦ h (List.mem_cons_of_mem e hes)]
    cases e with
    | read found =>
      cases found with
      | some v => rfl
      | none => exact absurd (List.mem_cons_self ..) h
    | restored | added | forgotten => rfl

/-- The cursor never gets past the end. -/
theorem Allows.cursor_le (h : t.Allows es) (ht : t.cursor ≤ t.values.length) :
    (es.foldl after t).cursor ≤ (es.foldl after t).values.length := by
  induction es generalizing t with
  | nil => exact ht
  | cons e es ih =>
    refine ih h.2 ?_
    cases e with
    | read found =>
      cases found with
      | some v => exact (List.getElem?_eq_some_iff.1 (h.1 _ rfl).symm).1
      | none => exact ht
    | restored => exact Nat.zero_le _
    | added values =>
      rw [after, List.length_append]
      exact Nat.le_add_right_of_le ht
    | forgotten => exact Nat.le_refl _

end Tape

/-- How an action ends that goes through events: with the data that they make, and not collecting if
it did not before. -/
abbrev EndsAfter {α : Type} (s : Session) (es : List DataEvent) :
    EStateM.Result Stop Session α → Prop :=
  Ends (fun s' ↦ s'.tape = es.foldl Tape.after s.tape ∧
    (s.isCollecting = false → s'.isCollecting = false)) (fun _ ↦ True) (fun _ ↦ True)

section
variable {α : Type} {act : Action α} {s : Session} {es : List DataEvent}

theorem Dataless.ends (h : Dataless act) (s : Session) : EndsAfter s [] (act s) := by
  have hkept : act s = atEnd (·.withTape s.tape) (act s) := h.commutes s.tape s
  have hcollecting := (h.collecting s.isCollecting).run s rfl
  generalize act s = r at hkept hcollecting
  cases r with
  | ok a s' =>
    have hs' : s' = s'.withTape s.tape := (EStateM.Result.ok.inj hkept).2
    exact .ok trivial ⟨(congrArg Session.tape hs').trans rfl, hcollecting.of_ok.2.trans⟩
  | error e s' =>
    have hs' : s' = s'.withTape s.tape := (EStateM.Result.error.inj hkept).2
    exact .error trivial ⟨(congrArg Session.tape hs').trans rfl, hcollecting.of_error.2.trans⟩

/-- What an action makes of the data is what its events make of it. -/
theorem Performs.ends (h : Performs act s es) : s.tape.Allows es ∧ EndsAfter s es (act s) := by
  induction h with
  | silent h => exact ⟨trivial, h.ends _⟩
  | @bind _ _ x f s s₁ a es es' _ ha _ ihx ihf =>
    obtain ⟨htape, hcollecting⟩ := (ha ▸ ihx.2).of_ok.2
    rw [bind_run_of_ok ha, EndsAfter, List.foldl_append, ← htape, Tape.allows_append, ← htape]
    exact ⟨⟨ihx.1, ihf.1⟩, ihf.2.mono (fun _ h ↦ ⟨h.1, fun hs ↦ h.2 (hcollecting hs)⟩)
      (fun _ ↦ id) fun _ ↦ id⟩
  | @stopped _ _ x f s s₁ e es _ he ih =>
    rw [bind_run_eq_error.2 (.inl he)]
    exact ⟨ih.1, .error trivial (he ▸ ih.2).of_error.2⟩
  | @read s s₁ v h =>
    rw [Builtin.nextDatum_eq] at h ⊢
    cases hv : s.data[s.cursor]? with
    | some w =>
      rw [hv] at h
      cases h
      exact ⟨⟨fun _ h ↦ by cases h; exact hv.symm, trivial⟩, .ok trivial ⟨rfl, id⟩⟩
    | none =>
      rw [hv] at h
      cases h
  | @unread s s₁ e h =>
    rw [Builtin.nextDatum_eq] at h ⊢
    cases hv : s.data[s.cursor]? with
    | some w =>
      rw [hv] at h
      cases h
    | none => exact ⟨⟨fun _ h ↦ by cases h; exact hv.symm, trivial⟩, .error trivial ⟨rfl, id⟩⟩
  | restored => exact ⟨⟨nofun, trivial⟩, .ok trivial ⟨rfl, id⟩⟩
  | @data s values =>
    unfold Builtin.dataOf
    rw [get_bind_run]
    split
    · exact ⟨⟨nofun, trivial⟩, .ok trivial ⟨rfl, id⟩⟩
    · exact ⟨trivial, .ok trivial ⟨rfl, id⟩⟩
  | forgotten => exact ⟨⟨nofun, trivial⟩, .ok trivial ⟨rfl, id⟩⟩
  | full hfull =>
    rw [inCall_of_isFull hfull]
    exact ⟨trivial, .error trivial ⟨rfl, id⟩⟩
  | inCall hfull _ ih =>
    rw [inCall_of_not_isFull hfull]
    exact ⟨ih.1, ih.2.putBack fun _ h ↦ h⟩
  | settled site _ ih => exact ⟨ih.1, ih.2.settled site⟩
  | unwinding _ ih => exact ⟨ih.1, ih.2.unwinding fun _ h ↦ h⟩
  | collecting _ ih =>
    exact ⟨ih.1, Ends.collect (ih.2.unwinding fun _ h ↦ h) fun _ h ↦ ⟨h.1, fun _ ↦ rfl⟩⟩

/-- An end for want of data. -/
def RanOut (r : EStateM.Result Stop Session α) : Prop :=
  ∃ f s', r = .error (.fault f) s' ∧ f.kind = .outOfData

theorem Fault.kind_locate (f : Fault) (line : Int) (statement : Option Int) :
    (f.locate line statement).kind = f.kind := by
  rw [locate]
  split <;> rfl

namespace RanOut

theorem stopped {β : Type} {f : α → Action β} (h : RanOut (act s)) : RanOut ((act >>= f) s) := by
  obtain ⟨fault, s', h, hkind⟩ := h
  exact ⟨fault, s', bind_run_eq_error.2 (.inl h), hkind⟩

theorem inCall {c : Closure} {args : Frame} (hfull : s.binders.isFull = false)
    (h : RanOut (act { s with binders := s.binders.enter c args })) :
    RanOut (Action.inCall c args act s) := by
  obtain ⟨fault, s', h, hkind⟩ := h
  rw [inCall_of_not_isFull hfull, h]
  exact ⟨fault, _, rfl, hkind⟩

theorem settled (site : Site) (h : RanOut (act s)) : RanOut (act.settled site s) := by
  obtain ⟨fault, s', h, hkind⟩ := h
  rw [Action.settled, h]
  exact ⟨_, s', rfl, (fault.kind_locate _ _).trans hkind⟩

theorem unwinding (h : RanOut (act s)) : RanOut (act.unwinding s) := by
  obtain ⟨fault, s', h, hkind⟩ := h
  rw [Action.unwinding, h]
  exact ⟨fault, _, rfl, hkind⟩

theorem collect {lines : Listing}
    (h : RanOut (lines.executeCollected { s with isCollecting := true })) :
    RanOut (collect lines s) := by
  obtain ⟨fault, s', h, hkind⟩ := h.unwinding
  rw [collect_eq, h]
  exact ⟨fault, _, rfl, hkind⟩

end RanOut

/-- Whether only the last event is a read that finds nothing, at an end for want of data. -/
def Answered (es : List DataEvent) (r : EStateM.Result Stop Session α) : Prop :=
  .read none ∉ es ∨ ∃ es', es = es' ++ [.read none] ∧ .read none ∉ es' ∧ RanOut r

/-- What is built around an action passes its fault on, so that no event comes after it. -/
theorem Answered.mono {β : Type} {r : EStateM.Result Stop Session α}
    {r' : EStateM.Result Stop Session β} (h : Answered es r) (hran : RanOut r → RanOut r') :
    Answered es r' :=
  h.imp_right fun ⟨es', hes, hes', h⟩ ↦ ⟨es', hes, hes', hran h⟩

/-- Only the last read can find nothing, and the action then ends for want of data. -/
theorem Performs.answered (h : Performs act s es) : Answered es (act s) := by
  induction h with
  | silent => exact .inl List.not_mem_nil
  | @bind _ _ x f s s₁ a es es' _ ha _ ihx ihf =>
    have hx : .read none ∉ es := by
      obtain hx | ⟨_, _, _, _, _, hx, -⟩ := ihx
      · exact hx
      · cases ha.symm.trans hx
    obtain hf | ⟨es₁, rfl, hes₁, hf⟩ := ihf
    · exact .inl fun hmem ↦ (List.mem_append.1 hmem).elim hx hf
    · refine .inr ⟨es ++ es₁, (List.append_assoc ..).symm,
        fun hmem ↦ (List.mem_append.1 hmem).elim hx hes₁, ?_⟩
      rwa [bind_run_of_ok ha]
  | read | restored | forgotten | full => exact .inl (by simp)
  | @data s values => exact .inl (by split <;> simp)
  | @unread s s₁ e h =>
    refine .inr ⟨[], rfl, List.not_mem_nil, ?_⟩
    rw [Builtin.nextDatum_eq] at h ⊢
    cases hv : s.data[s.cursor]? with
    | some v =>
      rw [hv] at h
      cases h
    | none => exact ⟨_, s, rfl, rfl⟩
  | stopped _ _ ih => exact ih.mono .stopped
  | inCall hfull _ ih => exact ih.mono (.inCall hfull)
  | settled site _ ih => exact ih.mono (.settled site)
  | unwinding _ ih => exact ih.mono .unwinding
  | collecting _ ih => exact ih.mono .collect

/-- Each time a value is asked for, it is the one at the position of how many were asked for before.
If there is none, then the action ends for want of data, and the cursor stays where it is. -/
theorem Performs.read_eq {before later : List DataEvent} {found : Option Value}
    (h : Performs act s (before ++ .read found :: later)) :
    found = (before.foldl DataEvent.gathered s.data)[before.foldl DataEvent.asked s.cursor]? ∧
    (found = none → later = [] ∧ ∃ f s', act s = .error (.fault f) s' ∧ f.kind = .outOfData ∧
      s'.cursor = before.foldl DataEvent.asked s.cursor) := by
  obtain ⟨hallows, hends⟩ := h.ends
  obtain ⟨-, hread, -⟩ := Tape.allows_append.1 hallows
  have hfound (hbefore : .read none ∉ before) :
      found = (before.foldl DataEvent.gathered s.data)[before.foldl DataEvent.asked s.cursor]? := by
    rw [hread found rfl, Tape.foldl_after hbefore]
    rfl
  obtain hall | ⟨es, hes, hnone, f, s', hact, hkind⟩ := h.answered
  · rw [List.mem_append, not_or] at hall
    exact ⟨hfound hall.1, fun h ↦ absurd (h ▸ List.mem_cons_self ..) hall.2⟩
  -- The last event is a read that finds nothing: either this one, or a later one.
  obtain rfl | ⟨later, last, rfl⟩ := later.eq_nil_or_concat
  · obtain ⟨rfl, hlast⟩ := List.append_inj' hes rfl
    cases hlast
    refine ⟨hfound hnone, fun _ ↦ ⟨rfl, f, s', hact, hkind, ?_⟩⟩
    have htape := (hact ▸ hends).of_error.2.1
    rw [List.foldl_append, Tape.foldl_after hnone] at htape
    exact congrArg Tape.cursor htape
  · rw [List.concat_eq_append, ← List.cons_append, ← List.append_assoc] at hes
    obtain ⟨rfl, -⟩ := List.append_inj' hes rfl
    rw [List.mem_append, not_or] at hnone
    exact ⟨hfound hnone.1, fun h ↦ absurd (h ▸ List.mem_cons_self ..) hnone.2⟩

end

/-! ## Actions that go through events of a kind -/

/-- Other data, and collecting or not, as a change of what most actions leave aside. -/
def Tape.put (t : Tape) (isCollecting : Bool) (a : Aside) : Aside :=
  { a with data := t.values, cursor := t.cursor, isCollecting }

/-- An action that does not depend on the data and on whether it is collected. -/
theorem Dataless.of_commutes {α : Type} {act : Action α}
    (h : ∀ (t : Tape) (isCollecting : Bool), Commutes (·.mapAside (t.put isCollecting)) act) :
    Dataless act := by
  have hkept (s : Session) : Ends (fun s' ↦ s'.isCollecting = s.isCollecting) (fun _ ↦ True)
      (fun _ ↦ True) (act s) := by
    have hself : act s = atEnd (·.mapAside (s.tape.put s.isCollecting)) (act s) :=
      h s.tape s.isCollecting s
    generalize act s = r at hself
    cases r with
    | ok a s' =>
      have hs' : s' = s'.mapAside (s.tape.put s.isCollecting) := (EStateM.Result.ok.inj hself).2
      exact .ok trivial ((congrArg Session.isCollecting hs').trans rfl)
    | error e s' =>
      have hs' : s' = s'.mapAside (s.tape.put s.isCollecting) :=
        (EStateM.Result.error.inj hself).2
      exact .error trivial ((congrArg Session.isCollecting hs').trans rfl)
  refine ⟨fun t s ↦ ?_, fun isCollecting ↦ ⟨fun s hs ↦ hs ▸ hkept s⟩⟩
  have hrun : act (s.withTape t) = atEnd (·.mapAside (t.put s.isCollecting)) (act s) :=
    h t s.isCollecting s
  have hends := hkept s
  rw [hrun]
  generalize act s = r at hends
  cases hends with
  | ok _ hs' =>
    rw [atEnd, ← hs']
    rfl
  | error _ hs' =>
    rw [atEnd, ← hs']
    rfl

theorem Apart.dataless {α : Type} {act : Action α} (h : Apart act) : Dataless act :=
  .of_commutes fun _ _ ↦ h.commutes _

/-- Looking at what has nothing to do with the data. -/
theorem dataless_look {γ : Type} {look : Session → γ}
    (h : ∀ s t b, look (Session.mapAside s (Tape.put t b)) = look s) :
    Dataless (do return look (← get) : Action γ) :=
  .of_commutes fun t b s ↦ congrArg (EStateM.Result.ok · _) (h s t b)

/-- An action that goes through events of a kind, in sessions that do not collect data, or in all
sessions. -/
structure Traced (isQuiet : Prop) (E : DataEvent → Prop) {α : Type} (act : Action α) : Prop where
  run : ∀ s, (isQuiet → s.isCollecting = false) → ∃ es, Performs act s es ∧ ∀ e ∈ es, E e

section
variable {isQuiet : Prop} {E : DataEvent → Prop} {α β : Type}

namespace Traced

theorem silent {act : Action α} (h : Dataless act) : Traced isQuiet E act :=
  ⟨fun _ _ ↦ ⟨[], .silent h, List.forall_mem_nil _⟩⟩

theorem bind {x : Action α} {f : α → Action β} (hx : Traced isQuiet E x)
    (hf : ∀ a, (∃ s s', x s = .ok a s') → Traced isQuiet E (f a)) :
    Traced isQuiet E (x >>= f) := by
  refine ⟨fun s hs ↦ ?_⟩
  obtain ⟨es, hes, hE⟩ := hx.run s hs
  cases hxs : x s with
  | ok a s₁ =>
    have hs₁ : isQuiet → s₁.isCollecting = false := fun hquiet ↦
      (hxs ▸ hes.ends.2).of_ok.2.2 (hs hquiet)
    obtain ⟨es', hes', hE'⟩ := (hf a ⟨s, s₁, hxs⟩).run s₁ hs₁
    exact ⟨es ++ es', .bind hes hxs hes', fun e he ↦ (List.mem_append.1 he).elim (hE e) (hE' e)⟩
  | error e s₁ => exact ⟨es, .stopped hes hxs, hE⟩

theorem mono {E' : DataEvent → Prop} {act : Action α} (h : Traced isQuiet E act)
    (hE : ∀ e, E e → E' e) : Traced isQuiet E' act := by
  refine ⟨fun s hs ↦ ?_⟩
  obtain ⟨es, hes, hall⟩ := h.run s hs
  exact ⟨es, hes, fun e he ↦ hE e (hall e he)⟩

end Traced

/-- A single change that has nothing to do with the data. -/
theorem traced_modify {f : Session → Session}
    (h : ∀ s t b, f (Session.mapAside s (Tape.put t b)) = (f s).mapAside (t.put b)) :
    Traced isQuiet E (modify f : Action Unit) :=
  .silent (.of_commutes fun t b s ↦ congrArg (EStateM.Result.ok ()) (h s t b))

/-! ## Evaluation -/

/-- Looking at what has nothing to do with the data. -/
theorem Traced.look {γ : Type} {look : Session → γ}
    (hlook : ∀ s t b, look (Session.mapAside s (Tape.put t b)) = look s) {f : γ → Action α}
    (hf : ∀ c, Traced isQuiet E (f c)) : Traced isQuiet E (do f (look (← get))) :=
  bind (x := do return look (← get)) (.silent (dataless_look hlook)) fun c _ ↦ hf c

theorem traced_inCall (c : Closure) (args : Frame) {act : Action α} (h : Traced isQuiet E act) :
    Traced isQuiet E (Action.inCall c args act) := by
  refine ⟨fun s hs ↦ ?_⟩
  cases hfull : s.binders.isFull with
  | true => exact ⟨[], .full hfull, List.forall_mem_nil _⟩
  | false =>
    obtain ⟨es, hes, hE⟩ := h.run { s with binders := s.binders.enter c args } hs
    exact ⟨es, .inCall hfull hes, hE⟩

theorem dataless_comeBackOf : Dataless Builtin.comeBackOf := by
  refine .of_commutes fun t b s ↦ ?_
  cases h : s.returns with
  | nil =>
    rw [Builtin.comeBackOf_of_nil h, Builtin.comeBackOf_of_nil (s := s.mapAside (t.put b)) h]
    rfl
  | cons back outer =>
    rw [Builtin.comeBackOf_of_cons h, Builtin.comeBackOf_of_cons (s := s.mapAside (t.put b)) h]
    rfl

theorem dataless_labelOf (site : Site) (x : Operand) : Dataless (Builtin.labelOf site x) := by
  refine ⟨fun t ↦ Builtin.commutes_labelOf (f := (·.withTape t)) (fun _ ↦ rfl) (fun _ ↦ rfl)
    (fun _ _ ↦ rfl) site x, fun isCollecting ↦ .get fun s hs ↦ .ite (fun _ ↦ ?_) fun _ ↦ .pure trivial⟩
  cases x with
  | reference name =>
    simp only
    cases s.labels.get? name with
    | some line => exact .bind (keeps_fail (Q := fun _ ↦ True) _) fun _ _ ↦ .pure trivial
    | none => exact .bind (.set hs) fun _ _ ↦ .pure trivial
  | _ => exact .bind (keeps_fail (Q := fun _ ↦ True) _) fun _ _ ↦ .pure trivial

theorem dataless_clearOf : Dataless Builtin.clearOf :=
  .of_commutes fun _ _ _ ↦ rfl

/-- What kind of events are recorded, where some builtins may be called: any reading, and any adding
unless only sessions are looked at that do not collect data. -/
structure Records (isQuiet : Prop) (E : DataEvent → Prop) (permits : Builtin → Bool) : Prop where
  read : ∀ found, E (.read found)
  restored : E .restored
  added : permits .data = true → isQuiet ∨ ∀ values, E (.added values)

theorem traced_nextDatum (h : ∀ found, E (.read found)) :
    Traced isQuiet E Builtin.nextDatum := by
  refine ⟨fun s _ ↦ ?_⟩
  cases hs : Builtin.nextDatum s with
  | ok v s' => exact ⟨_, .read hs, List.forall_mem_singleton.2 (h _)⟩
  | error e s' => exact ⟨_, .unread hs, List.forall_mem_singleton.2 (h _)⟩

theorem traced_dataOf (h : isQuiet ∨ ∀ values, E (.added values)) (values : List Value) :
    Traced isQuiet E (Builtin.dataOf values) := by
  refine ⟨fun s hs ↦ ⟨_, .data, fun e he ↦ ?_⟩⟩
  split at he
  · rename_i hcollecting
    obtain hquiet | hadded := h
    · cases hcollecting.symm.trans (hs hquiet)
    · exact List.mem_singleton.1 he ▸ hadded values
  · cases he

/-- What is done with the data is recorded of all computations. -/
@[reducible]
def recording (site : Site) {permits : Builtin → Bool} (hE : Records isQuiet E permits) :
    Trait site where
  holds act := Traced isQuiet E act
  permits := permits
  pure a := .silent (Detached.pure a).dataless
  bind := .bind
  detached h := .silent h.dataless
  assign name v := .silent (.of_commutes fun t b ↦ Action.commutes_assign
    (f := (·.mapAside (t.put b))) (fun _ ↦ ⟨rfl, rfl, rfl, rfl, fun _ ↦ rfl⟩) name v)
  write _ _ base way index name v :=
    .silent (Operand.apart_store_element base way index name v _).dataless
  binders _ h := .look (fun _ _ _ ↦ rfl) h
  inCall c args h := traced_inCall c args h
  loops _ h := .look (fun _ _ _ ↦ rfl) h
  putLoops _ := traced_modify fun _ _ _ ↦ rfl
  goSub _ := traced_modify fun _ _ _ ↦ rfl
  comeBack _ := .silent dataless_comeBackOf
  label _ x := .silent (dataless_labelOf site x)
  random _ v := .silent (.of_commutes fun t b ↦
    Builtin.commutes_randomOf (f := (·.mapAside (t.put b))) (fun _ ↦ rfl) (fun _ ↦ rfl)
      ((Builtin.random.detached_number v).commutes (t.put b)))
  collectData h values := traced_dataOf (hE.added h) values
  nextDatum := traced_nextDatum hE.read
  restore := ⟨fun _ _ ↦ ⟨_, .restored, List.forall_mem_singleton.2 hE.restored⟩⟩
  clear := .silent dataless_clearOf

end
end LineBasic
