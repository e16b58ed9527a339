import LineBasic.Proofs.Dialogue.Keeping
import LineBasic.Proofs.Evaluation.Scoping

/-!
# Reachable sessions and their functions

A session is reached from its start by executing statements and by what runs and dialogues do
between statements.  In every session that is reached, all functions are well-scoped: wherever a
function is kept, its body refers to frames that are there when it is called, and to parameters that
the functions around the reference have.  So when a reference fails, it is for want of an argument,
and some function was called with fewer arguments than it has parameters: in the statement that
fails or in one before it, which made the function that captured the short frame.

* `Value.Has`, `Closure.IsWellScoped`, `Session.Stores` — the functions of a session.
* `Execution.CallsShort` — a statement that calls a function with too few arguments.
* `Session.Reachable`, `Dialogue.Reachable` — sessions with their past, and dialogues.
* `reachable_isWellScoped` — the result.
-/

set_option autoImplicit false
namespace LineBasic

/-! ## The functions of a session -/

/-- Where a function is kept in a value: the value itself, an element of a monad, a part of a
composed function, a captured argument, or a value that was put into a body. -/
inductive Value.Has : Value → Closure → Prop
  | itself (c : Closure) : Has (.closure c) c
  | element {elements v c} (hv : v ∈ elements) (h : Has v c) : Has (.listMonad elements) c
  | held {v c} (h : Has v c) : Has (.memoMonad v) c
  | composed {functions d c} (hd : d ∈ functions) (h : Has (.closure d) c) :
      Has (.composed functions) c
  | captured {d : Closure} {frame v c} (hframe : frame ∈ d.captured) (hv : v ∈ frame)
      (h : Has v c) : Has (.closure d) c
  | put {d : Closure} {lists v c} (hv : Tree.Occurs lists (.value v) d.body) (h : Has v c) :
      Has (.closure d) c

/-- Whether every reference in the body of a function points at a frame that is there when it is
called: one of the functions inside the body, that of the function itself, or a captured one.  In
the first two cases it points at a parameter. -/
def Closure.IsWellScoped (c : Closure) : Prop :=
  ∀ lists depth index, Tree.Occurs lists (.parameter depth index) c.body →
    depth < c.captured.length + 1 + lists.length ∧
    (∀ names, lists[depth]? = some names → index < names.length) ∧
    (depth = lists.length → index < c.arity)

/-- The values that a session keeps: in a variable, in the data, in a loop, in an array, and under
the names of constants and builtins. -/
inductive Session.Stores (s : Session) : Value → Prop
  | assigned {name v} (h : (name, v) ∈ s.vars.table.entries) : Stores s v
  | named {name v} (h : s.lookup name = .ok v) : Stores s v
  | datum {v} (h : v ∈ s.data) : Stores s v
  | loop {loop values v} (hloop : loop ∈ s.loops) (hsource : loop.source = .rest values)
      (h : v ∈ values) : Stores s v
  | element {place v} (h : v ∈ s.heap.elements place) : Stores s v

theorem Session.good_of_stores {W : World} (huses : ∀ b, W.uses b) {s : Session}
    (hs : s.All W.good) {v : Value} (h : s.Stores v) : W.good v := by
  cases h with
  | assigned h => exact hs.vars _ h
  | named h => exact good_of_lookup hs (fun b _ ↦ huses b) h
  | datum h => exact hs.data v h
  | loop hloop hsource h =>
    have hall := hs.loops _ hloop
    rw [hsource] at hall
    exact hall v h
  | element h => exact hs.heap _ v h

theorem Closure.Scoped.isWellScoped {c : Closure} (h : c.Scoped noLength) : c.IsWellScoped := by
  intro lists depth index hoccurs
  obtain ⟨b, hb, hindex⟩ := (Closure.scoped_iff.1 h).1.of_occurs hoccurs
  have hdepth := (List.getElem?_eq_some_iff.1 hb).1
  rw [List.length_append, List.length_cons, List.length_map, List.length_map] at hdepth
  refine ⟨by omega, fun names hnames ↦ hindex _ ?_, fun heq ↦ hindex _ ?_⟩
  · have hlists := (List.getElem?_eq_some_iff.1 hnames).1
    rw [List.getElem?_append_left (by simpa using hlists), List.getElem?_map, hnames] at hb
    exact (Option.some.inj hb).symm
  · rw [List.getElem?_append_right (by simp [heq])] at hb
    simpa [heq] using hb.symm

theorem Value.Scoped.of_has {bound : Frame → Option Nat} {v : Value} {c : Closure}
    (hv : v.Scoped bound) (h : v.Has c) : c.Scoped bound := by
  induction h with
  | itself c => exact hv
  | element hmem _ ih => exact ih (Value.allScoped_iff.1 hv _ hmem)
  | held _ ih => exact ih hv
  | composed hmem _ ih => exact ih (Closure.allScoped_iff.1 hv _ hmem)
  | captured hframe hmem _ ih => exact ih ((Closure.scoped_iff.1 hv).2 _ hframe _ hmem)
  | put hoccurs _ ih => exact ih ((Closure.scoped_iff.1 hv).1.of_occurs hoccurs)

/-! ## The past of a session -/

/-- A statement with the session that it was executed in. -/
structure Execution where
  site : Site
  tree : Tree
  session : Session

/-- Whether a function is called with fewer arguments than it has parameters while a statement is
executed: then, and only then, any alarm for such calls is raised. -/
def Execution.CallsShort (e : Execution) : Prop :=
  ∀ alarm, ∃ s, evaluateFully alarm e.site e.tree e.session = .error alarm s

/-- A statement with its parameters resolved. -/
def Tree.IsResolved (t : Tree) : Prop :=
  ∃ u : Tree, u.IsStatement ∧ t = u.resolve

/-- The sessions that are reached, with the statements that were executed on the way, the latest
first. -/
inductive Session.Reachable : List Execution → Session → Prop
  | start (settings : Settings) (console : Console) (bus : Bus) (seed : UInt64) :
      Reachable [] (.start settings console bus seed)
  | executed {past s site t p s'} (h : Reachable past s) (ht : t.IsResolved)
      (hs' : execute site t s = .ok p s') : Reachable (⟨site, t, s⟩ :: past) s'
  | failed {past s site t e s'} (h : Reachable past s) (ht : t.IsResolved)
      (hs' : execute site t s = .error e s') : Reachable (⟨site, t, s⟩ :: past) s'
  | books {past s s'} (h : Reachable past s) (hs' : s.SameValues s') : Reachable past s'
  | unwound {past s} (h : Reachable past s) : Reachable past s.unwind
  | returned {past s} (h : Reachable past s) :
      Reachable past { s with binders := s.binders.reset }
  | reset {past s} (h : Reachable past s) : Reachable past s.reset

theorem Tree.IsParsed.isResolved {t : Tree} (h : t.IsParsed) : t.IsResolved := by
  obtain ⟨line, text, statements, hparse, ht⟩ := h
  obtain ⟨raw, hraw, hparse⟩ := bind_eq_ok.1 hparse
  cases hparse
  obtain ⟨statement, hstatement, heq⟩ := List.mem_map.1 ht
  obtain ⟨u, rfl, rfl⟩ := Option.map_eq_some_iff.1 heq
  exact ⟨u, isStatement_of_parseRaw hraw hstatement, rfl⟩

theorem Tree.IsResolved.scopedIn {t : Tree} (h : t.IsResolved) (bound : Frame → Option Nat) :
    t.ScopedIn bound [] := by
  obtain ⟨u, hu, rfl⟩ := h
  exact scopedIn_resolve hu

namespace Session

theorem all_start (p : Value → Prop) (settings : Settings) (console : Console) (bus : Bus)
    (seed : UInt64) : (start settings console bus seed).All p :=
  ⟨Heap.all_initial, List.forall_mem_nil _, List.forall_mem_nil _, List.forall_mem_nil _⟩

theorem All.books {p : Value → Prop} {s s' : Session} (h : s.All p) (hs' : s.SameValues s') :
    s'.All p :=
  ⟨hs'.heap ▸ h.heap, hs'.vars ▸ h.vars, hs'.loops ▸ h.loops, hs'.data ▸ h.data⟩

theorem All.unwind {p : Value → Prop} {s : Session} (h : s.All p) : s.unwind.All p :=
  ⟨h.heap, h.vars, List.forall_mem_nil _, h.data⟩

theorem all_reset (p : Value → Prop) (s : Session) : s.reset.All p :=
  ⟨Heap.all_initial, List.forall_mem_nil _, List.forall_mem_nil _, List.forall_mem_nil _⟩

namespace Reachable

variable {past : List Execution} {s : Session}

/-- Between statements no frames are in force, and all values are well-scoped. -/
theorem loose (h : Reachable past s) : s.binders.frames = [] ∧ s.All (Value.Scoped noLength) := by
  induction h with
  | start settings console bus seed => exact ⟨rfl, all_start ..⟩
  | @executed past s site t p s' _ ht hs' ih =>
    have hends := ends_execute_loose site ih.1 (ht.scopedIn noLength) ih.2
    have hback := (hs' ▸ hends).of_ok.2
    exact ⟨hback.binders ▸ ih.1, hback.all⟩
  | @failed past s site t e s' _ ht hs' ih =>
    have hends := ends_execute_loose site ih.1 (ht.scopedIn noLength) ih.2
    have hback := (hs' ▸ hends).of_error.2
    exact ⟨hback.binders ▸ ih.1, hback.all⟩
  | books _ hs' ih => exact ⟨hs'.binders ▸ ih.1, ih.2.books hs'⟩
  | unwound _ ih => exact ⟨rfl, ih.2.unwind⟩
  | returned _ ih => exact ⟨rfl, ⟨ih.2.heap, ih.2.vars, ih.2.loops, ih.2.data⟩⟩
  | reset _ _ => exact ⟨rfl, all_reset _ _⟩

/-- A statement that does not call short keeps the lengths of frames. -/
theorem callsShort_or_ends (h : Reachable past s) (hs : s.All (Value.Scoped fullLength))
    (site : Site) {t : Tree} (ht : t.IsResolved) :
    (Execution.mk site t s).CallsShort ∨
      Ends (s.IsBack (Value.Scoped fullLength)) (fun p ↦ p.1.Scoped fullLength)
        (fun e ↦ ∃ e' : Stop, e = e'.settle site ∧ ¬ e'.IsUnbound) (execute site t s) := by
  by_cases hshort : (Execution.mk site t s).CallsShort
  · exact .inl hshort
  · obtain ⟨alarm, halarm⟩ := Classical.not_forall.1 hshort
    exact .inr (ends_execute_tight site h.loose.1 (ht.scopedIn fullLength) hs fun s' hs' ↦
      halarm ⟨s', hs'⟩)

/-- As long as no function was called with too few arguments, captured frames are as long as the
parameter lists they belong to. -/
theorem tight (h : Reachable past s) :
    s.All (Value.Scoped fullLength) ∨ ∃ e ∈ past, e.CallsShort := by
  induction h with
  | start settings console bus seed => exact .inl (all_start ..)
  | @executed past s site t p s' h ht hs' ih =>
    obtain hs | ⟨e, he, hshort⟩ := ih
    · obtain hshort | hends := h.callsShort_or_ends hs site ht
      · exact .inr ⟨_, List.mem_cons_self .., hshort⟩
      · exact .inl (hs' ▸ hends).of_ok.2.all
    · exact .inr ⟨e, List.mem_cons_of_mem _ he, hshort⟩
  | @failed past s site t e s' h ht hs' ih =>
    obtain hs | ⟨e, he, hshort⟩ := ih
    · obtain hshort | hends := h.callsShort_or_ends hs site ht
      · exact .inr ⟨_, List.mem_cons_self .., hshort⟩
      · exact .inl (hs' ▸ hends).of_error.2.all
    · exact .inr ⟨e, List.mem_cons_of_mem _ he, hshort⟩
  | books _ hs' ih => exact ih.imp_left (·.books hs')
  | unwound _ ih => exact ih.imp_left (·.unwind)
  | returned _ ih => exact ih.imp_left fun hs ↦ ⟨hs.heap, hs.vars, hs.loops, hs.data⟩
  | reset _ _ => exact .inl (all_reset _ _)

/-- Every function that a reachable session keeps is well-scoped. -/
theorem isWellScoped_of_stores (h : Reachable past s) {v : Value} (hv : s.Stores v) {c : Closure}
    (hc : v.Has c) : c.IsWellScoped := by
  have hscoped : v.Scoped noLength := good_of_stores (W := LineBasic.loose) (fun _ ↦ trivial) h.loose.2 hv
  exact (hscoped.of_has hc).isWellScoped

/-- A statement fails at a parameter for want of an argument only, and after a short call. -/
theorem missing_of_execute (h : Reachable past s) (site : Site) {t : Tree} (ht : t.IsResolved)
    {f : Fault} {s' : Session} (hs' : execute site t s = .error (.fault f) s') (hf : f.IsUnbound) :
    (∃ depth index given, given ≤ index ∧
      f = (Fault.missingArgument depth index given).locate site.line (some site.statement)) ∧
    ∃ e ∈ ⟨site, t, s⟩ :: past, e.CallsShort := by
  constructor
  · have hends := ends_execute_loose site h.loose.1 (ht.scopedIn noLength) h.loose.2
    obtain ⟨e, he, hframed⟩ := (hs' ▸ hends).of_error.1
    obtain ⟨g, rfl, hg, hlocate⟩ := Stop.eq_fault_of_settle he hf
    obtain ⟨depth, index, given, hgiven, heq⟩ := hframed (Stop.isUnbound_fault_iff.2 hg)
    cases heq
    exact ⟨depth, index, given, hgiven, hlocate⟩
  · obtain hs | ⟨e, he, hshort⟩ := h.tight
    · obtain hshort | hends := h.callsShort_or_ends hs site ht
      · exact ⟨_, List.mem_cons_self .., hshort⟩
      · obtain ⟨e, he, hbound⟩ := (hs' ▸ hends).of_error.1
        obtain ⟨g, rfl, hg, -⟩ := Stop.eq_fault_of_settle he hf
        exact absurd (Stop.isUnbound_fault_iff.2 hg) hbound
    · exact ⟨e, List.mem_cons_of_mem _ he, hshort⟩

theorem survives : Survives fun s ↦ ∃ past, Reachable past s where
  books := fun ⟨past, h⟩ hs' ↦ ⟨past, h.books hs'⟩
  unwind := fun ⟨past, h⟩ ↦ ⟨past, h.unwound⟩
  returned := fun ⟨past, h⟩ ↦ ⟨past, h.returned⟩
  reset := fun ⟨past, h⟩ ↦ ⟨past, h.reset⟩
  execute site t ht := by
    refine ⟨fun s ⟨past, h⟩ ↦ ?_⟩
    cases hs' : LineBasic.execute site t s with
    | ok p s' => exact .ok trivial ⟨_, h.executed ht.isResolved hs'⟩
    | error e s' => exact .error trivial ⟨_, h.failed ht.isResolved hs'⟩

end Reachable
end Session

/-! ## Dialogues -/

namespace Dialogue

/-- What a host can do with a dialogue. -/
inductive Turn where
  /-- To submit a typed line. -/
  | submit (text : String)
  /-- To execute a typed line. -/
  | type (text : String)
  /-- To run the stored program. -/
  | run
  /-- To replace the stored program. -/
  | load (content : String)

/-- What is done in a turn. -/
def Turn.exchange : Turn → Exchange Unit
  | submit text => do let _ ← Dialogue.submit text
  | type text => onSession do let _ ← runTyped text
  | run => onSession runProgram
  | load content => onSession (Command.replaceProgram content)

/-- The dialogues that a host can come to.  Between turns, it may do to the rest of the dialogue
whatever it likes, such as queue input or change files. -/
inductive Reachable : Dialogue → Prop
  | start (settings : Settings) (console : Console) (bus : Bus) (seed : UInt64)
      (files : FileStore) : Reachable { session := .start settings console bus seed, files }
  | done {d d' turn} (h : Reachable d) (hd' : Turn.exchange turn d = .ok () d') : Reachable d'
  | failed {d d' turn failure} (h : Reachable d)
      (hd' : Turn.exchange turn d = .error failure d') : Reachable d'
  | outside {d d'} (h : Reachable d) (hd' : d.session.SameValues d'.session) : Reachable d'

theorem Turn.keeps_exchange {P : Session → Prop} (hP : Outlasts P) (turn : Turn) :
    Keeps (Has P) (fun _ ↦ True) turn.exchange := by
  cases turn with
  | submit text =>
    exact .bind (keeps_submit hP.endures (Entry.respects (P := P) hP.reset hP.edit _)) fun _ _ ↦
      .pure trivial
  | type text =>
    exact keeps_onSession (.bind (keeps_runTyped hP.endures text) fun _ _ ↦ .pure trivial)
  | run => exact keeps_onSession (keeps_runProgram hP.endures)
  | load content => exact keeps_onSession (keeps_replaceProgram (P := P) hP.reset hP.edit content)

/-- What holds at the start and survives what dialogues do to sessions, holds in all that are
reached. -/
theorem Reachable.of_survives {P : Session → Prop} (hP : Survives P)
    (hstart : ∀ settings console bus seed, P (.start settings console bus seed)) {d : Dialogue}
    (h : Reachable d) : P d.session := by
  induction h with
  | start settings console bus seed files => exact hstart settings console bus seed
  | @done d d' turn _ hd' ih => exact (hd' ▸ (turn.keeps_exchange hP.outlasts).run d ih).of_ok.2
  | @failed d d' turn _ _ hd' ih =>
    exact (hd' ▸ (turn.keeps_exchange hP.outlasts).run d ih).of_error.2
  | outside _ hd' ih => exact hP.books ih hd'

/-- The session of a dialogue is reachable. -/
theorem Reachable.session {d : Dialogue} (h : Reachable d) :
    ∃ past, Session.Reachable past d.session :=
  h.of_survives Session.Reachable.survives fun settings console bus seed ↦
    ⟨[], .start settings console bus seed⟩

end Dialogue

/-! ## The result -/

/-- The sessions of dialogues are reachable, and the statements of source lines are resolved.  In a
reachable session all functions are well-scoped; and if a resolved statement fails at a parameter,
then never for want of a frame, but because there is no argument at its position, and because that
statement or one before it calls a function with too few arguments. -/
theorem reachable_isWellScoped :
    (∀ d, Dialogue.Reachable d → ∃ past, Session.Reachable past d.session) ∧
    (∀ t : Tree, t.IsParsed → t.IsResolved) ∧
    ∀ past s, Session.Reachable past s →
      (∀ v, s.Stores v → ∀ c, v.Has c → c.IsWellScoped) ∧
      ∀ site t, t.IsResolved → ∀ f s', execute site t s = .error (.fault f) s' → f.IsUnbound →
        (∃ depth index given, given ≤ index ∧
          f = (Fault.missingArgument depth index given).locate site.line (some site.statement)) ∧
        ∃ e ∈ ⟨site, t, s⟩ :: past, e.CallsShort := by
  refine ⟨fun d hd ↦ hd.session, fun t ht ↦ ht.isResolved, fun past s h ↦ ⟨?_, ?_⟩⟩
  · exact fun v hv c hc ↦ h.isWellScoped_of_stores hv hc
  · exact fun site t ht f s' hs' hf ↦ h.missing_of_execute site ht hs' hf

/-- A function of two parameters is assigned, and called with one argument. -/
theorem reachable_isWellScoped_of_assigned :
    ∃ past s c, Session.Reachable past s ∧ s.Stores (.closure c) ∧ c.IsWellScoped ∧
      ∃ t f s', execute ⟨1, 1⟩ t s = .error (.fault f) s' ∧ f.IsUnbound ∧
        ∃ e ∈ ⟨⟨1, 1⟩, t, s⟩ :: past, e.CallsShort := by
  let assignment : Tree := .binary .assign (.ident "F") (.lambda ["X", "Y"] (.ident "Y"))
  let call : Tree := .call "F" [.boolean true] []
  have hassignment : assignment.resolve.IsResolved :=
    ⟨assignment, .expression ⟨trivial, trivial⟩, rfl⟩
  have hcall : call.resolve.IsResolved := ⟨call, .expression ⟨trivial, trivial⟩, rfl⟩
  obtain ⟨p, s, f, s', hs, hentries, hs', hf⟩ : ∃ p s f s',
      execute ⟨1, 0⟩ assignment.resolve (.start {} {} .unavailable 0) = .ok p s ∧
      s.vars.table.entries = [("F", .closure (.mk 2 (.parameter 0 1) [] "F"))] ∧
      execute ⟨1, 1⟩ call.resolve s = .error (.fault f) s' ∧ f.IsUnbound :=
    ⟨_, _, _, _, rfl, rfl, rfl, rfl, rfl⟩
  have hreachable := (Session.Reachable.start {} {} .unavailable 0).executed hassignment hs
  have hstores : s.Stores (.closure (.mk 2 (.parameter 0 1) [] "F")) :=
    .assigned (hentries ▸ List.mem_singleton_self _)
  obtain ⟨hscoped, hmissing⟩ := reachable_isWellScoped.2.2 _ _ hreachable
  exact ⟨_, s, _, hreachable, hstores, hscoped _ hstores _ (.itself _), _, f, s', hs', hf,
    (hmissing ⟨1, 1⟩ _ hcall f s' hs' hf).2⟩

end LineBasic
