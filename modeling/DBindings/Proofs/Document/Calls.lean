import DBindings.Proofs.Document.Events

/-!
# The calls of a walk

A walk over a unit calls what listens to it once for each event of the unit, in order, and the first
call that fails ends it.  Nothing is assumed of the listener: its calls change a state of any kind
and fail as they like.

* `Listener.Accepts`             calls that all succeed lead from one state to another;
* `Listener.run_forM_ok`         calls in a row succeed when all of them do;
* `Listener.run_forM_error`      they fail with the first that does, and the others are not made;
* `Listener.logged`              a listener with a log of the calls;
* `TranslationUnit.drive_calls`  the calls of a walk.
-/

namespace DBindings

/-- Something that is called for each event of a walk. -/
abbrev Listener (ε σ : Type) := Event → ExceptT ε (StateM σ) PUnit

namespace Listener
variable {ε σ : Type} (listener : Listener ε σ)

/-- Calls for some events all succeed, and lead from one state to another. -/
inductive Accepts : List Event → σ → σ → Prop where
  | nil (s : σ) : Accepts [] s s
  | cons {event : Event} {events : List Event} {s s₁ s' : σ} :
    (listener event).run s = (.ok (), s₁) → Accepts events s₁ s' → Accepts (event :: events) s s'

/-- The listener with a log of all calls, also of those that fail. -/
def logged : Listener ε (List Event × σ) := fun event t =>
  let (answer, s) := (listener event).run t.2
  (answer, t.1 ++ [event], s)

variable {listener}

theorem Accepts.cons_iff {event : Event} {events : List Event} {s s' : σ} :
    listener.Accepts (event :: events) s s' ↔
      ∃ s₁, (listener event).run s = (.ok (), s₁) ∧ listener.Accepts events s₁ s' := by
  constructor
  · intro h
    cases h with
    | cons hcall hrest => exact ⟨_, hcall, hrest⟩
  · rintro ⟨s₁, hcall, hrest⟩
    exact .cons hcall hrest

/-! ## Calls in a row -/

theorem run_bind (x : ExceptT ε (StateM σ) PUnit) (y : PUnit → ExceptT ε (StateM σ) PUnit) (s : σ) :
    (x >>= y).run s = match x.run s with
      | (.ok a, s₁) => (y a).run s₁
      | (.error e, s₁) => (.error e, s₁) := by
  show ExceptT.bindCont y (x.run s).1 (x.run s).2 = _
  rcases x.run s with ⟨_ | _, s₁⟩ <;> rfl

theorem run_forM_of_ok {event : Event} {events : List Event} {s s₁ : σ}
    (h : (listener event).run s = (.ok (), s₁)) :
    ((event :: events).forM listener).run s = (events.forM listener).run s₁ := by
  show (listener event >>= fun _ => events.forM listener).run s = _
  rw [run_bind, h]

theorem run_forM_of_error {event : Event} {events : List Event} {s s₁ : σ} {e : ε}
    (h : (listener event).run s = (.error e, s₁)) :
    ((event :: events).forM listener).run s = (.error e, s₁) := by
  show (listener event >>= fun _ => events.forM listener).run s = _
  rw [run_bind, h]

theorem run_forM_ok {events : List Event} {s s' : σ} :
    (events.forM listener).run s = (.ok (), s') ↔ listener.Accepts events s s' := by
  induction events generalizing s with
  | nil =>
    constructor
    · rintro ⟨⟩
      exact .nil _
    · rintro ⟨⟩
      rfl
  | cons event events ih =>
    rw [Accepts.cons_iff]
    rcases hcall : (listener event).run s with ⟨_ | _, s₁⟩
    · rw [run_forM_of_error hcall]
      constructor
      · rintro ⟨⟩
      · rintro ⟨_, ⟨⟩, _⟩
    · rw [run_forM_of_ok hcall, ih]
      constructor
      · exact fun hrest => ⟨s₁, rfl, hrest⟩
      · rintro ⟨s₂, ⟨⟩, hrest⟩
        exact hrest

theorem run_forM_error {events : List Event} {s s' : σ} {e : ε} :
    (events.forM listener).run s = (.error e, s') ↔
      ∃ front event back s₁, events = front ++ event :: back ∧ listener.Accepts front s s₁ ∧
        (listener event).run s₁ = (.error e, s') := by
  constructor
  · intro h
    induction events generalizing s with
    | nil => exact nomatch h
    | cons event events ih =>
      rcases hcall : (listener event).run s with ⟨_ | _, s₁⟩
      · rw [run_forM_of_error hcall] at h
        exact ⟨[], event, events, s, rfl, .nil s, hcall.trans h⟩
      · rw [run_forM_of_ok hcall] at h
        obtain ⟨front, failed, back, s₂, rfl, hfront, hfailed⟩ := ih h
        exact ⟨event :: front, failed, back, s₂, rfl, .cons hcall hfront, hfailed⟩
  · rintro ⟨front, failed, back, s₁, rfl, hfront, hfailed⟩
    induction hfront with
    | nil s => exact run_forM_of_error hfailed
    | cons hcall _ ih => exact (run_forM_of_ok hcall).trans (ih hfailed)

/-! ## The log -/

theorem run_logged (event : Event) (made : List Event) (s : σ) :
    (listener.logged event).run (made, s) =
      (((listener event).run s).1, made ++ [event], ((listener event).run s).2) := rfl

theorem accepts_logged {events made made' : List Event} {s s' : σ} :
    listener.logged.Accepts events (made, s) (made', s') ↔
      made' = made ++ events ∧ listener.Accepts events s s' := by
  induction events generalizing made s with
  | nil =>
    constructor
    · rintro ⟨⟩
      exact ⟨(List.append_nil _).symm, .nil _⟩
    · rintro ⟨rfl, ⟨⟩⟩
      rw [List.append_nil]
      exact .nil _
  | cons event events ih =>
    rw [Accepts.cons_iff, Accepts.cons_iff]
    constructor
    · rintro ⟨⟨made₁, s₁⟩, hcall, hrest⟩
      rw [run_logged] at hcall
      obtain ⟨hanswer, hlog⟩ := Prod.mk.inj hcall
      obtain ⟨rfl, hs₁⟩ := Prod.mk.inj hlog
      obtain ⟨hmade, hrest⟩ := ih.1 hrest
      exact ⟨by simpa using hmade, s₁, Prod.ext hanswer hs₁, hrest⟩
    · rintro ⟨rfl, s₁, hcall, hrest⟩
      refine ⟨(made ++ [event], s₁), ?_, ih.2 ⟨by simp, hrest⟩⟩
      rw [run_logged, hcall]

end Listener

/-! ## Files -/

namespace Event

/-- The event says that a file begins or ends. -/
def isFileMark : Event → Bool
  | .beginFile _ | .endFile _ => true
  | _ => false

end Event

mutual

theorem Decl.not_isFileMark_of_events {event : Event} :
    (d : Decl) → event ∈ d.events → event.isFileMark = false
  | .space _ members, h => Decl.not_isFileMark_of_eventsAll members h
  | .record _ _ _ _, h => by
    rcases List.mem_pair.1 h with rfl | rfl <;> rfl
  | .enumeration _ _, h | .function _ _, h | .typedef _ _, h | .var _ _, h | .macroDef _ _, h => by
    rw [List.mem_singleton.1 h]
    rfl

theorem Decl.not_isFileMark_of_eventsAll {event : Event} :
    (ds : List Decl) → event ∈ Decl.eventsAll ds → event.isFileMark = false
  | [], h => absurd h List.not_mem_nil
  | d :: ds, h => by
    rcases List.mem_append.1 h with h | h
    · exact Decl.not_isFileMark_of_events d h
    · exact Decl.not_isFileMark_of_eventsAll ds h

end

theorem Decl.eventsAll_append (a b : List Decl) :
    Decl.eventsAll (a ++ b) = Decl.eventsAll a ++ Decl.eventsAll b := by
  induction a with
  | nil => rfl
  | cons d a ih => rw [List.cons_append, Decl.eventsAll, Decl.eventsAll, ih, List.append_assoc]

namespace TranslationUnit

/-- Without the marks of files, the events are those of the declarations in their order. -/
theorem filter_events (unit : TranslationUnit) :
    unit.events.filter (!·.isFileMark) = Decl.eventsAll unit.roots := by
  have hdecls (ds : List Decl) :
      (Decl.eventsAll ds).filter (!·.isFileMark) = Decl.eventsAll ds :=
    List.filter_eq_self.2 fun event h => by rw [Decl.not_isFileMark_of_eventsAll ds h]; rfl
  unfold events roots
  induction unit.files with
  | nil => rfl
  | cons file files ih =>
    rw [List.flatMap_cons, List.flatMap_cons, Decl.eventsAll_append, List.filter_append, ih]
    simp only [List.filter_cons, List.filter_append, hdecls]
    simp [Event.isFileMark]

/-- A walk makes the calls of the events of a unit in their order.  It succeeds when all calls do; a
call that fails is the last one, and the error is that of the walk.  How declarations are split into
files decides nothing but where files begin and end. -/
theorem drive_calls {ε σ : Type} (unit : TranslationUnit) (listener : Listener ε σ) (s : σ) :
    (∀ s', (unit.drive listener).run s = (.ok (), s') ↔ listener.Accepts unit.events s s') ∧
    (∀ e s', (unit.drive listener).run s = (.error e, s') ↔
      ∃ front event back s₁, unit.events = front ++ event :: back ∧
        listener.Accepts front s s₁ ∧ (listener event).run s₁ = (.error e, s')) ∧
    (∀ made s', (unit.drive listener.logged).run ([], s) = (.ok (), made, s') ↔
      made = unit.events ∧ (unit.drive listener).run s = (.ok (), s')) ∧
    (∀ e made s', (unit.drive listener.logged).run ([], s) = (.error e, made, s') ↔
      ∃ front event back s₁, unit.events = front ++ event :: back ∧ made = front ++ [event] ∧
        listener.Accepts front s s₁ ∧ (listener event).run s₁ = (.error e, s')) ∧
    ∀ before after path path' a b,
      (mk (before ++ ⟨path, a⟩ :: ⟨path', b⟩ :: after)).events.filter (!·.isFileMark) =
        (mk (before ++ ⟨path, a ++ b⟩ :: after)).events.filter (!·.isFileMark) := by
  rw [drive_eq_forM, drive_eq_forM]
  refine ⟨fun s' => Listener.run_forM_ok, fun e s' => Listener.run_forM_error,
    fun made s' => ?_, fun e made s' => ?_, fun before after path path' a b => ?_⟩
  · rw [Listener.run_forM_ok, Listener.run_forM_ok, Listener.accepts_logged, List.nil_append]
  · rw [Listener.run_forM_error]
    constructor
    · rintro ⟨front, event, back, ⟨log, s₁⟩, hevents, hfront, hfailed⟩
      obtain ⟨hfrontLog, hfront⟩ := Listener.accepts_logged.1 hfront
      rw [Listener.run_logged, hfrontLog, List.nil_append] at hfailed
      obtain ⟨hanswer, hlog⟩ := Prod.mk.inj hfailed
      obtain ⟨hmade, hs'⟩ := Prod.mk.inj hlog
      exact ⟨front, event, back, s₁, hevents, hmade.symm, hfront, Prod.ext hanswer hs'⟩
    · rintro ⟨front, event, back, s₁, hevents, rfl, hfront, hfailed⟩
      have hlogged : listener.logged.Accepts front ([], s) (front, s₁) :=
        Listener.accepts_logged.2 ⟨rfl, hfront⟩
      refine ⟨front, event, back, _, hevents, hlogged, ?_⟩
      rw [Listener.run_logged, hfailed]
  · rw [filter_events, filter_events]
    simp [roots]

/-- A record that is refused is not left, and what follows it in its namespace is not reported. -/
example :
    let point : Decl := .record { id := 2, name := some "Point" } { tag := .struct } [] []
    let unit : TranslationUnit :=
      ⟨[⟨"geo.h", [.space { id := 1 } [point, .macroDef { id := 3 } {}]]⟩]⟩
    let refusal : Listener DeclId Unit := fun
      | .enterRecord d => throw d.id
      | _ => pure ()
    (unit.drive refusal.logged).run ([], ()) =
      (.error 2, [.beginFile "geo.h", .enterRecord point], ()) := rfl

end TranslationUnit

end DBindings
