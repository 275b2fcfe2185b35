import CoralSwap.Lib.Machine

/-!
# Published events

The calls of a machine publish events, and a call that fails takes its events back with it. A reader sees
the events alone. What the reader keeps follows the state as far as the events of each accepted call say
what the call did.
-/

namespace Host

/-- A call together with the events it publishes where it returns. -/
def Call.publishing {ε σ Event : Type} (call : Call ε σ) (events : List Event) :
    Call ε (σ × List Event) := do
  let after ← call
  pure (after, events)

@[simp]
theorem Call.publishing_eq_ok {ε σ Event : Type} {call : Call ε σ} {events events' : List Event} {after : σ} :
    call.publishing events = .ok (after, events') ↔ call = .ok after ∧ events = events' := by
  simp only [publishing, bind_eq_ok, pure_eq_ok, Prod.mk.injEq]
  constructor
  · rintro ⟨_, hcall, rfl, rfl⟩
    exact ⟨hcall, rfl⟩
  · rintro ⟨hcall, rfl⟩
    exact ⟨after, hcall, rfl, rfl⟩

@[simp]
theorem Call.fst_publishing {ε σ Event : Type} (call : Call ε σ) (events : List Event) :
    Prod.fst <$> call.publishing events = call := by
  cases call <;> rfl

/-- A call whose events depend on what it answers. The answer is dropped. -/
def Call.reporting {ε σ α Event : Type} (call : Call ε (σ × α)) (events : α → List Event) :
    Call ε (σ × List Event) := do
  let (after, answer) ← call
  pure (after, events answer)

@[simp]
theorem Call.reporting_eq_ok {ε σ α Event : Type} {call : Call ε (σ × α)} {events : α → List Event}
    {after : σ} {published : List Event} :
    call.reporting events = .ok (after, published) ↔
      ∃ answer, call = .ok (after, answer) ∧ events answer = published := by
  simp only [reporting, bind_eq_ok, pure_eq_ok, Prod.mk.injEq]
  constructor
  · rintro ⟨⟨_, answer⟩, hcall, rfl, rfl⟩
    exact ⟨answer, hcall, rfl⟩
  · rintro ⟨answer, hcall, rfl⟩
    exact ⟨(after, answer), hcall, rfl, rfl⟩

@[simp]
theorem Call.fst_reporting {ε σ α Event : Type} (call : Call ε (σ × α)) (events : α → List Event) :
    Prod.fst <$> call.reporting events = do return (← call).1 := by
  cases call <;> rfl

/-- The events the calls of a machine publish. Publishing changes nothing of what the calls do. -/
structure Journal {σ ι ε : Type} (m : Machine σ ι ε) (Event : Type) where
  publish : σ → ι → Call ε (σ × List Event)
  exec_eq : ∀ s i, Prod.fst <$> publish s i = m.exec s i

namespace Journal

variable {σ ι ε Event View : Type} {m : Machine σ ι ε} (j : Journal m Event)

/-- What the accepted calls of a run publish, in their order. -/
def log : σ → List ι → List Event
  | _, [] => []
  | s, i :: rest =>
      match j.publish s i with
      | .ok (s', events) => events ++ log s' rest
      | .error _ => log s rest

variable {j}

theorem exec_of_publish {s s' : σ} {i : ι} {events : List Event}
    (hpublish : j.publish s i = .ok (s', events)) : m.exec s i = .ok s' := by
  rw [← j.exec_eq, hpublish]
  rfl

theorem step_of_publish {s s' : σ} {i : ι} {events : List Event}
    (hpublish : j.publish s i = .ok (s', events)) : m.step s i = s' :=
  Machine.step_of_exec_ok (exec_of_publish hpublish)

theorem step_of_refused {s : σ} {i : ι} {fault : Fault ε} (hrefused : j.publish s i = .error fault) :
    m.step s i = s := by
  have hexec : m.exec s i = .error fault := by
    rw [← j.exec_eq, hrefused]
    rfl
  simp [Machine.step, hexec]

theorem log_cons_of_publish {s s' : σ} {i : ι} {events : List Event}
    (hpublish : j.publish s i = .ok (s', events)) (rest : List ι) :
    j.log s (i :: rest) = events ++ j.log s' rest := by
  rw [log, hpublish]

theorem log_cons_of_refused {s : σ} {i : ι} {fault : Fault ε} (hrefused : j.publish s i = .error fault)
    (rest : List ι) : j.log s (i :: rest) = j.log s rest := by
  rw [log, hrefused]

/-- **Readers.** A relation between what is read and the state that the events of every accepted call carry
over holds after a run, whatever was read before. -/
theorem read_log {read : View → Event → View} (Tracks : View → σ → Prop) {P : σ → ι → Prop}
    (hstep : ∀ view s i s' events, Tracks view s → P s i → j.publish s i = .ok (s', events) →
      Tracks (events.foldl read view) s')
    {view : View} {s : σ} (hstart : Tracks view s) {calls : List ι} (hP : m.Along P s calls) :
    Tracks ((j.log s calls).foldl read view) (m.run s calls) := by
  induction calls generalizing view s with
  | nil => exact hstart
  | cons i rest ih =>
      obtain ⟨hhead, htail⟩ := hP
      rw [Machine.run_cons]
      cases hpublish : j.publish s i with
      | error fault =>
          rw [step_of_refused hpublish] at htail ⊢
          rw [log_cons_of_refused hpublish]
          exact ih hstart htail
      | ok result =>
          obtain ⟨s', events⟩ := result
          rw [step_of_publish hpublish] at htail ⊢
          rw [log_cons_of_publish hpublish, List.foldl_append]
          exact ih (hstep view s i s' events hstart hhead hpublish) htail

/-- **Histories.** What the events of every accepted call keep, of the events so far and of the state, holds of
the log of a run and its end. -/
theorem log_invariant (Records : List Event → σ → Prop) {P : σ → ι → Prop}
    (hstep : ∀ past s i s' events, Records past s → P s i → j.publish s i = .ok (s', events) →
      Records (past ++ events) s')
    {past : List Event} {s : σ} (hstart : Records past s) {calls : List ι} (hP : m.Along P s calls) :
    Records (past ++ j.log s calls) (m.run s calls) := by
  have happend : ∀ past events : List Event,
      events.foldl (fun view event => view ++ [event]) past = past ++ events := by
    intro past events
    induction events generalizing past with
    | nil => exact (List.append_nil past).symm
    | cons event rest ih => rw [List.foldl_cons, ih, List.append_assoc, List.singleton_append]
  rw [← happend]
  refine read_log Records ?_ hstart hP
  intro past s i s' events hrecords hPi hpublish
  rw [happend]
  exact hstep past s i s' events hrecords hPi hpublish

/-- **Provenance.** Every event of a log was published by an accepted call of the run. -/
theorem exists_call_of_mem_log {s : σ} {calls : List ι} {event : Event} (hevent : event ∈ j.log s calls) :
    ∃ first i second s' events, calls = first ++ i :: second ∧
      j.publish (m.run s first) i = .ok (s', events) ∧ event ∈ events := by
  induction calls generalizing s with
  | nil => exact absurd hevent List.not_mem_nil
  | cons i rest ih =>
      cases hpublish : j.publish s i with
      | error fault =>
          rw [log_cons_of_refused hpublish] at hevent
          obtain ⟨first, later, second, s', events, rfl, hcall, hmem⟩ := ih hevent
          refine ⟨i :: first, later, second, s', events, rfl, ?_, hmem⟩
          rw [Machine.run_cons, step_of_refused hpublish]
          exact hcall
      | ok result =>
          obtain ⟨next, published⟩ := result
          rw [log_cons_of_publish hpublish, List.mem_append] at hevent
          rcases hevent with hnow | hlater
          · exact ⟨[], i, rest, next, published, rfl, hpublish, hnow⟩
          · obtain ⟨first, later, second, s', events, rfl, hcall, hmem⟩ := ih hlater
            refine ⟨i :: first, later, second, s', events, rfl, ?_, hmem⟩
            rw [Machine.run_cons, step_of_publish hpublish]
            exact hcall

/-- **Replay.** Where the events of every accepted call carry the view of the state before it to the view of
the state after it, the log of a run rebuilds the view of its end. -/
theorem replay_log {read : View → Event → View} (view : σ → View) (I : σ → Prop) {P : σ → ι → Prop}
    (hinv : ∀ s i s', I s → m.exec s i = .ok s' → I s')
    (hstep : ∀ s i s' events, I s → P s i → j.publish s i = .ok (s', events) →
      events.foldl read (view s) = view s')
    {s : σ} (hs : I s) {calls : List ι} (hP : m.Along P s calls) :
    (j.log s calls).foldl read (view s) = view (m.run s calls) := by
  refine (read_log (fun read s => read = view s ∧ I s) ?_ ⟨rfl, hs⟩ hP).1
  rintro _ s i s' events ⟨rfl, hI⟩ hPi hpublish
  exact ⟨hstep s i s' events hI hPi hpublish, hinv s i s' hI (exec_of_publish hpublish)⟩

end Journal

end Host
