import Golusoris.Sessions.Manager

/-!
# An ended session stays ended

`Renew` and `Destroy` take the old ID out of the store. Nothing but a save under
that very ID puts it back, and a request that loaded the session earlier still
holds it: `saved_after_renew` is the run in which its save revives the session
that was just retired. In every run without such a save, each later load with
the old ID begins a new session.
-/

namespace Golusoris.Sessions

open Lib

variable {Value : Type} {manager : Manager Value}
variable {before after finish : State Value} {event : Event Value}
variable {events earlier later middle : List (Event Value)} {old : String}

/-- Nothing is stored under an ID once its session has ended. -/
def Undisturbed (events : List (Event Value)) : Prop :=
  ∀ earlier ending later old, events = earlier ++ ending :: later →
    ending.retires = some old → ∀ event ∈ later, event.writes ≠ some old

/-- Once `Renew` or `Destroy` has returned, a load with the old ID is given a
fresh session, unless its context ends first. -/
def FixationSafe (events : List (Event Value)) : Prop :=
  ∀ earlier ending middle holder context old now generated result later,
    events = earlier ++ ending :: middle ++
      .loaded holder context (some old) now generated result :: later →
    ending.retires = some old →
      result = newEmptySession generated ∨ context.canceled = true ∧ result = .error .canceled

variable (store : MemoryStore Value)

theorem MemoryStore.update_none (id : String) (absent : store old = none) :
    Function.update store id none old = none := by
  by_cases same : old = id
  · rw [same, Function.update_self]
  · rw [Function.update_of_ne same, absent]

theorem MemoryStore.load_store (manager : Manager Value) (store : MemoryStore Value)
    (context : Context) (id : String) (now : Int) (absent : store old = none) :
    (store.load manager context id now).1 old = none := by
  unfold MemoryStore.load
  by_cases canceled : context.canceled = true
  · rw [if_pos canceled]
    exact absent
  · rw [if_neg canceled]
    cases store id with
    | none => exact absent
    | some entry =>
      by_cases expired : entry.expires ≤ now
      · simp only [expired, if_true]
        exact store.update_none id absent
      · simp only [expired, if_false]
        cases manager.copy entry.data with
        | error _ | ok _ => exact absent

theorem MemoryStore.save_store (manager : Manager Value) (store : MemoryStore Value)
    (context : Context) (id : String) (data : Data Value) (now : Int) :
    (∃ error, store.save manager context id data now = (store, .error error)) ∨
      ∃ entry, store.save manager context id data now =
        (Function.update store id (some entry), .ok ()) := by
  unfold MemoryStore.save
  by_cases canceled : context.canceled = true
  · rw [if_pos canceled]
    exact .inl ⟨_, rfl⟩
  · rw [if_neg canceled]
    cases manager.copy data with
    | error message => exact .inl ⟨_, rfl⟩
    | ok copy =>
      by_cases late : context.canceledAfter = true
      · exact .inl ⟨_, if_pos late⟩
      · exact .inr ⟨_, if_neg late⟩

theorem MemoryStore.delete_store (context : Context) (id : String) :
    store.delete context id = (store, .error .canceled) ∨
      store.delete context id = (Function.update store id none, .ok ()) := by
  unfold MemoryStore.delete
  split_ifs with canceled
  · exact .inl rfl
  · exact .inr rfl

/-- Loading an ID that is not in the store begins a new session. -/
theorem Manager.load_absent (manager : Manager Value) (store : MemoryStore Value)
    (context : Context) (now : Int) (generated : Option String) (absent : store old = none) :
    (manager.load store context (some old) now generated).2 = newEmptySession generated ∨
      context.canceled = true ∧
        (manager.load store context (some old) now generated).2 = .error .canceled := by
  unfold Manager.load MemoryStore.load
  by_cases canceled : context.canceled = true
  · simp [canceled]
  · simp [canceled, absent]

theorem Manager.load_store (manager : Manager Value) (store : MemoryStore Value)
    (context : Context) (cookie : Option String) (now : Int) (generated : Option String)
    (absent : store old = none) :
    (manager.load store context cookie now generated).1 old = none := by
  unfold Manager.load
  cases cookie with
  | none => exact absent
  | some id =>
    have gone := MemoryStore.load_store manager store context id now absent
    simp only
    generalize store.load manager context id now = loaded at gone ⊢
    obtain ⟨next, error | data⟩ := loaded
    · cases error with
      | canceled | notFound | copy _ | generateID => exact gone
    · exact gone

/-- The end of a session takes its ID out of the store. -/
theorem Step.retire (step : Step manager before event after) (ends : event.retires = some old) :
    after.store old = none := by
  cases step with
  | loadOk | loadFails | set | delete | save | renewSave | renewSaveFails => cases ends
  | @renewDelete _ _ id context _ | @destroy id context =>
    rcases MemoryStore.delete_store before.store context id with same | same
    · rw [same] at ends
      cases ends
    · rw [same] at ends ⊢
      cases ends
      exact Function.update_self ..

/-- An ID that is not in the store stays out of it, save for a write under it. -/
theorem Step.absent (step : Step manager before event after) (absent : before.store old = none)
    (elsewhere : event.writes ≠ some old) : after.store old = none := by
  cases step with
  | @loadOk _ context cookie now generated _ _ _ result
  | @loadFails _ context cookie now generated _ _ result =>
    have kept := manager.load_store before.store context cookie now generated absent
    rwa [result] at kept
  | set _ | delete _ => exact absent
  | @save holder session context now stands =>
    rcases MemoryStore.save_store manager before.store context session.id session.data now with
      ⟨error, same⟩ | ⟨entry, same⟩
    · rw [same]
      exact absent
    · rw [same] at elsewhere ⊢
      refine (Function.update_of_ne ?_ ..).trans absent
      rintro rfl
      exact elsewhere rfl
  | @renewSave holder session context now id store stands result =>
    rcases MemoryStore.save_store manager before.store context id session.data now with
      ⟨error, same⟩ | ⟨entry, same⟩
    · rw [result] at same
      cases same
    · obtain ⟨rfl, -⟩ := Prod.mk.inj (result.symm.trans same)
      refine (Function.update_of_ne ?_ ..).trans absent
      rintro rfl
      exact elsewhere rfl
  | @renewSaveFails holder session context now id store error stands result =>
    rcases MemoryStore.save_store manager before.store context id session.data now with
      ⟨error, same⟩ | ⟨entry, same⟩
    · obtain ⟨rfl, -⟩ := Prod.mk.inj (result.symm.trans same)
      exact absent
    · rw [result] at same
      cases same
  | @renewDelete _ _ id context _ | @destroy id context =>
    rcases MemoryStore.delete_store before.store context id with same | same
    · rw [same]
      exact absent
    · rw [same]
      exact before.store.update_none id absent

theorem Step.loaded_result {holder : Nat} {context : Context} {cookie : Option String} {now : Int}
    {generated : Option String} {result : Except Error (Session Value)}
    (step : Step manager before (.loaded holder context cookie now generated result) after) :
    result = (manager.load before.store context cookie now generated).2 := by
  cases step with
  | loadOk free same => rw [same]
  | loadFails same => rw [same]

/-- In every run in which nothing is stored under an ended ID, whatever requests
are under way, a load with that ID begins a new session. -/
theorem fixation_safe (manager : Manager Value) (events : List (Event Value))
    (finish : State Value) (run : (machine manager).Run events finish)
    (undisturbed : Undisturbed events) : FixationSafe events := by
  intro earlier ending middle holder context old now generated result later shape ends
  have split : events = earlier ++ ending ::
      (middle ++ .loaded holder context (some old) now generated result :: later) := by
    simpa using shape
  rw [split] at run
  obtain ⟨start, retired, -, step, rest⟩ := run.cut
  obtain ⟨asked, answered, between, load, -⟩ := rest.cut
  -- The store is without the ID from the end of the session to the load.
  have absent : asked.store old = none :=
    between.invariant_of (fun state => state.store old = none) (fun event => event.writes ≠ some old)
      (fun _ _ _ elsewhere absent step => Step.absent step absent elsewhere)
      (fun event member => undisturbed earlier ending _ old split ends event
        (List.mem_append_left _ member))
      (Step.retire step ends)
  rw [Step.loaded_result load]
  exact manager.load_absent asked.store context now generated absent

theorem day_positive : 0 < (24 * 60 * 60 * 10 ^ 9 : Int) := by decide

def dayManager : Manager Nat := ⟨24 * 60 * 60 * 10 ^ 9, .ok, day_positive⟩

def oldID : String := "AAAAAAAAAAAAAAAAAAAAAAAAAAAAAAAAAAAAAAAAAAA"

def newID : String := "AQAAAAAAAAAAAAAAAAAAAAAAAAAAAAAAAAAAAAAAAAA"

/-- A session is saved, ended and asked for again. -/
def logout : List (Event Nat) :=
  [.loaded 0 {} none 0 (some oldID) (.ok (newSession oldID)), .saved 0 oldID (.ok ()),
    .destroyed oldID (.ok ()), .loaded 1 {} (some oldID) 2 (some newID) (.ok (newSession newID))]

theorem logout_undisturbed : Undisturbed logout := by
  intro earlier ending later old shape ends event member
  -- Only the third event ends a session, and what follows it stores nothing.
  match earlier, shape with
  | [], shape =>
    obtain ⟨rfl, rfl⟩ := List.cons.inj shape
    cases ends
  | [_], shape =>
    obtain ⟨-, rfl, rfl⟩ := List.cons.inj shape
    cases ends
  | [_, _], shape =>
    obtain ⟨-, -, rfl, rfl⟩ := List.cons.inj shape
    obtain rfl := List.mem_singleton.mp member
    exact nofun
  | [_, _, _], shape =>
    obtain ⟨-, -, -, rfl, rfl⟩ := List.cons.inj shape
    cases ends
  | _ :: _ :: _ :: _ :: _, shape => simp [logout] at shape

theorem logout_safe : ∃ finish, (machine dayManager).Run logout finish ∧ Undisturbed logout ∧
    FixationSafe logout := by
  have run : ∃ finish, (machine dayManager).Run logout finish := by
    apply Exists.intro
    refine ⟨⟨fun _ => none, fun _ => none⟩, rfl, ?_⟩
    exact .cons (Step.loadOk rfl rfl) (.cons (@Step.save _ _ _ 0 (newSession oldID) {} 1 rfl)
      (.cons (@Step.destroy _ _ _ oldID {}) (.cons (Step.loadOk rfl rfl) (.nil _))))
  obtain ⟨finish, run⟩ := run
  exact ⟨finish, run, logout_undisturbed,
    fixation_safe dayManager logout finish run logout_undisturbed⟩

def signedIn : Session Nat := (newSession oldID).set "user" 7

/-- A visitor opens a session; one request loads it and is still working when
another one signs in and renews it. -/
def renewal : List (Event Nat) :=
  [.loaded 0 {} none 0 (some oldID) (.ok (newSession oldID)),
    .edited 0 signedIn,
    .saved 0 oldID (.ok ()),
    .loaded 1 {} (some oldID) 1 none (.ok signedIn),
    .loaded 2 {} (some oldID) 2 none (.ok signedIn),
    .renewSaved 2 newID (.ok ()),
    .renewed 2 oldID (.ok ())]

theorem renewal_run : ∃ finish, (machine dayManager).Run renewal finish ∧
    finish.store oldID = none ∧ finish.held 1 = some { session := signedIn } ∧
    finish.held 3 = none := by
  apply Exists.intro
  refine ⟨⟨⟨fun _ => none, fun _ => none⟩, rfl, ?_⟩, ?_⟩
  · exact .cons (Step.loadOk rfl rfl) (.cons (Step.set rfl) (.cons
      (@Step.save _ _ _ 0 signedIn {} 1 rfl) (.cons (Step.loadOk rfl rfl) (.cons
      (Step.loadOk rfl rfl) (.cons (@Step.renewSave _ _ _ 2 signedIn {} 3 newID _ rfl rfl)
      (.cons (@Step.renewDelete _ _ _ 2 { signedIn with id := newID } oldID {} rfl) (.nil _)))))))
  · exact ⟨rfl, rfl, rfl⟩

/-- The session that the renewal ended is back once the other request saves. -/
theorem saved_after_renew : ∃ events finish, (machine dayManager).Run events finish ∧
    ¬ FixationSafe events := by
  obtain ⟨renewed, run, absent, stands, free⟩ := renewal_run
  have saved := run.snoc (@Step.save _ dayManager renewed 1 signedIn {} 3 stands)
  have loaded := saved.snoc (@Step.loadOk _ dayManager _ 3 {} (some oldID) 4 (some newID) _
    signedIn free rfl)
  refine ⟨_, _, loaded, ?_⟩
  intro safe
  rcases safe (renewal.take 6) (.renewed 2 oldID (.ok ())) [.saved 1 oldID (.ok ())] 3 {} oldID 4
    (some newID) (.ok signedIn) [] rfl rfl with same | ⟨canceled, -⟩
  · have sameID : oldID = newID := congrArg Session.id (Except.ok.inj same)
    exact absurd sameID (by decide)
  · cases canceled

end Golusoris.Sessions
