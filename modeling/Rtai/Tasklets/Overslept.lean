import Rtai.Lib.Run
import Rtai.Tasklets.Timers

/-!
# Timers that are overslept

The manager reads the first firing time and goes to sleep in two steps.  A timer that
becomes the first one in between corrects nothing, as the manager is not asleep yet, and the
manager oversleeps it.  There are two more ways to the same end: a firing time is stored
before the list is locked, so that a search may find the list out of order; and a timer that
is taken away before its correction takes the correction of the timers behind it along.

`none_overslept` says that these are all.  The invariant is about the time at which each
timer was put in its place: the list is in the order of these times.
-/

namespace Rtai.Tasklets

open Function Rtai.Lib

/-- The timer whose firing time is stored, but which is still in its old place. -/
def Call.moves {T : Type} : Call T → Option T
  | .relinking t _ => some t
  | .linking _ _ | .correcting _ _ => none

def Manager.moves {T : Type} : Manager T → Option T
  | .relinking _ t _ => some t
  | _ => none

/-- The time that `rt_sleep_until` will be called with. -/
def Manager.calls {T : Type} : Manager T → Option Int
  | .calling time => some time
  | _ => none

/-- The timer that will be fired. -/
def Manager.fires {T : Type} : Manager T → Option T
  | .firing _ t => some t
  | _ => none

/-- The time that the manager will be corrected to. -/
def Call.corrects {T : Type} : Call T → Option Int
  | .relinking _ time | .correcting _ time => some time
  | .linking _ _ => none

namespace State

variable {T C : Type}

/-- No timer is out of its place. -/
def Still (s : State T C) : Prop :=
  (∀ c, (s.calls c).bind Call.moves = none) ∧ s.manager.moves = none

/-- No service on the timer is under way. -/
def Unused (s : State T C) (t : T) : Prop := ∀ c, (s.calls c).map Call.timer ≠ some t

/-- A manager that is asleep wakes for every timer of the list in time. -/
def Served (s : State T C) : Prop :=
  s.manager = .asleep → ∀ t ∈ s.timers, s.resumeTime ≤ s.firingTime t

/-- No service has still to correct the manager. -/
def Corrected (s : State T C) : Prop := ∀ c, (s.calls c).bind Call.corrects = none

/-- So it does once the corrections that are under way have been made. -/
def Awaited (s : State T C) : Prop :=
  s.manager = .asleep → ∀ t ∈ s.timers, s.resumeTime ≤ s.firingTime t ∨
    ∃ c time, (s.calls c).bind Call.corrects = some time ∧ time ≤ s.firingTime t

theorem Awaited.served {s : State T C} (h : s.Awaited) (corrected : s.Corrected) : s.Served := by
  intro asleep t mem
  refine (h asleep t mem).resolve_right ?_
  rintro ⟨c, time, corrects, -⟩
  cases (corrected c).symm.trans corrects

/-- A new list, with the manager about to look at it. -/
structure Initial (s : State T C) : Prop where
  timers : s.timers = []
  manager : s.manager = .reading
  calls : ∀ c, s.calls c = none

end State

variable {T C : Type} [DecidableEq T]

/-- A manager that goes to sleep has read a time that is not later than the first firing time
now, and no timer is out of its place then, nor when another one is put in its place or
leaves it.  No service is called for a timer for which another one is under way. -/
def InTime (s : State T C) : Event T C → Prop
  | .insert _ t _ => s.Unused t ∧ s.manager.moves ≠ some t
  | .link _ => s.Still
  | .retime _ t _ => s.Unused t ∧ (t ∈ s.timers → s.Still)
  | .remove t => s.Unused t
  | .sleepUntil timeH =>
      ∀ time ∈ s.manager.calls, time > timeH → s.Still ∧ time ≤ s.firstTime
  | .fire => ∀ t ∈ s.manager.fires, (s.timer t).period ≠ 0 → t ∈ s.timers → s.Still
  | _ => True

/-- The list is in the order of `placed`, which is the firing time of every timer that is in
its place, and the manager that is asleep wakes for the first timer, or will be corrected. -/
structure Kept (placed : T → Int) (s : State T C) : Prop where
  nodup : s.timers.Nodup
  sorted : InOrder (fun a b => placed a ≤ placed b) s.timers
  settled : ∀ {t}, t ∈ s.timers → (∀ c, (s.calls c).bind Call.moves ≠ some t) →
    s.manager.moves ≠ some t → s.firingTime t = placed t
  single : ∀ {c c' t t'}, (s.calls c).bind Call.moves = some t →
    (s.calls c').bind Call.moves = some t' → c = c'
  apart : ∀ {c t}, (s.calls c).bind Call.moves = some t → s.manager.moves = none
  linking : ∀ {c t time}, s.calls c = some (.linking t time) →
    t ∉ s.timers ∧ s.firingTime t = time ∧ s.manager.moves ≠ some t
  relinking : ∀ {c t time}, s.calls c = some (.relinking t time) → s.firingTime t = time
  fired : ∀ {now t time}, s.manager = .relinking now t time → s.firingTime t = time
  alone : ∀ {c c' t}, (s.calls c).map Call.timer = some t →
    (s.calls c').map Call.timer = some t → c = c'
  front : s.manager = .asleep → ∀ t ∈ s.timers.head?, s.resumeTime ≤ placed t ∨
    ∃ c time, s.calls c = some (.correcting t time) ∧ time ≤ placed t

namespace Kept

variable {placed : T → Int} {s s' : State T C} {t : T} {c : C} {time : Int}

omit [DecidableEq T] in
theorem initial (h : s.Initial) : Kept s.firingTime s where
  nodup := by simp [h.timers]
  sorted := by simp [h.timers]
  settled := fun _ _ _ => rfl
  single := by simp [h.calls]
  apart := by simp [h.calls]
  linking := by simp [h.calls]
  relinking := by simp [h.calls]
  fired := by simp [h.manager]
  alone := by simp [h.calls]
  front := by simp [h.manager]

omit [DecidableEq T] in
/-- What the invariant says of a manager that is asleep. -/
theorem awaited (kept : Kept placed s) : s.Awaited := by
  intro asleep t mem
  by_cases moves : ∃ c, (s.calls c).bind Call.moves = some t
  · obtain ⟨c, moves⟩ := moves
    right
    cases call : s.calls c with
    | none =>
        rw [call] at moves
        cases moves
    | some call' =>
        rw [call] at moves
        cases call' with
        | linking => cases moves
        | correcting => cases moves
        | relinking u time =>
            cases moves
            exact ⟨c, time, by rw [call]; rfl, (kept.relinking call).ge⟩
  · have settled := kept.settled mem (fun c moves' => moves ⟨c, moves'⟩) (by rw [asleep]; nofun)
    cases timers : s.timers with
    | nil =>
        rw [timers] at mem
        cases mem
    | cons h rest =>
        have first : placed h ≤ placed t := by
          have sorted := kept.sorted
          rw [timers] at sorted mem
          rcases List.mem_cons.mp mem with rfl | mem
          · exact le_rfl
          · exact (List.pairwise_cons.mp sorted).1 t mem
        rw [settled]
        rcases kept.front asleep h (by rw [timers]; rfl) with early | ⟨c, time, call, le⟩
        · exact .inl (early.trans first)
        · exact .inr ⟨c, time, by rw [call]; rfl, le.trans first⟩

/-- A timer is put in its place in a part of the list in which all are in theirs. -/
theorem place {l : List T} (time : Int) (nodup : l.Nodup) (off : t ∉ l)
    (sorted : InOrder (fun a b => placed a ≤ placed b) l)
    (settled : ∀ u ∈ l, s.firingTime u = placed u) :
    (enqueue (s.Past time) t l).Nodup ∧
      InOrder (fun a b => update placed t time a ≤ update placed t time b)
        (enqueue (s.Past time) t l) := by
  refine ⟨enqueue_perm.nodup_iff.mpr (List.nodup_cons.mpr ⟨off, nodup⟩), ?_⟩
  have other {u : T} (mem : u ∈ l) : u ≠ t := by
    rintro rfl
    exact off mem
  have same : enqueue (s.Past time) t l =
      enqueue (fun a b => update placed t time a ≤ update placed t time b) t l := by
    refine enqueue_congr fun u mem => ?_
    rw [State.Past, settled u mem, update_of_ne (other mem), update_self]
  rw [same]
  refine InOrder.enqueue (fun _ _ => le_total _ _) le_trans ?_
  refine sorted.imp_of_mem fun {a b} ha hb le => ?_
  rw [update_of_ne (other ha), update_of_ne (other hb)]
  exact le

variable [DecidableEq C] {call : Option (Call T)} {now tol : Int}

omit [DecidableEq T] in
/-- A service begins, ends, or goes on, and may store a firing time. -/
theorem goesOn {timer : T → Timer} (kept : Kept placed s)
    (same : ∀ u, call.map Call.timer ≠ some u → (timer u).firingTime = s.firingTime u)
    (mine : ∀ u, call.map Call.timer = some u → (timer u).firingTime = s.firingTime u ∨
      (call.bind Call.moves = some u ∨ u ∉ s.timers) ∧ s.manager.moves ≠ some u)
    (moves : ∀ u, call.bind Call.moves = some u → s.Still)
    (moved : ∀ u ∈ s.timers, (s.calls c).bind Call.moves = some u → call.bind Call.moves = some u)
    (linking : ∀ u time, call = some (.linking u time) →
      u ∉ s.timers ∧ (timer u).firingTime = time ∧ s.manager.moves ≠ some u)
    (relinking : ∀ u time, call = some (.relinking u time) → (timer u).firingTime = time)
    (alone : ∀ u, call.map Call.timer = some u → ∀ c', c' ≠ c →
      (s.calls c').map Call.timer ≠ some u)
    (front : s.manager = .asleep → ∀ u ∈ s.timers.head?, ∀ time,
      s.calls c = some (.correcting u time) →
        call = some (.correcting u time) ∨ s.resumeTime ≤ placed u) :
    Kept placed { s with timer := timer, calls := update s.calls c call } where
  nodup := kept.nodup
  sorted := kept.sorted
  settled := by
    intro u mem still apart
    have settled : s.firingTime u = placed u := by
      refine kept.settled mem (fun c' before => ?_) apart
      have after := still c'
      rcases eq_or_ne c' c with rfl | ne
      · simp only [update_self] at after
        exact after (moved u mem before)
      · simp only [update_of_ne ne] at after
        exact after before
    rw [← settled]
    by_cases about : call.map Call.timer = some u
    · refine (mine u about).resolve_right fun away => ?_
      have after := still c
      simp only [update_self] at after
      exact away.1.elim after fun off => off mem
    · exact same u about
  single := by
    intro c₁ c₂ u u' h₁ h₂
    rcases eq_or_ne c c₁ with rfl | ne₁ <;> rcases eq_or_ne c c₂ with rfl | ne₂
    · rfl
    · simp only [update_self, update_of_ne ne₂.symm] at h₁ h₂
      cases ((moves u h₁).1 c₂).symm.trans h₂
    · simp only [update_self, update_of_ne ne₁.symm] at h₁ h₂
      cases ((moves u' h₂).1 c₁).symm.trans h₁
    · simp only [update_of_ne ne₁.symm, update_of_ne ne₂.symm] at h₁ h₂
      exact kept.single h₁ h₂
  apart := by
    intro c' u h
    rcases eq_or_ne c' c with rfl | ne
    · simp only [update_self] at h
      exact (moves u h).2
    · simp only [update_of_ne ne] at h
      exact kept.apart h
  linking := by
    intro c' u time h
    rcases eq_or_ne c' c with rfl | ne
    · simp only [update_self] at h
      exact linking u time h
    · simp only [update_of_ne ne] at h
      obtain ⟨off, stored, apart⟩ := kept.linking h
      refine ⟨off, (same u fun about => ?_).trans stored, apart⟩
      exact alone u about c' ne (by rw [h]; rfl)
  relinking := by
    intro c' u time h
    rcases eq_or_ne c' c with rfl | ne
    · simp only [update_self] at h
      exact relinking u time h
    · simp only [update_of_ne ne] at h
      refine (same u fun about => ?_).trans (kept.relinking h)
      exact alone u about c' ne (by rw [h]; rfl)
  fired := by
    intro now u time h
    have moving : s.manager.moves = some u := congrArg Manager.moves h
    refine Eq.trans ?_ (kept.fired h)
    by_cases about : call.map Call.timer = some u
    · exact (mine u about).resolve_right fun away => away.2 moving
    · exact same u about
  alone := by
    intro c₁ c₂ u h₁ h₂
    rcases eq_or_ne c c₁ with rfl | ne₁ <;> rcases eq_or_ne c c₂ with rfl | ne₂
    · rfl
    · simp only [update_self, update_of_ne ne₂.symm] at h₁ h₂
      exact absurd h₂ (alone u h₁ c₂ ne₂.symm)
    · simp only [update_self, update_of_ne ne₁.symm] at h₁ h₂
      exact absurd h₁ (alone u h₂ c₁ ne₁.symm)
    · simp only [update_of_ne ne₁.symm, update_of_ne ne₂.symm] at h₁ h₂
      exact kept.alone h₁ h₂
  front := by
    intro asleep u first
    rcases kept.front asleep u first with early | ⟨c', time, call', le⟩
    · exact .inl early
    · rcases eq_or_ne c' c with rfl | ne
      · rcases front asleep u first time call' with still | early
        · exact .inr ⟨c', time, by simp [still], le⟩
        · exact .inl early
      · exact .inr ⟨c', time, by simpa [ne] using call', le⟩

omit [DecidableEq T] in
/-- A service comes to its last section or to its end. -/
theorem setCall (kept : Kept placed s)
    (about : ∀ u, call.map Call.timer = some u → (s.calls c).map Call.timer = some u)
    (last : ∀ u time, call ≠ some (.linking u time) ∧ call ≠ some (.relinking u time))
    (moved : ∀ u ∈ s.timers, (s.calls c).bind Call.moves ≠ some u)
    (front : s.manager = .asleep → ∀ u ∈ s.timers.head?, ∀ time,
      s.calls c = some (.correcting u time) →
        call = some (.correcting u time) ∨ s.resumeTime ≤ placed u) :
    Kept placed (s.setCall c call) := by
  refine kept.goesOn (fun _ _ => rfl) (fun _ _ => .inl rfl) (fun u moves => ?_)
    (fun u mem before => absurd before (moved u mem)) (fun u time h => absurd h (last u time).1)
    (fun u time h => absurd h (last u time).2) (fun u h c' ne before => ?_) front
  · rcases call with _ | _ | ⟨u', time⟩ | _
    · cases moves
    · cases moves
    · exact absurd rfl (last u' time).2
    · cases moves
  · exact ne (kept.alone before (about u h))

omit [DecidableEq C] in
/-- A timer is taken off the list. -/
theorem unlink (kept : Kept placed s)
    (front : s.manager = .asleep → ∀ c time, s.calls c ≠ some (.correcting t time)) :
    Kept placed (s.unlink t) where
  nodup := kept.nodup.erase t
  sorted := kept.sorted.sublist List.erase_sublist
  settled := fun mem => kept.settled (List.mem_of_mem_erase mem)
  single := kept.single
  apart := kept.apart
  linking := fun h =>
    have linking := kept.linking h
    ⟨fun mem => linking.1 (List.mem_of_mem_erase mem), linking.2⟩
  relinking := kept.relinking
  fired := kept.fired
  alone := kept.alone
  front := by
    intro asleep u first
    cases timers : s.timers with
    | nil => simp [State.unlink, timers] at first
    | cons h rest =>
        rcases eq_or_ne h t with rfl | ne
        · -- the next one is not earlier
          have covered := (kept.front asleep h (by rw [timers]; rfl)).resolve_right
            fun ⟨c, time, call, _⟩ => front asleep c time call
          have mem : u ∈ rest := by
            simp only [State.unlink, timers, List.erase_cons_head] at first
            exact List.mem_of_mem_head? first
          have sorted := kept.sorted
          rw [timers] at sorted
          exact .inl (covered.trans ((List.pairwise_cons.mp sorted).1 u mem))
        · have same : u ∈ s.timers.head? := by
            simp only [State.unlink, timers] at first ⊢
            rwa [List.erase_cons_tail (by simpa using ne)] at first
          exact kept.front asleep u same

omit [DecidableEq C] in
/-- A timer is put in its place. -/
theorem link (kept : Kept placed s) (off : t ∉ s.timers) (still : s.Still)
    (stored : s.firingTime t = time) (other : ∀ c time, s.calls c ≠ some (.linking t time))
    (front : s.manager = .asleep → ∃ c, s.calls c = some (.correcting t time)) :
    Kept (update placed t time) (s.link t time) := by
  have settled (u : T) (mem : u ∈ s.timers) : s.firingTime u = placed u :=
    kept.settled mem (fun c => by rw [still.1 c]; nofun) (by rw [still.2]; nofun)
  obtain ⟨nodup, sorted⟩ := place (s := s) time kept.nodup off kept.sorted settled
  have ne {u : T} (mem : u ∈ s.timers) : u ≠ t := by
    rintro rfl
    exact off mem
  refine ⟨nodup, sorted, fun {u} mem _ _ => ?_, kept.single, kept.apart, fun {c u time'} h => ?_,
    kept.relinking, kept.fired, kept.alone, fun asleep u first => ?_⟩
  · rcases mem_enqueue.mp mem with rfl | mem
    · rw [update_self]
      exact stored
    · rw [update_of_ne (ne mem)]
      exact settled u mem
  · have linking := kept.linking h
    refine ⟨fun mem => ?_, linking.2⟩
    rcases mem_enqueue.mp mem with rfl | mem
    · exact other c time' h
    · exact linking.1 mem
  · rcases enqueue_head first with rfl | first
    · obtain ⟨c, call⟩ := front asleep
      exact .inr ⟨c, time, call, by rw [update_self]⟩
    · rw [update_of_ne (ne (List.mem_of_mem_head? first))]
      exact kept.front asleep u first

omit [DecidableEq T] [DecidableEq C] in
/-- The manager goes on, and is not asleep. -/
theorem setManager {m : Manager T} (kept : Kept placed s) (moves : m.moves = none)
    (awake : m ≠ .asleep) (moved : ∀ u ∈ s.timers, s.manager.moves ≠ some u) :
    Kept placed (s.setManager m) where
  nodup := kept.nodup
  sorted := kept.sorted
  settled := fun mem still _ => kept.settled mem still (moved _ mem)
  single := kept.single
  apart := fun _ => moves
  linking := fun h =>
    have linking := kept.linking h
    ⟨linking.1, linking.2.1, by rw [State.setManager, moves]; nofun⟩
  relinking := kept.relinking
  fired := by
    intro now u time h
    cases (congrArg Manager.moves h).symm.trans moves
  alone := kept.alone
  front := fun asleep => absurd asleep awake

/-- The locked section of a service puts its timer in its place. -/
theorem linkFor (kept : Kept placed s) (call : (s.calls c).map Call.timer = some t)
    (off : t ∉ s.timers) (stored : s.firingTime t = time)
    (still : ∀ c', c' ≠ c → (s.calls c').bind Call.moves = none) (apart : s.manager.moves = none)
    (first : ∀ u time, s.calls c ≠ some (.correcting u time)) :
    Kept (update placed t time) ((s.link t time).setCall c (some (.correcting t time))) := by
  have corrects : Kept placed (s.setCall c (some (.correcting t time))) := by
    refine kept.setCall (fun u about => ?_) (fun _ _ => ⟨nofun, nofun⟩) (fun u mem moves => ?_)
      fun _ u _ time before => absurd before (first u time)
    · cases about
      exact call
    · -- a timer that moves is the one of the service
      cases before : s.calls c with
      | none =>
          rw [before] at call
          cases call
      | some call' =>
          rw [before] at call moves
          cases call' with
          | linking => cases moves
          | correcting => cases moves
          | relinking =>
              cases call
              cases moves
              exact off mem
  refine corrects.link off ⟨fun c' => ?_, apart⟩ stored (fun c' time' linking => ?_)
    fun _ => ⟨c, by simp [State.setCall]⟩
  · rcases eq_or_ne c' c with rfl | ne
    · simp [State.setCall, Call.moves]
    · simpa [State.setCall, ne] using still c' ne
  · rcases eq_or_ne c' c with rfl | ne
    · simp [State.setCall] at linking
    · simp only [State.setCall, update_of_ne ne] at linking
      exact ne (kept.alone (by rw [linking]; rfl) call)

omit [DecidableEq C] in
/-- The manager fires a timer for the next time later. -/
theorem storeFired (kept : Kept placed s) (mem : t ∈ s.timers) (still : s.Still) :
    Kept placed ((s.storeTime t time).setManager (.relinking now t time)) := by
  have others {u : T} (ne : u ≠ t) : (s.storeTime t time).firingTime u = s.firingTime u := by
    simp [State.firingTime, State.storeTime, State.setTimer, ne]
  refine ⟨kept.nodup, kept.sorted, fun {u} mem' _ apart => ?_, kept.single, fun {c u} h => ?_,
    fun {c u time'} h => ?_, fun {c u time'} h => ?_, fun {now' u time'} h => ?_, kept.alone, nofun⟩
  · have ne : u ≠ t := by
      rintro rfl
      exact apart rfl
    refine (others ne).trans (kept.settled mem' (fun c => ?_) ?_)
    · rw [still.1 c]
      nofun
    · rw [still.2]
      nofun
  · cases (still.1 c).symm.trans h
  · have linking := kept.linking h
    have ne : u ≠ t := by
      rintro rfl
      exact linking.1 mem
    exact ⟨linking.1, (others ne).trans linking.2.1, fun same => ne (Option.some.inj same).symm⟩
  · have moves : (s.calls c).bind Call.moves = some u := by
      have call : s.calls c = some (.relinking u time') := h
      rw [call]
      rfl
    cases (still.1 c).symm.trans moves
  · cases h
    simp [State.firingTime, State.storeTime, State.setTimer, State.setManager]

omit [DecidableEq C] in
/-- A section of the manager puts the timer in its place. -/
theorem linkFired (kept : Kept placed s) (moves : s.manager = .relinking now t time) :
    Kept (update placed t time) (((s.unlink t).link t time).setManager (.scanning now)) := by
  have moving : s.manager.moves = some t := congrArg Manager.moves moves
  have awake : s.manager ≠ .asleep := by
    rw [moves]
    nofun
  have off : t ∉ s.timers.erase t := fun mem => (kept.nodup.mem_erase_iff.mp mem).1 rfl
  have goes : Kept placed ((s.unlink t).setManager (.scanning now)) := by
    refine (kept.unlink fun asleep => absurd asleep awake).setManager rfl nofun fun u mem same => ?_
    cases moving.symm.trans same
    exact off mem
  refine goes.link off ⟨fun c => ?_, rfl⟩ (kept.fired moves) (fun c time' linking => ?_) nofun
  · cases call : (s.calls c).bind Call.moves with
    | none => exact call
    | some u => cases moving.symm.trans (kept.apart call)
  · exact (kept.linking linking).2.2 moving

omit [DecidableEq T] [DecidableEq C] in
/-- The first timer, while its service has still to correct the manager. -/
theorem of_first (kept : Kept placed s) (asleep : s.manager = .asleep) (first : t ∈ s.timers.head?)
    (call : s.calls c = some (.correcting t time)) : s.resumeTime ≤ placed t ∨ time ≤ placed t := by
  refine (kept.front asleep t first).imp_right ?_
  rintro ⟨c', time', call', le⟩
  obtain rfl : c = c' := kept.alone (t := t) (by rw [call]; rfl) (by rw [call']; rfl)
  cases call.symm.trans call'
  exact le

/-- The last section of a service. -/
theorem correct (kept : Kept placed s) (call : s.calls c = some (.correcting t time)) :
    Kept placed ((s.correct t time).setCall c none) := by
  have still (u : T) : (s.calls c).bind Call.moves ≠ some u := by
    rw [call]
    nofun
  unfold State.correct
  split
  next earlier =>
    obtain ⟨first, asleep, less⟩ := earlier
    have covered := kept.of_first asleep first call
    have le : time ≤ placed t := covered.elim less.le.trans id
    have corrected : Kept placed { s with resumeTime := time } := by
      refine { kept with front := fun _ u first' => .inl ?_ }
      cases first.symm.trans first'
      exact le
    refine corrected.setCall nofun (fun _ _ => ⟨nofun, nofun⟩) (fun u _ => still u)
      fun _ u first' _ _ => .inr ?_
    cases first.symm.trans first'
    exact le
  next not_earlier =>
    refine kept.setCall nofun (fun _ _ => ⟨nofun, nofun⟩) (fun u _ => still u)
      fun asleep u first time' before => .inr ?_
    cases call.symm.trans before
    rcases kept.of_first asleep first call with early | le
    · exact early
    · exact (not_lt.mp fun less => not_earlier ⟨first, asleep, less⟩).trans le

omit [DecidableEq T] [DecidableEq C] in
/-- The manager goes to sleep, or goes on at once. -/
theorem sleepUntil {timeH : Int} (kept : Kept placed s) (calling : s.manager = .calling time)
    (fresh : time > timeH → s.Still ∧ time ≤ s.firstTime) :
    Kept placed { s with
      resumeTime := time
      manager := if time > timeH then .asleep else .scanning (addTime time tol) } := by
  have moves : s.manager.moves = none := congrArg Manager.moves calling
  have moves' : (if time > timeH then Manager.asleep
      else .scanning (addTime time tol) : Manager T).moves = none := by
    split <;> rfl
  refine ⟨kept.nodup, kept.sorted, fun {u} mem still _ => ?_, kept.single, fun _ => moves',
    fun {c u time'} h => ?_, kept.relinking, fun {now u time'} h => ?_, kept.alone,
    fun asleep u first => .inl ?_⟩
  · refine kept.settled mem still ?_
    rw [moves]
    nofun
  · obtain ⟨off, stored, -⟩ := kept.linking h
    refine ⟨off, stored, ?_⟩
    dsimp only
    rw [moves']
    nofun
  · cases (congrArg Manager.moves h).symm.trans moves'
  · dsimp only at asleep first ⊢
    split at asleep
    next later =>
      obtain ⟨still, le⟩ := fresh later
      have settled : s.firingTime u = placed u := by
        refine kept.settled (List.mem_of_mem_head? first) (fun c => ?_) ?_
        · rw [still.1 c]
          nofun
        · rw [still.2]
          nofun
      have time_eq : s.firstTime = s.firingTime u := by
        rw [State.firstTime, Option.mem_def.mp first]
        rfl
      rw [← settled, ← time_eq]
      exact le
    next => cases asleep

/-- One step. -/
theorem step {e : Event T C} (kept : Kept placed s) (guard : InTime s e)
    (h : Tasklets.step tol e s = some s') : ∃ placed', Kept placed' s' := by
  unfold Tasklets.step at h
  cases e with
  | insert c t v =>
      obtain ⟨unused, apart⟩ := guard
      dsimp only at h
      split at h <;> cases h
      next call =>
        refine ⟨placed, kept.goesOn (fun u ne => ?_) (fun u about => ?_) nofun (fun u _ before => ?_)
          (fun u time same => ?_) nofun (fun u about c' _ => ?_) (fun _ u _ time before => ?_)⟩
        · have ne : u ≠ t := fun same => ne (by rw [same]; rfl)
          simp [State.firingTime, State.setTimer, ne]
        · cases about
          exact .inr ⟨.inr call.2, apart⟩
        · rw [call.1] at before
          cases before
        · cases same
          exact ⟨call.2, by simp [State.setTimer], apart⟩
        · cases about
          exact unused c'
        · cases call.1.symm.trans before
  | link c =>
      dsimp only at h
      split at h
      next t time call =>
        split at h <;> cases h
        obtain ⟨off, stored, -⟩ := kept.linking call
        refine ⟨_, kept.linkFor (by rw [call]; rfl) off stored (fun c' _ => guard.1 c') guard.2 ?_⟩
        rw [call]
        nofun
      next => cases h
  | retime c t time =>
      obtain ⟨unused, still⟩ := guard
      dsimp only at h
      split at h
      next idle =>
        split at h <;> cases h
        next mem =>
          refine ⟨placed, kept.goesOn (fun u ne => ?_) (fun u about => ?_) (fun _ _ => still mem)
            (fun u _ before => ?_) nofun (fun u time same => ?_) (fun u about c' _ => ?_)
            (fun _ u _ time before => ?_)⟩
          · have ne : u ≠ t := fun same => ne (by rw [same]; rfl)
            simp [State.firingTime, State.storeTime, State.setTimer, ne]
          · cases about
            refine .inr ⟨.inl rfl, ?_⟩
            rw [(still mem).2]
            nofun
          · rw [idle] at before
            cases before
          · cases same
            simp [State.storeTime, State.setTimer]
          · cases about
            exact unused c'
          · cases idle.symm.trans before
        next off =>
          refine ⟨placed, kept.goesOn (fun _ _ => rfl) (fun _ _ => .inl rfl) nofun
            (fun u _ before => ?_) nofun nofun (fun u about c' _ => ?_)
            (fun _ u _ time before => ?_)⟩
          · rw [idle] at before
            cases before
          · cases about
            exact unused c'
          · cases idle.symm.trans before
      next => cases h
  | relink c =>
      dsimp only at h
      split at h
      next t time call =>
        split at h <;> cases h
        have moves : (s.calls c).bind Call.moves = some t := by
          rw [call]
          rfl
        have about : (s.calls c).map Call.timer = some t := by
          rw [call]
          rfl
        have away : Kept placed (s.unlink t) := by
          refine kept.unlink fun _ c' time' correcting => ?_
          obtain rfl : c = c' := kept.alone about (by rw [correcting]; rfl)
          cases call.symm.trans correcting
        refine ⟨_, away.linkFor about (fun mem => (kept.nodup.mem_erase_iff.mp mem).1 rfl)
          (kept.relinking call) (fun c' ne => ?_) (kept.apart moves) ?_⟩
        · cases moves' : (s.calls c').bind Call.moves with
          | none => exact moves'
          | some u => exact absurd (kept.single moves' moves) ne
        · intro u time' correcting
          cases call.symm.trans correcting
      next => cases h
  | correct c =>
      dsimp only at h
      split at h <;> cases h
      next t time call => exact ⟨placed, kept.correct call⟩
  | remove t =>
      cases h
      refine ⟨placed, kept.unlink fun _ c time call => ?_⟩
      exact guard c (by rw [call]; rfl)
  | read =>
      dsimp only at h
      split at h <;> cases h
      next reading =>
        exact ⟨placed, kept.setManager rfl nofun fun _ _ => by rw [reading]; nofun⟩
  | sleepUntil timeH =>
      dsimp only at h
      split at h <;> cases h
      next time calling =>
        exact ⟨placed, kept.sleepUntil calling (guard time (by rw [calling]; rfl))⟩
  | wake timeH =>
      dsimp only at h
      split at h
      next asleep =>
        split at h <;> cases h
        exact ⟨placed, kept.setManager rfl nofun fun _ _ => by rw [asleep]; nofun⟩
      next => cases h
  | scan =>
      dsimp only at h
      split at h
      next scanning =>
        split at h <;> cases h
        refine ⟨placed, kept.setManager ?_ ?_ fun _ _ => by rw [scanning]; nofun⟩
        · split <;> rfl
        · split <;> nofun
      next => cases h
  | fire =>
      dsimp only at h
      split at h <;> cases h
      next now t firing =>
        have awake : s.manager ≠ .asleep := by
          rw [firing]
          nofun
        have apart : s.manager.moves = none := congrArg Manager.moves firing
        split
        next =>
          refine ⟨placed, (kept.unlink fun asleep => absurd asleep awake).setManager rfl nofun ?_⟩
          intro u _ moves
          cases apart.symm.trans moves
        next periodic =>
          split
          next mem =>
            have fires : t ∈ s.manager.fires := by rw [firing]; rfl
            exact ⟨placed, kept.storeFired mem (guard t fires periodic mem)⟩
          next =>
            refine ⟨placed, kept.setManager rfl nofun fun u _ moves => ?_⟩
            cases apart.symm.trans moves
  | relinkFired =>
      dsimp only at h
      split at h
      next now t time moves =>
        split at h <;> cases h
        exact ⟨_, kept.linkFired moves⟩
      next => cases h

end Kept

section

variable [Fintype C]

instance (s : State T C) : Decidable s.Still := inferInstanceAs (Decidable (_ ∧ _))

instance (s : State T C) (t : T) : Decidable (s.Unused t) :=
  inferInstanceAs (Decidable (∀ c, (s.calls c).map Call.timer ≠ some t))

instance (s : State T C) : Decidable s.Corrected :=
  inferInstanceAs (Decidable (∀ c, (s.calls c).bind Call.corrects = none))

instance (s : State T C) : ∀ e, Decidable (InTime s e)
  | .insert _ t _ => inferInstanceAs (Decidable (s.Unused t ∧ s.manager.moves ≠ some t))
  | .link _ => inferInstanceAs (Decidable s.Still)
  | .retime _ t _ => inferInstanceAs (Decidable (s.Unused t ∧ (t ∈ s.timers → s.Still)))
  | .remove t => inferInstanceAs (Decidable (s.Unused t))
  | .sleepUntil timeH =>
      inferInstanceAs (Decidable
        (∀ time ∈ s.manager.calls, time > timeH → s.Still ∧ time ≤ s.firstTime))
  | .fire =>
      inferInstanceAs (Decidable
        (∀ t ∈ s.manager.fires, (s.timer t).period ≠ 0 → t ∈ s.timers → s.Still))
  | .relink _ | .correct _ | .read | .wake _ | .scan | .relinkFired =>
      inferInstanceAs (Decidable True)

end

/-- The module after it has been loaded, with two timers and a task. -/
def loaded : State Bool Unit where
  timer := fun _ => ⟨0, 0, 0⟩

end Rtai.Tasklets
