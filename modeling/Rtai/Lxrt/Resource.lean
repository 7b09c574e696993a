import Rtai.Lib.Token
import Rtai.Lxrt.Links

/-!
# Resource semaphores

A resource semaphore is a token: it is free as long as its count is positive, and
otherwise one task has it, the owner or a task that a signal has taken off the queue and
that has still to run.
-/

namespace Rtai.Lxrt

open Function Rtai.Lib

variable {S T : Type} {how : Option Bool} {r : Option Int} {timed : Bool}

/-- The first task of the queue has been given the semaphore and has not run. -/
def Kernel.Handed (waits : T → Option (S × Bool)) (i : S) (k : Kernel S T) (t : T) : Prop :=
  (waits t).map Prod.fst = some i ∧ (k.task t).blockedOn = none

/-- The semaphore is free, or the owner's, or that of a task which has still to run. -/
structure Resource (waits : T → Option (S × Bool)) (i : S) (k : Kernel S T) : Prop where
  deep : 0 < (k.sem i).type
  cap : (k.sem i).count ≤ 1
  token : Token ((k.sem i).count > 0) fun t => (k.sem i).owndby = some t ∨ k.Handed waits i t
  /-- The owner is in no wait for it. -/
  outside : ∀ {t}, (k.sem i).owndby = some t → (waits t).map Prod.fst ≠ some i

namespace Resource

variable {waits waits' : T → Option (S × Bool)} {i j : S} {k k' : Kernel S T} {self t : T}

/-- While nobody owns it, what is not free is on its way to a task. -/
theorem handed (ok : Resource waits i k) (busy : ¬(k.sem i).count > 0)
    (unowned : (k.sem i).owndby = none) : ∃ t, k.Handed waits i t := by
  obtain ⟨t, owns | handed⟩ := ok.token.exists_of_not_free busy
  · cases unowned.symm.trans owns
  · exact ⟨t, handed⟩

theorem busy (ok : Resource waits i k) (owned : (k.sem i).owndby = some t) :
    ¬(k.sem i).count > 0 := ok.token.not_free (.inl owned)

theorem initial (sem : k.sem i = rtTypedSemInit 1 .RES_SEM) (idle : ∀ t, waits t = none) :
    Resource waits i k where
  deep := by simp [sem, rtTypedSemInit]
  cap := by simp [sem, rtTypedSemInit]
  token := .inl ⟨by simp [sem, rtTypedSemInit], by simp [sem, rtTypedSemInit, Kernel.Handed, idle]⟩
  outside := by
    intro t owned
    simp [sem, rtTypedSemInit] at owned

variable (ok : Resource waits i k)
include ok

/-- What is about other semaphores leaves it alone. -/
theorem congr (type : (k'.sem i).type = (k.sem i).type) (count : (k'.sem i).count = (k.sem i).count)
    (owndby : (k'.sem i).owndby = (k.sem i).owndby)
    (handed : ∀ t, k'.Handed waits' i t ↔ k.Handed waits i t)
    (inside : ∀ t, (waits' t).map Prod.fst = some i → (waits t).map Prod.fst = some i) :
    Resource waits' i k' where
  deep := type ▸ ok.deep
  cap := count ▸ ok.cap
  token := by
    rw [count, owndby]
    exact ok.token.congr Iff.rfl fun t => or_congr Iff.rfl (handed t)
  outside := by
    intro t owned now
    rw [owndby] at owned
    exact ok.outside owned (inside t now)

variable [DecidableEq S] [DecidableEq T]

/-- A wait for another semaphore begins or ends. -/
theorem elsewhere {wait : Option (S × Bool)} (sem : k'.sem i = k.sem i)
    (task : ∀ t, t ≠ self → k'.task t = k.task t) (before : (waits self).map Prod.fst ≠ some i)
    (after : wait.map Prod.fst ≠ some i) : Resource (update waits self wait) i k' := by
  refine ok.congr (by rw [sem]) (by rw [sem]) (by rw [sem]) (fun t => ?_) fun t inside => ?_
  · rcases eq_or_ne t self with rfl | ne
    · simp [Kernel.Handed, before, after]
    · simp [Kernel.Handed, ne, task t ne]
  · rcases eq_or_ne t self with rfl | ne
    · rw [update_self] at inside
      exact absurd inside after
    · rwa [update_of_ne ne] at inside

/-- The owner is not on the way to it. -/
theorem not_handed (owned : (k.sem i).owndby = some self) : ¬k.Handed waits i t := by
  intro handed
  obtain rfl := ok.token.unique (.inl owned) (.inr handed)
  exact ok.outside owned handed.1

/-- A task that is blocked on another semaphore is woken. -/
theorem woken (sem : k'.sem i = k.sem i)
    (task : ∀ t, k'.task t = k.task t ∨ (waits t).map Prod.fst ≠ some i) : Resource waits i k' := by
  refine ok.congr (by rw [sem]) (by rw [sem]) (by rw [sem]) (fun t => ?_) fun _ => id
  refine and_congr_right fun inside => ?_
  rw [(task t).resolve_right (not_not.mpr inside)]

/-- A signal to another semaphore. -/
theorem signal_other (linked : k.Linked waits) (ne : i ≠ j) (h : k.Signal j k') :
    Resource waits i k' := by
  refine ok.woken (h.other ne) fun t => ?_
  cases h with
  | nested => exact .inl rfl
  | kept => exact .inl rfl
  | @wakes u rest _ queue =>
      rcases eq_or_ne t u with rfl | other
      · have first := (linked.queued j t).mp (by rw [queue]; exact List.mem_cons_self)
        rw [first.1]
        exact .inr fun same => ne (Option.some.inj same).symm
      · exact .inl (update_of_ne other _ _)

/-- A broadcast on another semaphore. -/
theorem broadcast_other (linked : k.Linked waits) (ne : i ≠ j) :
    Resource waits i (k.rtSemBroadcast j) := by
  obtain ⟨sem, task⟩ := Kernel.rtSemBroadcast_spec (k := k) (i := j)
  refine ok.woken (by rw [sem, update_of_ne ne]) fun t => ?_
  rw [task]
  split
  next mem =>
    rw [((linked.queued j t).mp mem).1]
    exact .inr fun same => ne (Option.some.inj same).symm
  next => exact .inl rfl

/-- A signal takes the semaphore from its owner, or one level of it. -/
theorem signal (linked : k.Linked waits) (owned : (k.sem i).owndby = some self) (h : k.Signal i k') :
    Resource waits i k' := by
  have busy := ok.busy owned
  have deep := ok.deep
  cases h with
  | nested more =>
      refine ⟨?_, ?_, ?_, fun {t} => ?_⟩
      all_goals simp only [Kernel.setSem_sem, update_self]
      · omega
      · exact ok.cap
      · exact ok.token
      · exact ok.outside
  | kept top empty =>
      have idle := (linked.counted i).idle empty
      have count : (k.sem i).countUp = 1 := by
        rw [Sem.countUp, if_neg (by omega)]
        omega
      have released : (k.sem i).released = none := if_pos deep
      refine ⟨?_, ?_, ?_, fun {t} owned' => ?_⟩
      all_goals simp only [Kernel.setSem_sem, update_self] at *
      · exact deep
      · omega
      · refine ok.token.release (.inl owned) (by omega) fun q => ?_
        rw [released]
        constructor
        · rintro (⟨⟨⟩⟩ | handed)
          exact absurd handed (ok.not_handed owned)
        · rintro ⟨has, other⟩
          exact absurd (ok.token.unique has (.inl owned)) other
      · rw [released] at owned'
        cases owned'
  | @wakes t rest top queue =>
      have count := linked.countUp_of_queue queue
      have released : (k.sem i).released = none := if_pos deep
      have first := (linked.queued i t).mp (by rw [queue]; exact List.mem_cons_self)
      refine ⟨?_, ?_, ?_, fun {u} owned' => ?_⟩
      all_goals simp only [Kernel.setTask_sem, Kernel.setSem_sem, update_self] at *
      · exact deep
      · omega
      · refine ok.token.pass (q := t) (.inl owned) (by omega) fun r => ?_
        rw [released]
        have gone : ¬(((k.sem i).owndby = some r ∨ k.Handed waits i r) ∧ r ≠ self) := by
          rintro ⟨has, other⟩
          exact other (ok.token.unique has (.inl owned))
        rcases eq_or_ne r t with rfl | ne
        · simp [Kernel.Handed, Task.woken, first.1]
        · refine iff_of_false ?_ fun has => has.elim gone ne
          rintro (⟨⟨⟩⟩ | ⟨inside, off⟩)
          exact ok.not_handed owned (t := r) ⟨inside, by simpa [ne] using off⟩
      · rw [released] at owned'
        cases owned'

/-- A wait for it begins. -/
theorem waitFor (idle : waits self = none) (h : k.Wait how i self k' r) :
    Resource (update waits self (if r = none then some (i, how.isSome) else none)) i k' := by
  have deep := ok.deep
  have cap := ok.cap
  have same : update waits self none = waits := by
    rw [← idle, update_eq_self]
  have unhanded : ¬k.Handed waits i self := by
    rw [Kernel.Handed, idle]
    nofun
  cases h with
  | takes free =>
      have owner : (k.sem i).takenBy self = some self := if_pos deep
      rw [if_neg nofun, same]
      refine ⟨?_, ?_, ?_, fun {t} owned => ?_⟩
      all_goals simp only [Kernel.setSem_sem, update_self, owner] at *
      · exact deep
      · omega
      · refine ok.token.take (p := self) free (by omega) fun q => ?_
        constructor
        · rintro (⟨⟨⟩⟩ | handed)
          · exact .inr rfl
          · exact absurd (.inr handed) (ok.token.none free q)
        · rintro (has | rfl)
          · exact absurd has (ok.token.none free q)
          · exact .inl rfl
      · cases owned
        rw [idle]
        nofun
  | nested =>
      rw [if_neg nofun, same]
      refine ⟨?_, ?_, ?_, fun {t} => ?_⟩
      all_goals simp only [Kernel.setTask_sem, Kernel.setSem_sem, update_self]
      · omega
      · exact cap
      · refine ok.token.congr Iff.rfl fun t => or_congr Iff.rfl ?_
        rcases eq_or_ne t self with rfl | ne
        · simp [Kernel.Handed, idle]
        · simp [Kernel.Handed, ne]
      · exact ok.outside
  | late =>
      rw [if_neg nofun, same]
      refine ok.congr rfl rfl rfl (fun t => ?_) fun _ => id
      rcases eq_or_ne t self with rfl | ne
      · simp [Kernel.Handed, idle]
      · simp [Kernel.Handed, ne]
  | blocks busy other =>
      rw [if_pos rfl]
      refine ⟨?_, ?_, ?_, fun {t} owned => ?_⟩
      all_goals simp only [Kernel.setTask_sem, Kernel.setSem_sem, update_self, Kernel.place] at *
      · exact deep
      · omega
      · refine ok.token.congr (by omega) fun t => or_congr Iff.rfl ?_
        rcases eq_or_ne t self with rfl | ne
        · simp [Kernel.Handed, idle]
        · simp [Kernel.Handed, ne]
      · have ne : t ≠ self := by
          rintro rfl
          exact other ⟨deep, owned⟩
        rw [update_of_ne ne]
        exact ok.outside owned

/-- A wait for it ends. -/
theorem waitForEnd {r : Int} (linked : k.Linked waits) (inside : waits self = some (i, timed))
    (ready : (k.task self).Ready) (h : k.WaitEnd timed i self k' r) :
    Resource (update waits self none) i k' := by
  have deep := ok.deep
  have cap := ok.cap
  cases h with
  | takes off =>
      have owner : (k.sem i).takenBy self = some self := if_pos deep
      have handed : k.Handed waits i self := ⟨by rw [inside]; rfl, off⟩
      refine ⟨?_, ?_, ?_, fun {t} owned => ?_⟩
      all_goals simp only [Kernel.setSem_sem, update_self, owner] at *
      · exact deep
      · exact cap
      · refine ok.token.pass (q := self) (.inr handed) (ok.token.not_free (.inr handed)) fun t => ?_
        rcases eq_or_ne t self with rfl | ne
        · simp
        · have alone : ¬((k.sem i).owndby = some t ∨ k.Handed waits i t) :=
            fun has => ne (ok.token.unique has (.inr handed))
          refine iff_of_false ?_ fun has => has.elim (fun has => alone has.1) ne
          rintro (owned | ⟨waits', off⟩)
          · exact ne (Option.some.inj owned).symm
          · rw [update_of_ne ne] at waits'
            exact alone (.inr ⟨waits', off⟩)
      · cases owned
        rw [update_self]
        nofun
  | timeout _ still =>
      obtain ⟨blocked, mem⟩ := linked.still inside still
      have before := (linked.counted i).waiting (List.ne_nil_of_mem mem)
      have pos := List.length_pos_of_mem mem
      have count := linked.countUp_of_mem mem
      refine ⟨?_, ?_, ?_, fun {t} owned => ?_⟩
      all_goals simp only [Kernel.setTask_sem, Kernel.setSem_sem, update_self] at *
      · exact deep
      · omega
      · refine ok.token.congr (by omega) fun t => or_congr Iff.rfl ?_
        rcases eq_or_ne t self with rfl | ne
        · simp [Kernel.Handed, blocked]
        · simp [Kernel.Handed, ne]
      · rcases eq_or_ne t self with rfl | ne
        · rw [update_self]
          nofun
        · rw [update_of_ne ne]
          exact ok.outside owned
  | error plain still =>
      rw [plain] at inside
      obtain ⟨asleep, -⟩ := (linked.fits self).asleep inside still
      exact absurd ready.1 (by simp [asleep])

/-- A timer expires. -/
theorem expire : Resource waits i (k.expire t) := by
  refine ok.congr rfl rfl rfl (fun u => and_congr Iff.rfl ?_) fun _ => id
  rcases eq_or_ne u t with rfl | ne
  · simp [Kernel.expire, Kernel.makeReady]
  · simp [Kernel.expire, Kernel.makeReady, ne]

/-- A priority changes. -/
theorem changePriority {priority : Int} : Resource waits i (k.changePriority t priority) := by
  obtain ⟨task, sem⟩ := Kernel.changePriority_spec k t priority
  have blockedOn (u : T) :
      ((k.changePriority t priority).task u).blockedOn = (k.task u).blockedOn := by
    rw [task]
    split <;> rfl
  have handed (u : T) :
      (k.changePriority t priority).Handed waits i u ↔ k.Handed waits i u := by
    rw [Kernel.Handed, Kernel.Handed, blockedOn]
  rcases sem i with same | ⟨-, -, queue, -, moved⟩
  · exact ok.congr (by rw [same]) (by rw [same]) (by rw [same]) handed fun _ => id
  · exact ok.congr (by rw [moved]) (by rw [moved]) (by rw [moved]) handed fun _ => id

end Resource

/-! ## Levels -/

section

variable [DecidableEq S] [DecidableEq T] {waits : T → Option (S × Bool)} {i : S}
  {k k' : Kernel S T} {self : T}

/-- How many levels of a resource the task has. -/
def Sem.depth (self : T) (sem : Sem T) : Int := if sem.owndby = some self then sem.type else 0

/-- Without an owner a resource has one level to give. -/
def Kernel.Level (i : S) (k : Kernel S T) : Prop := (k.sem i).owndby = none → (k.sem i).type = 1

omit [DecidableEq S] [DecidableEq T] in
theorem Kernel.Level.congr (level : k.Level i) (type : (k'.sem i).type = (k.sem i).type)
    (owndby : (k'.sem i).owndby = (k.sem i).owndby) : k'.Level i := by
  intro unowned
  rw [type]
  exact level (owndby.symm.trans unowned)

section

variable (level : k.Level i) (deep : 0 < (k.sem i).type)
include level deep

theorem Kernel.Level.signal (h : k.Signal i k') : k'.Level i := by
  cases h with
  | nested more =>
      intro unowned
      simp only [Kernel.setSem_sem, update_self] at unowned
      exact absurd (level unowned) (by omega)
  | kept top =>
      intro _
      simp only [Kernel.setSem_sem, update_self]
      omega
  | wakes top =>
      intro _
      simp only [Kernel.setTask_sem, Kernel.setSem_sem, update_self]
      omega

theorem Kernel.Level.waitFor (h : k.Wait how i self k' r) : k'.Level i := by
  cases h with
  | takes =>
      intro unowned
      simp [Sem.takenBy, deep] at unowned
  | nested _ _ mine =>
      intro unowned
      simp [mine] at unowned
  | late => exact level
  | blocks => exact level.congr (by simp [Kernel.place]) (by simp [Kernel.place])

theorem Kernel.Level.waitForEnd {r : Int} (h : k.WaitEnd timed i self k' r) : k'.Level i := by
  cases h with
  | takes =>
      intro unowned
      simp [Sem.takenBy, deep] at unowned
  | timeout => exact level.congr (by simp) (by simp)
  | error => exact level

end

theorem Kernel.Level.changePriority {t : T} {p : Int} (level : k.Level i) :
    (k.changePriority t p).Level i := by
  rcases (Kernel.changePriority_spec k t p).2 i with same | ⟨-, -, queue, -, moved⟩
  · exact level.congr (by rw [same]) (by rw [same])
  · exact level.congr (by rw [moved]) (by rw [moved])

end

end Rtai.Lxrt
