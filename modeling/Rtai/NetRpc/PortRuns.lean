import Rtai.NetRpc.Ports

/-!
# Ports lead to their owners' stubs

A datagram of an earlier call that is received late undoes what a later call has done, and a
port that shares its stub with another is released with it.  In runs where neither happens,
where a reply finds its own call, and where no release empties a slot on the path of another
owner, no owner has two stubs, a port leads to its owner's stub until it is released, and a
release leaves none.
-/

namespace Rtai.NetRpc.Ports

open Function Rtai.Lib Rtai.NetRpc.Stubs

variable {n m : Nat} {P : Parties n}

abbrev Trace (n m : Nat) := List (Record (State n m) (Event n m))

structure Sound (P : Parties n) (s : State n m) : Prop where
  once : ∀ i k o, s.table.task i = some o → s.table.task k = some o → i = k
  leads : ∀ slot q, s.ports slot = some q → q.live = true →
    ∃ k : Index, q.port = k.val + BASEPORT ∧ s.table.task k = some (P.owner q.party)
  gone : ∀ p, s.released p = true → ∀ k, s.table.task k ≠ some (P.owner p)
  stray : s.stray = false

/-! ## Orderly runs -/

/-- No datagram of the other kind from a later call of the party has been served. -/
def State.Current (s : State n m) (d : Request n m) : Prop :=
  ∀ e ∈ s.served, e.party = d.party → (e.op = 0 ↔ d.op ≠ 0) → e.number < d.number

instance (s : State n m) (d : Request n m) : Decidable (s.Current d) :=
  inferInstanceAs (Decidable (∀ e ∈ s.served, e.party = d.party → (e.op = 0 ↔ d.op ≠ 0) → _))

/-- The slot is on the path of no other owner. -/
def State.OffPaths (s : State n m) (k : Index) : Prop :=
  ∀ x, x ≠ 0 → s.table.owner x ≠ 0 → ¬Before (hashFun (s.table.owner x)) k x

instance (s : State n m) (k : Index) : Decidable (s.OffPaths k) :=
  inferInstanceAs (Decidable (∀ _, _ → _ → _))

/-- A release is called for the party's only port.  A request is served before later
releases, or finds the stub.  A release that is served when the owner has a stub names its
slot, is served before later requests, and cuts no path.  A reply gets to its own call, which
has not returned. -/
def Orderly (P : Parties n) (s : State n m) : Event n m → Prop
  | .release p op _ => ∀ slot, slot ≠ op → ∀ q ∈ s.ports slot, q.party = p → q.live = false
  | .serve d _ =>
      if d.op = 0 then (∃ k, s.table.owner k = P.owner d.party) ∨ s.Current d
      else ∀ k, s.table.owner k = P.owner d.party →
        d.op = k.val + BASEPORT ∧ s.Current d ∧ s.OffPaths k
  | .deliver r => (∃ p, ∃ c ∈ s.calls p, c.slot = r.slot) ∧
      ∀ p, ∀ c ∈ s.calls p, c.slot = r.slot → r.party = p ∧ r.number = c.number
  | _ => True

instance (s : State n m) : (e : Event n m) → Decidable (Orderly P s e)
  | .request _ _ => inferInstanceAs (Decidable True)
  | .release _ _ _ => inferInstanceAs (Decidable (∀ _, _ → ∀ _ ∈ _, _ → _))
  | .send _ => inferInstanceAs (Decidable True)
  | .serve d _ => inferInstanceAs (Decidable (if d.op = 0 then _ ∨ _ else ∀ _, _ → _))
  | .deliver _ => inferInstanceAs (Decidable (_ ∧ ∀ _, ∀ _ ∈ _, _ → _))
  | .finish _ => inferInstanceAs (Decidable True)

/-! ## The table -/

/-- Every stub is in the slot of its owner. -/
structure Table.Ok (P : Parties n) (t : Table) : Prop where
  probed : Probed 0 hashFun 0 t.owner
  server : t.owner 0 = P.server
  task : ∀ k, k ≠ 0 → ∀ o, t.task k = some o ↔ t.owner k = o ∧ o ≠ 0
  reserved : t.task 0 = none

section

variable {t : Table} {p : Fin n} {o : Owner} {k : Index}

/-- A search ends at a slot that is free or the owner's, behind slots that are neither. -/
theorem search_spec {owner : Index → Owner} {turns : Nat} {j : Index}
    (more : Lib.reads (hashFun o) j + turns = LAST_STUB + 1)
    (passed : ∀ x, Before (hashFun o) x j → owner x ≠ 0 ∧ owner x ≠ o)
    (found : Table.search owner o turns j = some k) :
    (owner k = 0 ∨ owner k = o) ∧ ∀ x, Before (hashFun o) x k → owner x ≠ 0 ∧ owner x ≠ o := by
  induction turns generalizing j with
  | zero => cases found
  | succ turns ih =>
      simp only [Table.search] at found
      split at found
      next here =>
        cases found
        exact ⟨here, passed⟩
      next other =>
        by_cases round : j + 1 = hashFun o
        · have last : turns = 0 := by
            rw [reads_last round] at more
            omega
          subst last
          cases found
        · refine ih ?_ ?_ found
          · rw [reads_succ round]
            omega
          · intro x before
            cases (before_succ round).mp before with
            | inl before => exact passed x before
            | inr same =>
                subst same
                exact not_or.mp other

/-- What `port_server_fun` does with a request. -/
inductive Requested (P : Parties n) (t : Table) (p : Fin n) : Table × Int → Prop where
  | found (k : Index) (other : k ≠ 0) (here : t.owner k = P.owner p) :
      Requested P t p (t, k.val + BASEPORT)
  | made (k : Index) (other : k ≠ 0) (free : t.owner k = 0)
      (passed : ∀ x, Before (hashFun (P.owner p)) x k → t.owner x ≠ 0)
      (new : ∀ x, t.owner x ≠ P.owner p) :
      Requested P t p
        (⟨update t.owner k (P.owner p), update t.task k (some (P.owner p))⟩, k.val + BASEPORT)
  | failed (port : Int) (error : port < 0) : Requested P t p (t, port)

variable (ok : t.Ok P)
include ok

theorem Table.Ok.ne_server (p : Fin n) : t.owner 0 ≠ P.owner p := by
  rw [ok.server]
  exact (P.ne_server p).symm

theorem request_cases (p : Fin n) (noMemory : Bool) :
    Requested P t p (t.request noMemory (P.owner p)) := by
  rw [Table.request]
  split
  next => exact .failed _ (by decide)
  next k found =>
    obtain ⟨here, passed⟩ := search_spec (by simp [Lib.reads])
      (fun x before => absurd before not_before_start) found
    split
    next => exact .failed _ (by decide)
    next other =>
      split
      next some =>
        obtain ⟨o, made⟩ := Option.ne_none_iff_exists'.mp some
        obtain ⟨same, ne⟩ := (ok.task k other o).mp made
        have full : t.owner k ≠ 0 := same ▸ ne
        exact .found k other (here.resolve_left full)
      next none =>
        have none : t.task k = .none := not_not.mp none
        have free : t.owner k = 0 := by
          refine here.resolve_right fun same => ?_
          have made := (ok.task k other (P.owner p)).mpr ⟨same, P.ne_zero p⟩
          rw [none] at made
          cases made
        split
        next =>
          rw [← free, update_eq_self]
          exact .failed _ (by decide)
        next =>
          have new := ok.probed.absent free (P.ne_zero p) (ok.ne_server p) fun x before =>
            (passed x before).2
          exact .made k other free (fun x before => (passed x before).1) new

/-- What it does with a release. -/
inductive Released (P : Parties n) (t : Table) (p : Fin n) (op : Int) : Table × Int → Prop where
  | cleared (k : Index) (other : k ≠ 0) (names : op = k.val + BASEPORT)
      (here : t.owner k = P.owner p) :
      Released P t p op (⟨update t.owner k 0, update t.task k none⟩, op)
  | kept (port : Int) (unnamed : ∀ k : Index, op = k.val + BASEPORT → t.owner k ≠ P.owner p) :
      Released P t p op (t, port)

theorem release_cases (p : Fin n) (op : Int) : Released P t p op (t.release op (P.owner p)) := by
  rw [Table.release]
  split
  next inside =>
    have place (k : Index) : op = k.val + BASEPORT ↔ Fin.ofNat _ (op - BASEPORT).toNat = k := by
      have small : (op - BASEPORT).toNat < LAST_STUB + 1 := by omega
      rw [Fin.ext_iff, Fin.val_ofNat, Nat.mod_eq_of_lt small]
      omega
    dsimp only
    split
    next here =>
      refine .cleared _ ?_ ((place _).mpr rfl) here
      intro zero
      rw [zero] at here
      exact ok.ne_server p here
    next other =>
      refine .kept _ ?_
      intro k names
      rw [← (place k).mp names]
      exact other
  next outside =>
    refine .kept _ ?_
    intro k names
    have zero : k = 0 := by
      have := k.isLt
      apply Fin.ext
      simp only [names] at outside
      simp only [Fin.val_zero]
      omega
    rw [zero]
    exact ok.ne_server p

/-! ## What keeps the table -/

theorem Table.Ok.made (other : k ≠ 0) (free : t.owner k = 0)
    (passed : ∀ x, Before (hashFun (P.owner p)) x k → t.owner x ≠ 0)
    (new : ∀ x, t.owner x ≠ P.owner p) :
    Table.Ok P ⟨update t.owner k (P.owner p), update t.task k (some (P.owner p))⟩ where
  probed := ok.probed.put free (P.ne_zero p) passed new
  server := (update_of_ne other.symm _ _).trans ok.server
  task := by
    intro x ne o
    by_cases here : x = k
    · subst here
      simp only [update_self, Option.some.injEq]
      constructor
      · rintro rfl
        exact ⟨rfl, P.ne_zero p⟩
      · exact fun same => same.1
    · simp only [update_of_ne here]
      exact ok.task x ne o
  reserved := (update_of_ne other.symm _ _).trans ok.reserved

theorem Table.Ok.cleared (other : k ≠ 0)
    (off : ∀ x, x ≠ 0 → t.owner x ≠ 0 → ¬Before (hashFun (t.owner x)) k x) :
    Table.Ok P ⟨update t.owner k 0, update t.task k none⟩ where
  probed := ok.probed.clear other off
  server := (update_of_ne other.symm _ _).trans ok.server
  task := by
    intro x ne o
    by_cases here : x = k
    · subst here
      simp only [update_self]
      constructor
      · intro none
        cases none
      · rintro ⟨rfl, zero⟩
        exact absurd rfl zero
    · simp only [update_of_ne here]
      exact ok.task x ne o
  reserved := (update_of_ne other.symm _ _).trans ok.reserved

end

/-! ## The invariant -/

/-- The last that was served for the owner of a stub was a request. -/
def State.Wanted (s : State n m) (p : Fin n) : Prop :=
  ∃ d ∈ s.served, d.party = p ∧ d.op = 0 ∧
    ∀ e ∈ s.served, e.party = p → e.op ≠ 0 → e.number < d.number

/-- What a reply to a request has promised holds until a later release is served. -/
def State.Granted (P : Parties n) (s : State n m) (r : Reply n m) : Prop :=
  (∀ e ∈ s.served, e.party = r.party → e.op ≠ 0 → e.number < r.number) →
    ∃ k : Index, r.port = k.val + BASEPORT ∧ s.table.owner k = P.owner r.party

/-- A call is the party's last, and its port is from a reply to it. -/
structure CallOk (s : State n m) (p : Fin n) (c : Call m) : Prop where
  last : c.number = s.count p
  kind : c.op = none ↔ c.msgOp = 0
  sent : ∀ d ∈ s.asked, d.party = p → d.number = c.number → d.op = c.msgOp
  replied : c.port > 0 → ∃ r ∈ s.answered, r.party = p ∧ r.number = c.number ∧ r.port = c.port

/-- A live port is from a reply, and no release of its party has been called since. -/
structure LiveOk (s : State n m) (q : Port n) : Prop where
  replied : ∃ r ∈ s.answered, r.party = q.party ∧ r.op = 0 ∧ r.number = q.number ∧ r.port = q.port
  since : ∀ d ∈ s.asked, d.party = q.party → d.op ≠ 0 → d.number < q.number
  calls : ∀ c ∈ s.calls q.party, c.op = none

structure Inv (P : Parties n) (s : State n m) : Prop where
  table : s.table.Ok P
  counted : ∀ d ∈ s.asked, d.number ≤ s.count d.party
  asked : ∀ d ∈ s.served, d ∈ s.asked
  served : ∀ r ∈ s.answered, ∃ d ∈ s.served, d.party = r.party ∧ d.op = r.op ∧ d.number = r.number
  granted : ∀ r ∈ s.answered, r.op = 0 → r.port > 0 → s.Granted P r
  wanted : ∀ p k, s.table.owner k = P.owner p → s.Wanted p
  calls : ∀ {p c}, s.calls p = some c → CallOk s p c
  positive : ∀ {slot q}, s.ports slot = some q → q.port > 0
  live : ∀ {slot q}, s.ports slot = some q → q.live = true → LiveOk s q
  released : ∀ p, s.released p = true → s.calls p = none ∧
    ∃ e ∈ s.served, e.party = p ∧ e.op ≠ 0 ∧ e.number = s.count p
  stray : s.stray = false

theorem Inv.sound {s : State n m} (h : Inv P s) : Sound P s where
  once := by
    intro i k o at_i at_k
    have named {x : Index} (made : s.table.task x = some o) : s.table.owner x = o ∧ o ≠ 0 := by
      refine (h.table.task x ?_ o).mp made
      intro zero
      rw [zero, h.table.reserved] at made
      cases made
    have ⟨here, ne⟩ := named at_i
    exact h.table.probed.once (here.trans (named at_k).1.symm) (here ▸ ne)
  leads := by
    intro slot q port live
    have its := h.live port live
    obtain ⟨r, answered, party, op, number, value⟩ := its.replied
    have positive : r.port > 0 := value ▸ h.positive port
    have ⟨k, names, here⟩ := h.granted r answered op positive (by
      intro e served same release
      rw [number]
      exact its.since e (h.asked e served) (same.trans party) release)
    rw [party] at here
    refine ⟨k, value ▸ names, (h.table.task k ?_ _).mpr ⟨here, P.ne_zero _⟩⟩
    intro zero
    rw [zero] at here
    exact h.table.ne_server _ here
  gone := by
    intro p released k made
    have ⟨_, e, served, party, release, number⟩ := h.released p released
    have other : k ≠ 0 := by
      intro zero
      rw [zero, h.table.reserved] at made
      cases made
    have here := ((h.table.task k other _).mp made).1
    have ⟨d, request, same, _, later⟩ := h.wanted p k here
    have less := later e served party release
    have most := h.counted d (h.asked d request)
    rw [same] at most
    omega
  stray := h.stray

/-! ## The clients -/

section

variable {s s' : State n m} {p : Fin n} {c : Call m} {slot : Fin m} {d : Request n m}
  {r : Reply n m}

/-- A port of which nothing is asked, or that is from a reply, may be put into a slot. -/
theorem Inv.setPort (h : Inv P s) {port : Option (Port n)}
    (ok : ∀ q, port = some q → q.port > 0 ∧ (q.live = true → LiveOk s q)) :
    Inv P (s.setPort slot port) := by
  have its {k : Fin m} {q : Port n} (here : (s.setPort slot port).ports k = some q) :
      q.port > 0 ∧ (q.live = true → LiveOk s q) := by
    simp only [State.setPort] at here
    by_cases same : k = slot
    · rw [same, update_self] at here
      exact ok q here
    · rw [update_of_ne same] at here
      exact ⟨h.positive here, h.live here⟩
  exact { h with
    positive := fun here => (its here).1
    live := fun here live =>
      have old := (its here).2 live
      ⟨old.replied, old.since, old.calls⟩
    calls := fun called =>
      have old := h.calls called
      ⟨old.last, old.kind, old.sent, old.replied⟩
    granted := h.granted
    wanted := h.wanted }

theorem Inv.begin (h : Inv P s) {op : Option (Fin m)} {msgOp : Int} (kind : op = none ↔ msgOp = 0)
    (alone : op ≠ none → ∀ k q, s.ports k = some q → q.party = p → q.live = false) :
    Inv P (s.begin p op msgOp slot) where
  table := h.table
  counted := by
    intro d asked
    have most := h.counted d asked
    simp only [State.begin]
    by_cases same : d.party = p
    · rw [same, update_self]
      rw [same] at most
      omega
    · rw [update_of_ne same]
      exact most
  asked := h.asked
  served := h.served
  granted := h.granted
  wanted := h.wanted
  calls := by
    intro q c called
    simp only [State.begin] at called
    by_cases same : q = p
    · subst same
      rw [update_self] at called
      cases called
      refine ⟨?_, kind, ?_, ?_⟩
      · simp [State.begin]
      · intro d asked party number
        have most := h.counted d asked
        simp only [party] at most number
        omega
      · intro positive
        cases positive
    · rw [update_of_ne same] at called
      have old := h.calls called
      exact ⟨old.last.trans (update_of_ne same _ _).symm, old.kind, old.sent, old.replied⟩
  positive := h.positive
  live := by
    intro k q here live
    have old := h.live here live
    refine ⟨old.replied, old.since, ?_⟩
    intro c called
    simp only [State.begin] at called
    by_cases same : q.party = p
    · rw [same, update_self] at called
      cases called
      by_contra release
      have dead := alone release k q here same
      rw [live] at dead
      cases dead
    · rw [update_of_ne same] at called
      exact old.calls c called
  released := by
    intro q released
    simp only [State.begin] at released ⊢
    by_cases same : q = p
    · rw [same, update_self] at released
      cases released
    · rw [update_of_ne same] at released
      rw [update_of_ne same, update_of_ne same]
      exact h.released q released
  stray := h.stray

theorem Inv.send (h : Inv P s) (called : s.calls p = some c) :
    Inv P (s.send p c) where
  table := h.table
  counted := by
    intro d asked
    cases asked with
    | head => exact (h.calls called).last.le
    | tail _ asked => exact h.counted d asked
  asked := fun d served => .tail _ (h.asked d served)
  served := h.served
  granted := h.granted
  wanted := h.wanted
  calls := by
    intro q c' called'
    simp only [State.send] at called'
    by_cases same : q = p
    · subst same
      rw [update_self] at called'
      cases called'
      have old := h.calls called
      refine ⟨old.last, old.kind, ?_, old.replied⟩
      intro d asked party number
      cases asked with
      | head => rfl
      | tail _ asked => exact old.sent d asked party number
    · rw [update_of_ne same] at called'
      have old := h.calls called'
      refine ⟨old.last, old.kind, ?_, old.replied⟩
      intro d asked party number
      cases asked with
      | head => exact absurd party.symm same
      | tail _ asked => exact old.sent d asked party number
  positive := h.positive
  live := by
    intro k q here live
    have old := h.live here live
    refine ⟨old.replied, ?_, ?_⟩
    · intro d asked party release
      cases asked with
      | head =>
          have none := old.calls c (by rw [← party]; exact called)
          exact absurd ((h.calls called).kind.mp none) release
      | tail _ asked => exact old.since d asked party release
    · intro c' called'
      simp only [State.send] at called'
      by_cases same : q.party = p
      · rw [same, update_self] at called'
        cases called'
        exact old.calls c (by rw [same]; exact called)
      · rw [update_of_ne same] at called'
        exact old.calls c' called'
  released := by
    intro q released
    have ⟨idle, served⟩ := h.released q released
    refine ⟨?_, served⟩
    have other : q ≠ p := by
      rintro rfl
      rw [called] at idle
      cases idle
    exact (update_of_ne other _ _).trans idle
  stray := h.stray

theorem Inv.deliver (h : Inv P s) (answered : r ∈ s.answered)
    (here : ∃ p, ∃ c ∈ s.calls p, c.slot = r.slot)
    (own : ∀ p, ∀ c ∈ s.calls p, c.slot = r.slot → r.party = p ∧ r.number = c.number) :
    Inv P (s.deliver r) where
  table := h.table
  counted := h.counted
  asked := h.asked
  served := h.served
  granted := h.granted
  wanted := h.wanted
  calls := by
    intro p c' called'
    obtain ⟨c, called, rfl⟩ := Option.map_eq_some_iff.mp called'
    have old := h.calls called
    split
    next here =>
      have ⟨party, number⟩ := own p c called here
      exact ⟨old.last, old.kind, old.sent, fun _ => ⟨r, answered, party, number, rfl⟩⟩
    next => exact ⟨old.last, old.kind, old.sent, old.replied⟩
  positive := h.positive
  live := by
    intro k q here live
    have old := h.live here live
    refine ⟨old.replied, old.since, ?_⟩
    intro c' called'
    obtain ⟨c, called, rfl⟩ := Option.map_eq_some_iff.mp called'
    have none := old.calls c called
    split
    next => exact none
    next => exact none
  released := by
    intro p released
    have ⟨idle, served⟩ := h.released p released
    refine ⟨?_, served⟩
    rw [State.deliver]
    simp only [idle, Option.map_none]
  stray := by
    obtain ⟨p, c, called, slot⟩ := here
    have found : ¬∀ p, ∀ c ∈ s.calls p, c.slot ≠ r.slot := fun none => none p c called slot
    rw [State.deliver, h.stray, Bool.false_or]
    exact decide_eq_false found

/-- A call returns without a port. -/
theorem Inv.idle (h : Inv P s) (p : Fin n) : Inv P { s with calls := update s.calls p none } :=
  { h with
    calls := by
      intro q c called
      by_cases same : q = p
      · rw [same] at called
        simp at called
      · have old := h.calls ((update_of_ne same _ _).symm.trans called)
        exact ⟨old.last, old.kind, old.sent, old.replied⟩
    live := by
      intro k q here live
      have old := h.live here live
      refine ⟨old.replied, old.since, ?_⟩
      intro c called
      by_cases same : q.party = p
      · rw [same] at called
        simp at called
      · exact old.calls c ((update_of_ne same _ _).symm.trans called)
    released := by
      intro q released
      have ⟨idle, served⟩ := h.released q released
      refine ⟨?_, served⟩
      by_cases same : q = p
      · rw [same]
        exact update_self ..
      · exact (update_of_ne same _ _).trans idle
    granted := h.granted
    wanted := h.wanted }

theorem Inv.leave (h : Inv P s) (called : s.calls p = some c) : Inv P (s.leave p c) := by
  have its := h.calls called
  have idle := h.idle p
  rw [State.leave]
  dsimp only
  split
  next positive =>
    obtain ⟨r, answered, party, number, value⟩ := its.replied positive
    obtain ⟨d, served, sameParty, sameOp, sameNumber⟩ := h.served r answered
    have op : d.op = c.msgOp :=
      its.sent d (h.asked d served) (sameParty.trans party) (sameNumber.trans number)
    split
    next release some =>
      have freed := @Inv.setPort n m P _ release idle none fun _ none => by cases none
      have kind : d.op ≠ 0 := by
        intro zero
        have none := its.kind.mpr (op.symm.trans zero)
        rw [some] at none
        cases none
      exact { freed with
        released := by
          intro q released
          by_cases same : q = p
          · subst same
            exact ⟨update_self .., d, served, sameParty.trans party, kind,
              (sameNumber.trans number).trans its.last⟩
          · exact freed.released q ((update_of_ne same _ _).symm.trans released)
        granted := freed.granted
        wanted := freed.wanted
        calls := fun called =>
          have old := freed.calls called
          ⟨old.last, old.kind, old.sent, old.replied⟩
        live := fun here live =>
          have old := freed.live here live
          ⟨old.replied, old.since, old.calls⟩ }
    next none =>
      refine idle.setPort ?_
      rintro q ⟨⟩
      refine ⟨positive, fun _ => ⟨?_, ?_, ?_⟩⟩
      · have request : r.op = 0 := by rw [← sameOp, op, its.kind.mp none]
        exact ⟨r, answered, party, request, number, value⟩
      · intro d asked party release
        have most := h.counted d asked
        have other : d.number ≠ c.number := by
          intro same
          have op := its.sent d asked party same
          exact release (op.trans (its.kind.mp none))
        have last := its.last
        simp only at party ⊢
        rw [party] at most
        omega
      · intro c' called'
        simp at called'
  next => exact idle

/-! ## The server -/

theorem State.Wanted.mono {t : Table} {answered : List (Reply n m)} (h : s.Wanted p)
    (other : d.op = 0 ∨ d.party ≠ p) :
    State.Wanted { s with table := t, served := d :: s.served, answered := answered } p := by
  obtain ⟨e, served, party, request, later⟩ := h
  refine ⟨e, .tail _ served, party, request, ?_⟩
  intro e' served' party' release
  cases served' with
  | head => exact absurd party' (other.resolve_left release)
  | tail _ served' => exact later e' served' party' release

/-- What the server does to its table and what it answers keep the invariant. -/
theorem Inv.of_served (h : Inv P s) (asked : d ∈ s.asked) {t : Table} {port : Int} (table : t.Ok P)
    (kept : ∀ r ∈ s.answered, r.op = 0 → r.port > 0 →
      (∀ e ∈ d :: s.served, e.party = r.party → e.op ≠ 0 → e.number < r.number) →
      ∃ k : Index, r.port = k.val + BASEPORT ∧ t.owner k = P.owner r.party)
    (new : d.op = 0 → port > 0 → ∃ k : Index, port = k.val + BASEPORT ∧ t.owner k = P.owner d.party)
    (wanted : ∀ p k, t.owner k = P.owner p → State.Wanted
      { s with
        table := t
        served := d :: s.served
        answered := ⟨d.party, d.op, d.slot, d.number, port⟩ :: s.answered } p) :
    Inv P { s with
      table := t
      served := d :: s.served
      answered := ⟨d.party, d.op, d.slot, d.number, port⟩ :: s.answered } where
  table := table
  counted := h.counted
  asked := by
    intro e served
    cases served with
    | head => exact asked
    | tail _ served => exact h.asked e served
  served := by
    intro r answered
    cases answered with
    | head => exact ⟨d, .head _, rfl, rfl, rfl⟩
    | tail _ answered =>
        obtain ⟨e, served, same⟩ := h.served r answered
        exact ⟨e, .tail _ served, same⟩
  granted := by
    intro r answered request positive
    cases answered with
    | head => exact fun _ => new request positive
    | tail _ answered => exact kept r answered request positive
  wanted := wanted
  calls := by
    intro p c called
    have old := h.calls called
    refine ⟨old.last, old.kind, old.sent, ?_⟩
    intro positive
    obtain ⟨r, answered, its⟩ := old.replied positive
    exact ⟨r, .tail _ answered, its⟩
  positive := h.positive
  live := by
    intro k q here live
    have old := h.live here live
    obtain ⟨r, answered, its⟩ := old.replied
    exact ⟨⟨r, .tail _ answered, its⟩, old.since, old.calls⟩
  released := by
    intro p released
    obtain ⟨idle, e, served, its⟩ := h.released p released
    exact ⟨idle, e, .tail _ served, its⟩
  stray := h.stray

/-- A reply that holds good after the server has served one more did so before. -/
theorem Inv.promised (h : Inv P s) (answered : r ∈ s.answered) (request : r.op = 0)
    (positive : r.port > 0)
    (later : ∀ e ∈ d :: s.served, e.party = r.party → e.op ≠ 0 → e.number < r.number) :
    ∃ k : Index, r.port = k.val + BASEPORT ∧ s.table.owner k = P.owner r.party :=
  h.granted r answered request positive fun e served => later e (.tail _ served)

theorem Inv.serve (h : Inv P s) {noMemory : Bool} (asked : d ∈ s.asked)
    (orderly : Orderly P s (.serve d noMemory)) : Inv P (s.serve P d noMemory) := by
  simp only [Orderly] at orderly
  simp only [State.serve, Table.serve]
  by_cases request : d.op = 0
  · rw [if_pos request] at orderly
    rw [if_neg (not_not.mpr request)]
    have mono {t : Table} {answered : List (Reply n m)} {p : Fin n} {k : Index}
        (here : s.table.owner k = P.owner p) : State.Wanted
          { s with table := t, served := d :: s.served, answered := answered } p :=
      (h.wanted p k here).mono (.inl request)
    have result := request_cases h.table d.party noMemory
    generalize s.table.request noMemory (P.owner d.party) = left at result ⊢
    cases result with
    | found k other here =>
        refine h.of_served asked h.table ?_ ?_ ?_
        · exact fun r answered => h.promised answered
        · exact fun _ _ => ⟨k, rfl, here⟩
        · exact fun p k here => mono here
    | made k other free passed new =>
        have stays {p : Fin n} {x : Index} (here : s.table.owner x = P.owner p) : x ≠ k := by
          rintro rfl
          exact P.ne_zero p (here.symm.trans free)
        refine h.of_served asked (h.table.made other free passed new) ?_ ?_ ?_
        · intro r answered kind positive later
          obtain ⟨x, names, here⟩ := h.promised answered kind positive later
          exact ⟨x, names, (update_of_ne (stays here) _ _).trans here⟩
        · exact fun _ _ => ⟨k, rfl, update_self ..⟩
        · intro p x here
          by_cases same : x = k
          · rw [same] at here
            have owner : P.owner d.party = P.owner p := (update_self ..).symm.trans here
            have party : d.party = p := P.injective owner
            refine ⟨d, .head _, party, request, ?_⟩
            intro e served party' release
            cases served with
            | head => exact absurd request release
            | tail _ served =>
                have current := orderly.resolve_left fun ⟨x, here⟩ => new x here
                exact current e served (party'.trans party.symm) (iff_of_false release (not_not.mpr request))
          · exact mono ((update_of_ne same _ _).symm.trans here)
    | failed port error =>
        refine h.of_served asked h.table ?_ ?_ ?_
        · exact fun r answered => h.promised answered
        · intro _ positive
          omega
        · exact fun p k here => mono here
  · rw [if_neg request] at orderly
    rw [if_pos request]
    have result := release_cases h.table d.party d.op
    generalize s.table.release d.op (P.owner d.party) = left at result ⊢
    cases result with
    | cleared k other names here =>
        have ⟨_, current, off⟩ := orderly k here
        refine h.of_served asked (h.table.cleared other off) ?_ ?_ ?_
        · intro r answered kind positive later
          obtain ⟨x, its, there⟩ := h.promised answered kind positive later
          refine ⟨x, its, (update_of_ne ?_ _ _).trans there⟩
          -- a reply that is later than this release is served after a later request
          rintro rfl
          have party : d.party = r.party := P.injective (here.symm.trans there)
          obtain ⟨e, served, same, op, number⟩ := h.served r answered
          have before := later d (.head _) party request
          have after := current e served (same.trans party.symm) (iff_of_true (op.trans kind) request)
          omega
        · exact fun kind => absurd kind request
        · intro p x there
          have apart : x ≠ k := by
            rintro rfl
            exact P.ne_zero p (there.symm.trans (update_self ..))
          have there : s.table.owner x = P.owner p := (update_of_ne apart _ _).symm.trans there
          refine (h.wanted p x there).mono (.inr ?_)
          rintro rfl
          exact apart (h.table.probed.once (there.trans here.symm) (there ▸ P.ne_zero _))
    | kept port unnamed =>
        refine h.of_served asked h.table ?_ ?_ ?_
        · exact fun r answered => h.promised answered
        · exact fun kind => absurd kind request
        · intro p x there
          refine (h.wanted p x there).mono (.inr ?_)
          rintro rfl
          exact unnamed x (orderly x there).1 there

theorem Inv.step {e : Event n m} (h : Inv P s) (orderly : Orderly P s e)
    (stepped : step P e s = some s') : Inv P s' := by
  cases e with
  | request p slot =>
      obtain ⟨_, ⟨⟩⟩ := Option.ite_none_right_eq_some.mp stepped
      exact h.begin (iff_of_true rfl rfl) fun none => absurd rfl none
  | release p op slot =>
      simp only [Ports.step] at stepped
      cases port : s.ports op with
      | none =>
          rw [port] at stepped
          cases stepped
      | some q =>
          rw [port] at stepped
          obtain ⟨_, ⟨⟩⟩ := Option.ite_none_right_eq_some.mp stepped
          have positive := h.positive port
          have dead : Inv P (s.setPort op (some { q with live := false })) := by
            refine h.setPort ?_
            rintro _ ⟨⟩
            exact ⟨positive, fun live => by cases live⟩
          refine dead.begin (iff_of_false (by simp) (by omega)) ?_
          intro _ k q' here party
          by_cases same : k = op
          · simp only [State.setPort, same, update_self] at here
            cases here
            rfl
          · exact orderly k same q' ((update_of_ne same _ _).symm.trans here) party
  | send p =>
      simp only [Ports.step] at stepped
      split at stepped
      next c called =>
        obtain ⟨_, ⟨⟩⟩ := Option.ite_none_right_eq_some.mp stepped
        exact h.send called
      next => cases stepped
  | serve d noMemory =>
      obtain ⟨asked, ⟨⟩⟩ := Option.ite_none_right_eq_some.mp stepped
      exact h.serve asked orderly
  | deliver r =>
      obtain ⟨answered, ⟨⟩⟩ := Option.ite_none_right_eq_some.mp stepped
      exact h.deliver answered orderly.1 orderly.2
  | finish p =>
      simp only [Ports.step] at stepped
      split at stepped
      next c called =>
        obtain ⟨_, ⟨⟩⟩ := Option.ite_none_right_eq_some.mp stepped
        exact h.leave called
      next => cases stepped

end

theorem init_owner {k : Index} (other : k ≠ 0) : (init P : State n m).table.owner k = 0 := by
  simp [init, other]

theorem init_inv : Inv P (init P : State n m) where
  table := by
    refine ⟨.of_empty P.real fun _ => init_owner, rfl, ?_, rfl⟩
    intro k other o
    rw [init_owner other]
    refine iff_of_false (by simp [init]) ?_
    rintro ⟨rfl, ne⟩
    exact ne rfl
  counted := fun _ none => by cases none
  asked := fun _ none => by cases none
  served := fun _ none => by cases none
  granted := fun _ none => by cases none
  wanted := by
    intro p k here
    by_cases zero : k = 0
    · rw [zero] at here
      exact absurd here.symm (P.ne_server p)
    · exact absurd (here.symm.trans (init_owner zero)) (P.ne_zero p)
  calls := fun none => by cases none
  positive := fun none => by cases none
  live := fun none => by cases none
  released := fun _ none => by cases none
  stray := rfl

/-- In orderly runs ports lead to their owners' stubs and releases leave none. -/
theorem ports_sound {tr : Trace n m} {s : State n m}
    (run : Run (step P) (Orderly P) (init P) tr s) : Sound P s :=
  (run.invariant (P := Inv P) init_inv fun h orderly stepped => h.step orderly stepped).sound

/-- One party, whose owner belongs into slot 3. -/
def one : Parties 1 where
  owner := fun _ => 0x100001230
  server := 0x2000
  injective := fun _ _ _ => Subsingleton.elim ..
  ne_zero := by decide
  ne_server := by decide
  real := by decide

/-- A port is asked for and released, with a request and a release sent twice. -/
theorem ports_sound_one :
    ∃ tr s, Run (step one) (Orderly one) (init one : State 1 2) tr s ∧
      s.released 0 = true ∧ Sound one s := by
  have ⟨tr, s, run, test⟩ := Run.of_execute (step one) (Orderly one) (init one : State 1 2)
    [.request 0 0, .send 0, .send 0, .serve ⟨0, 0, 0, 1⟩ false, .deliver ⟨0, 0, 0, 1, 5003⟩,
      .finish 0, .serve ⟨0, 0, 0, 1⟩ false, .release 0 0 1, .send 0, .send 0,
      .serve ⟨0, 5003, 1, 2⟩ false, .serve ⟨0, 5003, 1, 2⟩ false, .deliver ⟨0, 5003, 1, 2, 5003⟩,
      .finish 0]
    (fun s => s.released 0) (by decide +kernel)
  exact ⟨tr, s, run, test, ports_sound run⟩

/-- A release that is received a second time takes the stub of the next port. -/
theorem not_ports_sound :
    ¬∀ tr s, Run (step one) (fun _ _ => True) (init one : State 1 2) tr s → Sound one s := by
  intro sound
  have ⟨tr, s, run, test⟩ := Run.of_execute (step one) (fun _ _ => True) (init one : State 1 2)
    [.request 0 0, .send 0, .serve ⟨0, 0, 0, 1⟩ false, .deliver ⟨0, 0, 0, 1, 5003⟩, .finish 0,
      .release 0 0 1, .send 0, .serve ⟨0, 5003, 1, 2⟩ false, .deliver ⟨0, 5003, 1, 2, 5003⟩,
      .finish 0,
      .request 0 0, .send 0, .serve ⟨0, 0, 0, 3⟩ false, .deliver ⟨0, 0, 0, 3, 5003⟩, .finish 0,
      .serve ⟨0, 5003, 1, 2⟩ false]
    (fun s => s.ports 0 == some ⟨0, 5003, 3, true⟩ && s.table.task 3 == none) (by decide +kernel)
  simp only [Bool.and_eq_true, beq_iff_eq] at test
  obtain ⟨k, names, made⟩ := (sound tr s run).leads 0 _ test.1 rfl
  have three : k = 3 := by
    apply Fin.ext
    simp only [BASEPORT] at names
    have : (k.val : Int) = 3 := by omega
    exact_mod_cast this
  rw [three, test.2] at made
  cases made

end Rtai.NetRpc.Ports
